import Mosnix.Kmalloc.UserHeap
import Mosnix.Lib.Intervals
import Mosnix.Lib.LinkedList

/-!
# The free list

The blocks on the list `free_blocks`.  The headers of two blocks that do not overlap can be changed
independently (`Clear`), so that the operations on the list keep it, whatever the addresses and the
sizes of its blocks are.

An allocation takes the first block that has the rounded size.  The size is rounded in 16 bits, and
is 0 for a request of more than 65532 bytes, so that the block may be smaller than the request
(`kmallocUserAlloc_meets_iff`).
-/

namespace Mosnix.Kmalloc

open LinkedList Intervals

/-! ### Headers -/

/-- The headers at two addresses are the same, or do not overlap. -/
def Clear (a b : Word) : Prop :=
  b = a ∨ 4 ≤ (b - a).toNat ∧ 4 ≤ (a - b).toNat

theorem Clear.refl (a : Word) : Clear a a := Or.inl rfl

/-- Headers four bytes apart do not overlap. -/
theorem clear_of_le {a b : Word} (h : a.toNat + 4 ≤ b.toNat) (hb : b.toNat + 4 ≤ 2 ^ 16) :
  Clear a b ∧ Clear b a
  := by
  have hsub : 4 ≤ (b - a).toNat ∧ 4 ≤ (a - b).toNat := by
    constructor
    · bv_omega
    · bv_omega
  exact ⟨Or.inr hsub, Or.inr hsub.symm⟩

variable {size block elm : Word}

namespace Heap

variable {h : Heap} {a b v : Word}

theorem next_setNext (hab : Clear a b) :
  (h.setNext a v).next b = if b = a then v else h.next b
  := by
  unfold Clear at hab
  simp only [next, setNext]
  split_ifs with heq
  · rw [heq, Memory.word_storeWord_self]
  · apply Memory.word_storeWord_of_ne heq
    · bv_omega
    · bv_omega

theorem size_setNext (hab : Clear a b) : (h.setNext a v).size b = h.size b := by
  unfold Clear at hab
  simp only [size, setNext]
  apply Memory.word_storeWord_of_ne
  · bv_omega
  · bv_omega
  · bv_omega

theorem next_setSize (hab : Clear a b) : (h.setSize a v).next b = h.next b := by
  unfold Clear at hab
  simp only [next, setSize]
  apply Memory.word_storeWord_of_ne
  · bv_omega
  · bv_omega
  · bv_omega

theorem size_setSize (hab : Clear a b) :
  (h.setSize a v).size b = if b = a then v else h.size b
  := by
  unfold Clear at hab
  simp only [size, setSize]
  split_ifs with heq
  · rw [heq, Memory.word_storeWord_self]
  · apply Memory.word_storeWord_of_ne
    · bv_omega
    · bv_omega
    · bv_omega

/-- The size of two blocks that are combined. -/
theorem size_combine (hab : Clear a b) (hne : b ≠ a) {x : Word} (hax : Clear a x) :
  (h.combine a b).size x = if x = a then h.size a + 4 + h.size b else h.size x
  := by
  rw [combine, size_setSize hax]
  split_ifs with hxa
  · rw [size_setSize (Clear.refl a), size_setSize hab, if_pos rfl, if_neg hne]
    rfl
  · rw [size_setSize hax, if_neg hxa]

theorem size_slistRemoveAfter (hab : a ≠ 0 → Clear a b) :
  (h.slistRemoveAfter a elm).size b = h.size b
  := by
  unfold slistRemoveAfter
  split_ifs with ha
  · apply size_setNext (hab ha)
  · rfl

theorem size_slistInsertAfter (hab : Clear a b) (helm : Clear elm b) :
  (h.slistInsertAfter a elm).size b = h.size b
  := by
  rw [slistInsertAfter, size_setNext hab, size_setNext helm]

theorem size_slistInsertHead (helm : Clear elm b) :
  (h.slistInsertHead elm).size b = h.size b
  := size_setNext helm

end Heap

/-- The bytes of the block at `a`, with its header. -/
def blockExtent (h : Heap) (a : Word) : ℕ × ℕ :=
  (a.toNat, a.toNat + 4 + (h.size a).toNat)

/-! ### Operations on the list -/

/-- The free list of `h` consists of the blocks `l`. -/
def FreeList (h : Heap) (l : List Word) : Prop :=
  Holds h.next 0 h.freeBlocks l

variable {h h' : Heap} {l l₁ l₂ : List Word} {a b x : Word}

namespace FreeList

/-- A change to the sizes does not change the free list. -/
theorem setSize {v : Word} (hl : FreeList h l) (ha : ∀ y ∈ l, Clear a y) :
  FreeList (h.setSize a v) l
  := by
  apply Holds.congr hl
  intro y hy
  apply Heap.next_setSize (ha y hy)

theorem combine (hl : FreeList h l) (ha : ∀ y ∈ l, Clear a y) : FreeList (h.combine a b) l :=
  (hl.setSize ha).setSize ha

theorem ne_zero (hl : FreeList h l) (ha : a ∈ l) : a ≠ 0 := by
  rintro rfl
  apply hl.null_notMem ha

/-- A block removed from the free list. -/
theorem remove (hl : FreeList h (l₁ ++ x :: l₂))
    (hclear : ∀ a ∈ l₁ ++ x :: l₂, ∀ b ∈ l₁ ++ x :: l₂, Clear a b) :
  FreeList (h.slistRemoveAfter (before 0 l₁) x) (l₁ ++ l₂)
  := by
  obtain rfl | ⟨l, p, rfl⟩ := List.eq_nil_or_concat l₁
  · have hfirst : h.freeBlocks = x := hl.path.1
    have hrem : h.slistRemoveAfter (before 0 []) x = { h with freeBlocks := h.next x } := by
      simp [Heap.slistRemoveAfter, hfirst]
    rw [hrem]
    apply Holds.removeHead hl
    intro y _
    rfl
  · rw [List.concat_eq_append] at hl hclear ⊢
    have hp : p ≠ 0 := hl.ne_zero (by simp)
    have hrem : h.slistRemoveAfter (before 0 (l ++ [p])) x = h.setNext p (h.next x) := by
      rw [before_append, Heap.slistRemoveAfter, if_pos hp]
    rw [hrem]
    simp only [List.append_assoc, List.singleton_append] at hl hclear ⊢
    apply Holds.removeAfter hl
    · rw [Heap.next_setNext (Clear.refl p), if_pos rfl]
    · intro y hy hyp
      rw [Heap.next_setNext (hclear p (by simp) y hy), if_neg hyp]

/-- A block inserted into the free list, after a block or at the head. -/
theorem insert (hl : FreeList h (l₁ ++ l₂)) (hx : x ≠ 0) (hxl : x ∉ l₁ ++ l₂)
    (hclear : ∀ a ∈ l₁ ++ x :: l₂, ∀ b ∈ l₁ ++ x :: l₂, Clear a b) :
  FreeList (if before 0 l₁ ≠ 0 then h.slistInsertAfter (before 0 l₁) x else h.slistInsertHead x)
    (l₁ ++ x :: l₂)
  := by
  have hclearx : ∀ y ∈ l₁ ++ l₂, Clear x y := by
    intro y hy
    apply hclear x (by simp) y
    simp only [List.mem_append, List.mem_cons] at hy ⊢
    tauto
  have hyx : ∀ y ∈ l₁ ++ l₂, y ≠ x := by
    rintro y hy rfl
    apply hxl hy
  obtain rfl | ⟨l, p, rfl⟩ := List.eq_nil_or_concat l₁
  · rw [before_nil, if_neg (by simp)]
    apply Holds.insertHead hl hx hxl
    · exact (Heap.next_setNext (Clear.refl x)).trans (if_pos rfl)
    · intro y hy
      exact (Heap.next_setNext (hclearx y hy)).trans (if_neg (hyx y hy))
  · rw [List.concat_eq_append] at hclear
    rw [List.concat_eq_append, List.append_assoc, List.singleton_append] at hl hxl hclearx hyx
    have hp : p ≠ 0 := hl.ne_zero (by simp)
    have hpx : p ≠ x := hyx p (by simp)
    have hclearp : ∀ y ∈ l ++ p :: l₂, Clear p y := by
      intro y hy
      apply hclear p (by simp) y
      simp only [List.mem_append, List.mem_cons] at hy ⊢
      tauto
    rw [List.concat_eq_append, before_append, if_pos hp, List.append_assoc, List.singleton_append]
    apply Holds.insertAfter hl hx hxl
    · rw [Heap.slistInsertAfter, Heap.next_setNext (Clear.refl p), if_pos rfl]
    · rw [Heap.slistInsertAfter, Heap.next_setNext (hclear p (by simp) x (by simp)),
        if_neg hpx.symm, Heap.next_setNext (Clear.refl x), if_pos rfl]
    · intro y hy hyp
      rw [Heap.slistInsertAfter, Heap.next_setNext (hclearp y hy), if_neg hyp,
        Heap.next_setNext (hclearx y hy), if_neg (hyx y hy)]

/-- There are fewer blocks than the bound on the iterations of a loop. -/
theorem length_lt (hl : FreeList h l) : l.length < loopBound := by
  have hnodup : ((0 :: l).map BitVec.toFin).Nodup := by
    apply List.Nodup.map (fun a b hab => BitVec.eq_of_toFin_eq hab)
    exact List.nodup_cons.mpr ⟨hl.null_notMem, hl.nodup⟩
  have hle := hnodup.length_le_card
  rw [List.length_map, List.length_cons, Fintype.card_fin] at hle
  apply hle

/-- A heap has one free list. -/
theorem unique (hl₁ : FreeList h l₁) (hl₂ : FreeList h l₂) : l₁ = l₂ :=
  hl₁.path.unique hl₂.path hl₁.null_notMem hl₂.null_notMem

end FreeList

/-! ### The loops over the free list -/

/-- The loop of the allocation passes over blocks that are too small. -/
theorem allocLoop_skip {prev c : Word} {fuel : ℕ} (hpath : Path h.next block l c)
    (hl : ∀ x ∈ l, x ≠ 0 ∧ h.size x < size) :
  allocLoop size h (l.length + fuel) prev block = allocLoop size h fuel (before prev l) c
  := by
  induction l generalizing block prev with
  | nil =>
      rw [path_nil] at hpath
      rw [List.length_nil, Nat.zero_add, before_nil, hpath]
  | cons x l ih =>
      obtain ⟨rfl, hpath⟩ := hpath
      obtain ⟨hx, hsize⟩ := hl block (by simp)
      have hnot : ¬ h.size block ≥ size := by simpa using hsize
      rw [List.length_cons, Nat.add_right_comm, allocLoop, if_neg hx, if_neg hnot,
        ih hpath (fun y hy => hl y (by simp [hy])), before_cons]

/-- The loop of the release passes over blocks that are not after the block. -/
theorem freeLoop_skip {current prev c : Word} {fuel : ℕ} (hpath : Path h.next current l c)
    (hl : ∀ x ∈ l, x ≠ 0 ∧ ¬ x > block) :
  freeLoop block h (l.length + fuel) prev current = freeLoop block h fuel (before prev l) c
  := by
  induction l generalizing current prev with
  | nil =>
      rw [path_nil] at hpath
      rw [List.length_nil, Nat.zero_add, before_nil, hpath]
  | cons x l ih =>
      obtain ⟨rfl, hpath⟩ := hpath
      obtain ⟨hx, hle⟩ := hl current (by simp)
      rw [List.length_cons, Nat.add_right_comm, freeLoop, if_neg hx, if_neg hle,
        ih hpath (fun y hy => hl y (by simp [hy])), before_cons]

namespace FreeList

/-- Without a free block that is large enough, the loop returns zero. -/
theorem allocLoop_eq_zero (hl : FreeList h l) (hsmall : ∀ x ∈ l, h.size x < size) :
  allocLoop size h loopBound 0 h.freeBlocks = some (h, 0)
  := by
  obtain ⟨k, hk⟩ := Nat.exists_eq_add_of_lt hl.length_lt
  rw [hk, Nat.add_assoc, allocLoop_skip hl.path (fun x hx => ⟨hl.ne_zero hx, hsmall x hx⟩),
    allocLoop, if_pos rfl]

/-- The loop stops at the first free block that is large enough. -/
theorem allocLoop_eq (hl : FreeList h (l₁ ++ a :: l₂)) (hfit : size ≤ h.size a)
    (hsmall : ∀ x ∈ l₁, h.size x < size) :
  allocLoop size h loopBound 0 h.freeBlocks
    = some ((splitBlock h a size).slistRemoveAfter (before 0 l₁) a, a + SIZEOF_USER_BLOCK)
  := by
  obtain ⟨c, hpre, rfl, -⟩ := path_append.mp hl.path
  have hlt := hl.length_lt
  rw [List.length_append] at hlt
  obtain ⟨k, hk⟩ := Nat.exists_eq_add_of_lt (Nat.lt_of_le_of_lt (Nat.le_add_right _ _) hlt)
  have hskip : ∀ x ∈ l₁, x ≠ 0 ∧ h.size x < size := by
    intro x hx
    exact ⟨hl.ne_zero (by simp [hx]), hsmall x hx⟩
  rw [hk, Nat.add_assoc, allocLoop_skip hpre hskip, allocLoop, if_neg (hl.ne_zero (by simp)),
    if_pos hfit]

/-- The loop of the release reaches the blocks after the block. -/
theorem freeLoop_eq (hl : FreeList h (l₁ ++ l₂)) (hle : ∀ x ∈ l₁, ¬ x > b) :
  ∃ fuel c, Path h.next c l₂ 0
    ∧ freeLoop b h loopBound 0 h.freeBlocks = freeLoop b h (fuel + 1) (before 0 l₁) c
  := by
  obtain ⟨c, hpre, hpost⟩ := path_append.mp hl.path
  have hlt := hl.length_lt
  rw [List.length_append] at hlt
  obtain ⟨k, hk⟩ := Nat.exists_eq_add_of_lt (Nat.lt_of_le_of_lt (Nat.le_add_right _ _) hlt)
  use k, c, hpost
  rw [hk, Nat.add_assoc]
  apply freeLoop_skip hpre
  intro x hx
  exact ⟨hl.ne_zero (by simp [hx]), hle x hx⟩

end FreeList

/-! ### The split of a block -/

/-- A block that is split. -/
theorem splitBlock_eq (hsplit : size - h.size block ≥ KMALLOC_MIN_BLOCK_SIZE) :
  splitBlock h block size = splitOff h block size
  := if_pos hsplit

/-- The size of the block after it is split. -/
theorem size_splitOff (block size : Word) : (splitOff h block size).size block = size := by
  rw [splitOff, Heap.size_setSize (Clear.refl block), if_pos rfl]

theorem size_splitBlock (hsplit : size - h.size block ≥ KMALLOC_MIN_BLOCK_SIZE) :
  (splitBlock h block size).size block = size
  := by
  rw [splitBlock_eq hsplit, size_splitOff]

/-! ### Free lists in the order of the addresses -/

theorem blockExtent_congr (hsize : h'.size a = h.size a) : blockExtent h' a = blockExtent h a := by
  rw [blockExtent, blockExtent, hsize]

/-- The headers of blocks that do not overlap do not overlap. -/
theorem clear_of_ordered (hbounds : ∀ a ∈ l, (blockExtent h a).2 < 2 ^ 16)
    (hordered : l.Pairwise fun a b => (blockExtent h a).2 ≤ b.toNat) :
  ∀ a ∈ l, ∀ b ∈ l, Clear a b
  := by
  have hpair : l.Pairwise fun a b => Clear a b ∧ Clear b a := by
    apply hordered.imp_of_mem
    intro a b ha hb hle
    have hb' := hbounds b hb
    simp only [blockExtent] at hle hb'
    apply clear_of_le
    · omega
    · omega
  have hsymm : Std.Symm fun a b : Word => Clear a b ∧ Clear b a := ⟨fun _ _ hab => hab.symm⟩
  have hall := hpair.forall_of_forall fun a _ => ⟨Clear.refl a, Clear.refl a⟩
  intro a ha b hb
  exact (hall ha hb).1

/-- The free list of `h` consists of the blocks `l`.  They are in the memory, in the order of their
addresses, and do not overlap. -/
structure FreeBlocks (h : Heap) (l : List Word) : Prop where
  list : FreeList h l
  bounds : ∀ a ∈ l, (blockExtent h a).2 < 2 ^ 16
  ordered : l.Pairwise fun a b => (blockExtent h a).2 ≤ b.toNat

namespace FreeBlocks

variable (hl : FreeBlocks h (l₁ ++ a :: l₂))

include hl

/-- The blocks before a block have smaller addresses, and the blocks after it greater ones. -/
theorem lt : (∀ x ∈ l₁, x < a) ∧ ∀ x ∈ l₂, a < x := by
  have hordered := hl.ordered
  rw [List.pairwise_append, List.pairwise_cons] at hordered
  constructor
  · intro x hx
    have hle := hordered.2.2 x hx a (by simp)
    simp only [blockExtent] at hle
    bv_omega
  · intro x hx
    have hle := hordered.2.1.1 x hx
    simp only [blockExtent] at hle
    bv_omega

omit hl in
/-- The pointer to a block is not NULL. -/
theorem add_ne_zero (hl : FreeBlocks h l) (ha : a ∈ l) : a + SIZEOF_USER_BLOCK ≠ 0 := by
  have hbounds := hl.bounds a ha
  simp only [blockExtent] at hbounds
  unfold SIZEOF_USER_BLOCK
  bv_omega

/-- The free block before a block. -/
theorem before_le (hprev : before 0 l₁ ≠ 0) :
  (before 0 l₁).toNat + 4 ≤ a.toNat
  := by
  obtain rfl | ⟨l, p, rfl⟩ := List.eq_nil_or_concat l₁
  · cases hprev rfl
  · rw [List.concat_eq_append] at hl ⊢
    have hordered := hl.ordered
    rw [List.pairwise_append] at hordered
    have hle := hordered.2.2 p (by simp) a (by simp)
    rw [before_append]
    simp only [blockExtent] at hle
    omega

theorem clear_before (hprev : before 0 l₁ ≠ 0) :
  Clear (before 0 l₁) a
  := by
  have hbound := hl.bounds a (by simp)
  simp only [blockExtent] at hbound
  exact (clear_of_le (hl.before_le hprev) (by omega)).1

/-- The size of a block that is allocated. -/
theorem le_size (hfit : size ≤ h.size a) :
  size ≤ ((splitBlock h a size).slistRemoveAfter (before 0 l₁) a).size a
  := by
  rw [Heap.size_slistRemoveAfter hl.clear_before]
  by_cases hsplit : size - h.size a ≥ KMALLOC_MIN_BLOCK_SIZE
  · rw [size_splitBlock hsplit]
    apply BitVec.le_refl
  · rw [splitBlock, if_neg hsplit]
    apply hfit

end FreeBlocks

/-! ### Allocation -/

/-- The size is rounded in 16 bits. -/
theorem toNat_roundSize (size : Word) :
  (roundSize size).toNat = (size.toNat + 3) % 2 ^ 16 / 4 * 4
  := by
  have hshift : roundSize size = (size + 3) >>> 2 <<< 2 := by
    apply BitVec.eq_of_getLsbD_eq
    intro i hi
    rw [roundSize, BitVec.getLsbD_and, BitVec.getLsbD_not, BitVec.getLsbD_shiftLeft,
      BitVec.getLsbD_ushiftRight]
    have hmask : (3 : Word).getLsbD i = decide (i < 2) := by
      have hall : ∀ i < 16, (3 : Word).getLsbD i = decide (i < 2) := by decide
      apply hall i hi
    rw [hmask]
    by_cases hlt : i < 2
    · simp [hlt]
    · have hsum : 2 + (i - 2) = i := by omega
      simp [hlt, hi, hsum]
  rw [hshift, BitVec.toNat_shiftLeft, BitVec.toNat_ushiftRight, Nat.shiftRight_eq_div_pow,
    Nat.shiftLeft_eq, BitVec.toNat_add]
  have hlt := size.isLt
  have hthree : (3 : Word).toNat = 3 := rfl
  rw [hthree]
  omega

/-- Rounding does not make a size smaller. -/
theorem le_roundSize (hsize : size.toNat ≤ 65532) : size ≤ roundSize size := by
  rw [BitVec.le_def, toNat_roundSize]
  omega

/-- The allocation meets the request: it returns a pointer to the lowest free block that is large
enough, with a header that has at least the size; or it returns NULL, there is no such block, and
the heap is unchanged. -/
def AllocMeets (h : Heap) (l : List Word) (size : Word) : Prop :=
  ∃ h' ptr, kmallocUserAlloc h size = some (h', ptr) ∧
    ((ptr ≠ 0 ∧ ∃ a ∈ l, size ≤ h.size a ∧ (∀ x ∈ l, size ≤ h.size x → a ≤ x)
        ∧ ptr = a + SIZEOF_USER_BLOCK ∧ size ≤ h'.size a)
      ∨ ptr = 0 ∧ (∀ x ∈ l, h.size x < size) ∧ h' = h)

/-- The lowest free block with at least `size` bytes. -/
theorem FreeBlocks.find?_eq_some_iff (hl : FreeBlocks h l) :
  l.find? (fun a => size ≤ h.size a) = some a
    ↔ a ∈ l ∧ size ≤ h.size a ∧ ∀ x ∈ l, size ≤ h.size x → a ≤ x
  := by
  constructor
  · intro hfind
    obtain ⟨hfit, l₁, l₂, rfl, hsmall⟩ := List.find?_eq_some_iff_append.mp hfind
    refine ⟨by simp, by simpa using hfit, ?_⟩
    intro x hx hxfit
    simp only [List.mem_append, List.mem_cons] at hx
    obtain hx | rfl | hx := hx
    · exact absurd hxfit (by simpa using hsmall x hx)
    · exact BitVec.le_refl x
    · exact BitVec.le_of_lt (hl.lt.2 x hx)
  · rintro ⟨ha, hfit, hlowest⟩
    obtain ⟨l₁, l₂, rfl⟩ := List.append_of_mem ha
    rw [List.find?_eq_some_iff_append]
    refine ⟨by simpa using hfit, l₁, l₂, rfl, ?_⟩
    intro x hx
    by_contra hnot
    have hle := hlowest x (by simp [hx]) (by simpa using hnot)
    exact absurd (hl.lt.1 x hx) (BitVec.not_lt.mpr hle)

/-- An allocation of the rounded size. -/
theorem FreeBlocks.alloc_cases (hl : FreeBlocks h l) (size : Word) :
  (l.find? (fun a => roundSize size ≤ h.size a) = none
      ∧ kmallocUserAlloc h size = some (h, 0))
    ∨ ∃ a h', l.find? (fun a => roundSize size ≤ h.size a) = some a
      ∧ kmallocUserAlloc h size = some (h', a + SIZEOF_USER_BLOCK) ∧ roundSize size ≤ h'.size a
  := by
  cases hfind : l.find? (fun a => roundSize size ≤ h.size a) with
  | none =>
      left
      refine ⟨rfl, hl.list.allocLoop_eq_zero ?_⟩
      simpa using hfind
  | some a =>
      right
      obtain ⟨hfit, l₁, l₂, rfl, hsmall⟩ := List.find?_eq_some_iff_append.mp hfind
      rw [decide_eq_true_iff] at hfit
      refine ⟨a, _, rfl, hl.list.allocLoop_eq hfit ?_, hl.le_size hfit⟩
      simpa using hsmall

/-- For sizes that are multiples of 4, a block has the size if and only if it has the rounded
size. -/
theorem roundSize_le_iff (hal : (h.size a).toNat % 4 = 0) (hsize : size.toNat ≤ 65532) :
  roundSize size ≤ h.size a ↔ size ≤ h.size a
  := by
  rw [BitVec.le_def, BitVec.le_def, toNat_roundSize]
  omega

/-- The first free block with the size is the first with the rounded size, for sizes that are
multiples of 4. -/
theorem FreeBlocks.find?_roundSize_iff (hl : FreeBlocks h l) (hal : ∀ a ∈ l, (h.size a).toNat % 4 = 0)
    (size : Word) :
  l.find? (fun a => size ≤ h.size a) = l.find? (fun a => roundSize size ≤ h.size a)
    ↔ size.toNat ≤ 65532 ∨ l = []
  := by
  constructor
  · intro heq
    by_contra hnot
    rw [not_or, not_le] at hnot
    obtain ⟨hsize, hne⟩ := hnot
    obtain ⟨a, l', rfl⟩ := List.exists_cons_of_ne_nil hne
    have hround : roundSize size = 0 := by
      apply BitVec.eq_of_toNat_eq
      have hlt := size.isLt
      have hzero : (0 : Word).toNat = 0 := rfl
      rw [toNat_roundSize, hzero]
      omega
    have hfirst : (a :: l').find? (fun a => roundSize size ≤ h.size a) = some a := by
      rw [hround, List.find?_cons_of_pos]
      rw [decide_eq_true_iff]
      exact Nat.zero_le _
    have hfit := (hl.find?_eq_some_iff.mp (heq.trans hfirst)).2.1
    have hbounds := hl.bounds a (by simp)
    simp only [blockExtent] at hbounds
    bv_omega
  · rintro (hsize | rfl)
    · apply List.find?_congr
      intro a ha
      rw [decide_eq_decide, roundSize_le_iff (hal a ha) hsize]
    · rfl

/-- An allocation meets the request if and only if the first free block with the size is also the
first one with the rounded size.  If the sizes of the free blocks are multiples of 4, this is so if
and only if the request is for at most 65532 bytes, or there is no free block. -/
theorem kmallocUserAlloc_meets_iff (hl : FreeBlocks h l) (size : Word) :
  (AllocMeets h l size ↔
    l.find? (fun a => size ≤ h.size a) = l.find? (fun a => roundSize size ≤ h.size a))
    ∧ ((∀ a ∈ l, (h.size a).toNat % 4 = 0) →
      (l.find? (fun a => size ≤ h.size a) = l.find? (fun a => roundSize size ≤ h.size a)
        ↔ size.toNat ≤ 65532 ∨ l = []))
  := by
  refine ⟨?_, fun hal => hl.find?_roundSize_iff hal size⟩
  obtain ⟨hnone, halloc⟩ | ⟨a, h', hsome, halloc, hround⟩ := hl.alloc_cases size
  · rw [hnone]
    constructor
    · rintro ⟨h', ptr, heq, ⟨hptr, -⟩ | ⟨-, hsmall, -⟩⟩
      · rw [halloc] at heq
        cases heq
        cases hptr rfl
      · simpa using hsmall
    · intro hsmall
      exact ⟨h, 0, halloc, Or.inr ⟨rfl, by simpa using hsmall, rfl⟩⟩
  · rw [hsome]
    have ha : a ∈ l := List.mem_of_find?_eq_some hsome
    constructor
    · rintro ⟨h'', ptr, heq, ⟨-, a', ha', hfit, hlowest, hptr, -⟩ | ⟨hptr, -⟩⟩
      · rw [halloc] at heq
        cases heq
        obtain rfl : a = a' := add_right_cancel hptr
        exact hl.find?_eq_some_iff.mpr ⟨ha, hfit, hlowest⟩
      · rw [halloc] at heq
        cases heq
        cases hl.add_ne_zero ha hptr
    · intro hfind
      obtain ⟨-, hfit, hlowest⟩ := hl.find?_eq_some_iff.mp hfind
      have hsize : size.toNat ≤ 65532 := by
        have hbounds := hl.bounds a ha
        simp only [blockExtent] at hbounds
        bv_omega
      exact ⟨h', _, halloc, Or.inl ⟨hl.add_ne_zero ha, a, ha, hfit, hlowest, rfl,
        BitVec.le_trans (le_roundSize hsize) hround⟩⟩

/-- A free list of one block. -/
theorem freeBlocks_singleton (ha : a ≠ 0) (hfirst : h.freeBlocks = a) (hnext : h.next a = 0)
    (hbound : (blockExtent h a).2 < 2 ^ 16) :
  FreeBlocks h [a]
  where
  list := ⟨⟨hfirst, hnext⟩, by simpa using ha.symm, List.nodup_singleton a⟩
  bounds := by simpa using hbound
  ordered := List.pairwise_singleton _ a

/-- The heap of the memory from `0x1000` to `0x1040`. -/
def heap64 : Heap := kmallocInit (fun _ => 0) 0x1000 0x1040

theorem freeBlocks_heap64 : FreeBlocks heap64 [0x1000] :=
  freeBlocks_singleton (by decide) rfl (by decide) (by decide)

/-- A request for 65535 bytes is met with a block of 0 bytes. -/
theorem kmallocUserAlloc_meets_65535 :
  FreeBlocks heap64 [0x1000] ∧ heap64.size 0x1000 = 60
    ∧ (∃ h', kmallocUserAlloc heap64 65535 = some (h', 0x1004) ∧ h'.size 0x1000 = 0)
    ∧ ¬ AllocMeets heap64 [0x1000] 65535
  := by
  have halloc : (kmallocUserAlloc heap64 65535).map (fun x => (x.2, x.1.size 0x1000))
      = some (0x1004, 0) := by
    decide +kernel
  obtain ⟨⟨h', ptr⟩, heq, hx⟩ := Option.map_eq_some_iff.mp halloc
  obtain ⟨rfl, hsize⟩ := Prod.ext_iff.mp hx
  refine ⟨freeBlocks_heap64, by decide, ⟨h', heq, hsize⟩, ?_⟩
  rintro ⟨h'', ptr, heq', ⟨-, a, ha, hfit, -⟩ | ⟨hptr, -⟩⟩
  · obtain rfl := List.mem_singleton.mp ha
    exact absurd hfit (by decide)
  · rw [heq] at heq'
    cases heq'
    exact absurd hptr (by decide)

/-- A request for 60 bytes is met. -/
theorem kmallocUserAlloc_meets_60 :
  FreeBlocks heap64 [0x1000] ∧ AllocMeets heap64 [0x1000] 60
  :=
  ⟨freeBlocks_heap64, (kmallocUserAlloc_meets_iff freeBlocks_heap64 60).1.mpr (by decide)⟩

/-! ### The threshold of a split -/

/-- The number of bytes of a block beyond the rounded size of a request. -/
def excess (h : Heap) (a size : Word) : ℕ :=
  (h.size a).toNat - (roundSize size).toNat

/-- The allocation splits the block that it takes, which is the first one with the size, if and only
if the block has at least `KMALLOC_MIN_BLOCK_SIZE` bytes beyond the rounded size, and takes the whole
block otherwise.  After a split, the sizes of the two blocks and of the new header add up to the size
of the block, and the remainder has at least the minimum size without its header. -/
def SplitsAtThreshold (h : Heap) (l : List Word) (size : Word) : Prop :=
  ∃ l₁ a l₂, l = l₁ ++ a :: l₂ ∧ size ≤ h.size a ∧ (∀ x ∈ l₁, h.size x < size)
    ∧ if KMALLOC_MIN_BLOCK_SIZE.toNat ≤ excess h a size then
        kmallocUserAlloc h size = some ((splitOff h a (roundSize size)).slistRemoveAfter
            (before 0 l₁) a, a + SIZEOF_USER_BLOCK)
          ∧ (roundSize size).toNat + SIZEOF_USER_BLOCK.toNat
              + (h.size a - roundSize size - SIZEOF_USER_BLOCK).toNat = (h.size a).toNat
          ∧ KMALLOC_MIN_BLOCK_SIZE - SIZEOF_USER_BLOCK
              ≤ h.size a - roundSize size - SIZEOF_USER_BLOCK
      else
        kmallocUserAlloc h size
          = some (h.slistRemoveAfter (before 0 l₁) a, a + SIZEOF_USER_BLOCK)

/-- The test of the code subtracts the size of the block from the request, in 16 bits. -/
theorem test_iff (hfit : roundSize size ≤ h.size a) :
  roundSize size - h.size a ≥ KMALLOC_MIN_BLOCK_SIZE
    ↔ 0 < excess h a size ∧ excess h a size ≤ 65504
  := by
  unfold excess KMALLOC_MIN_BLOCK_SIZE
  bv_omega

/-- The allocation takes the first block with the size, and splits it if the test of the code says
so. -/
theorem FreeBlocks.alloc_eq (hl : FreeBlocks h (l₁ ++ a :: l₂)) (hfit : roundSize size ≤ h.size a)
    (hsmall : ∀ x ∈ l₁, h.size x < roundSize size) :
  kmallocUserAlloc h size
    = some ((if 0 < excess h a size ∧ excess h a size ≤ 65504
        then splitOff h a (roundSize size) else h).slistRemoveAfter (before 0 l₁) a,
      a + SIZEOF_USER_BLOCK)
  := by
  apply (hl.list.allocLoop_eq hfit hsmall).trans
  congr 3
  by_cases hsplit : roundSize size - h.size a ≥ KMALLOC_MIN_BLOCK_SIZE
  · rw [splitBlock_eq hsplit, if_pos ((test_iff hfit).mp hsplit)]
  · rw [splitBlock, if_neg hsplit, if_neg (mt (test_iff hfit).mpr hsplit)]

/-- The size in the header of the block, after an allocation that takes it. -/
theorem FreeBlocks.size_of_alloc (hl : FreeBlocks h (l₁ ++ a :: l₂)) {ptr : Word}
    (halloc : kmallocUserAlloc h size = some (h'.slistRemoveAfter (before 0 l₁) a, ptr)) :
  (kmallocUserAlloc h size).map (fun x => x.1.size a) = some (h'.size a)
  := by
  rw [halloc, Option.map_some, Heap.size_slistRemoveAfter hl.clear_before]

/-- The first block with the size is the one that the allocation takes, after the size is rounded. -/
theorem FreeBlocks.alloc_first (hl : FreeBlocks h (l₁ ++ a :: l₂))
    (hal : ∀ x ∈ l₁ ++ a :: l₂, (h.size x).toNat % 4 = 0) (hfit : size ≤ h.size a)
    (hsmall : ∀ x ∈ l₁, h.size x < size) :
  roundSize size ≤ h.size a
    ∧ kmallocUserAlloc h size
      = some ((if 0 < excess h a size ∧ excess h a size ≤ 65504
          then splitOff h a (roundSize size) else h).slistRemoveAfter (before 0 l₁) a,
        a + SIZEOF_USER_BLOCK)
  := by
  have hsize : size.toNat ≤ 65532 := by
    have hbounds := hl.bounds a (by simp)
    simp only [blockExtent] at hbounds
    bv_omega
  have hround : roundSize size ≤ h.size a := (roundSize_le_iff (hal a (by simp)) hsize).mpr hfit
  refine ⟨hround, hl.alloc_eq hround ?_⟩
  intro x hx
  apply BitVec.not_le.mp
  rw [roundSize_le_iff (hal x (by simp [hx])) hsize]
  apply BitVec.not_le.mpr (hsmall x hx)

/-- The size in the header tells whether the block was split, unless it has no bytes to spare. -/
theorem excess_of_size_eq (hsame : (if KMALLOC_MIN_BLOCK_SIZE.toNat ≤ excess h a size
        then splitOff h a (roundSize size) else h).size a
      = (if 0 < excess h a size ∧ excess h a size ≤ 65504
        then splitOff h a (roundSize size) else h).size a) :
  excess h a size = 0 ∨ 32 ≤ excess h a size ∧ excess h a size ≤ 65504
  := by
  have hmin : KMALLOC_MIN_BLOCK_SIZE.toNat = 32 := rfl
  have hne : excess h a size ≠ 0 → roundSize size ≠ h.size a := by
    intro hpos hround
    apply hpos
    rw [excess, hround, Nat.sub_self]
  split_ifs at hsame with hle htest htest
  · right
    exact ⟨by omega, htest.2⟩
  · rw [size_splitOff] at hsame
    cases hne (by omega) hsame
  · rw [size_splitOff] at hsame
    cases hne (by omega) hsame.symm
  · left
    omega

/-- The remainder of a block that is split at the threshold. -/
theorem remainder_of_excess (hround : roundSize size ≤ h.size a)
    (hle : KMALLOC_MIN_BLOCK_SIZE.toNat ≤ excess h a size) :
  (roundSize size).toNat + SIZEOF_USER_BLOCK.toNat
      + (h.size a - roundSize size - SIZEOF_USER_BLOCK).toNat = (h.size a).toNat
    ∧ KMALLOC_MIN_BLOCK_SIZE - SIZEOF_USER_BLOCK ≤ h.size a - roundSize size - SIZEOF_USER_BLOCK
  := by
  unfold excess KMALLOC_MIN_BLOCK_SIZE at hle
  unfold KMALLOC_MIN_BLOCK_SIZE SIZEOF_USER_BLOCK
  constructor
  · bv_omega
  · bv_omega

/-- An allocation splits at the threshold if and only if the first block with the size has no bytes
beyond the rounded size, or has from 32 to 65504 of them. -/
theorem splitsAtThreshold_iff (hl : FreeBlocks h l) (hal : ∀ a ∈ l, (h.size a).toNat % 4 = 0)
    {size : Word} (hfits : ∃ a ∈ l, size ≤ h.size a) :
  SplitsAtThreshold h l size
    ↔ ∀ a, l.find? (fun a => size ≤ h.size a) = some a →
      excess h a size = 0 ∨ 32 ≤ excess h a size ∧ excess h a size ≤ 65504
  := by
  obtain ⟨a, hfind⟩ : ∃ a, l.find? (fun a => size ≤ h.size a) = some a := by
    apply Option.isSome_iff_exists.mp
    simpa using hfits
  simp only [hfind, Option.some.injEq, forall_eq']
  obtain ⟨hfit, l₁, l₂, rfl, hsmall⟩ := List.find?_eq_some_iff_append.mp hfind
  rw [decide_eq_true_iff] at hfit
  have hsmall : ∀ x ∈ l₁, h.size x < size := by simpa using hsmall
  obtain ⟨hround, halloc⟩ := hl.alloc_first hal hfit hsmall
  constructor
  · rintro ⟨m₁, b, m₂, heq, hbfit, hbsmall, hthreshold⟩
    obtain rfl : b = a := by
      rw [heq, List.find?_append, List.find?_eq_none.mpr (by simpa using hbsmall)] at hfind
      simpa [hbfit] using hfind
    have hactual := hl.size_of_alloc halloc
    rw [heq] at hl
    apply excess_of_size_eq
    apply Option.some.inj
    rw [← hactual]
    split_ifs at hthreshold ⊢
    · exact (hl.size_of_alloc hthreshold.1).symm
    · exact (hl.size_of_alloc hthreshold).symm
  · intro hexcess
    have hmin : KMALLOC_MIN_BLOCK_SIZE.toNat = 32 := rfl
    refine ⟨l₁, a, l₂, rfl, hfit, hsmall, ?_⟩
    split_ifs with hle
    · refine ⟨?_, remainder_of_excess hround hle⟩
      rw [halloc, if_pos (by omega)]
    · rw [halloc, if_neg (by omega)]

/-- A request for 56 of the 60 bytes splits the block, which leaves a remainder of 0 bytes. -/
theorem splitsAtThreshold_56 :
  FreeBlocks heap64 [0x1000] ∧ heap64.size 0x1000 = 60 ∧ excess heap64 0x1000 56 = 4
    ∧ (∃ h', kmallocUserAlloc heap64 56 = some (h', 0x1004) ∧ h'.size 0x1000 = 56
      ∧ h'.freeBlocks = 0x10e4 ∧ h'.size 0x10e4 = 0)
    ∧ ¬ SplitsAtThreshold heap64 [0x1000] 56
  := by
  have halloc : (kmallocUserAlloc heap64 56).map
      (fun x => (x.2, x.1.size 0x1000, x.1.freeBlocks, x.1.size 0x10e4))
        = some (0x1004, 56, 0x10e4, 0) := by
    decide +kernel
  obtain ⟨⟨h', ptr⟩, heq, hx⟩ := Option.map_eq_some_iff.mp halloc
  simp only [Prod.mk.injEq] at hx
  obtain ⟨rfl, hsize, hfirst, hrest⟩ := hx
  have hexcess : excess heap64 0x1000 56 = 4 := by decide
  refine ⟨freeBlocks_heap64, by decide, hexcess, ⟨h', heq, hsize, hfirst, hrest⟩, ?_⟩
  rintro ⟨l₁, a, l₂, hl, -, -, hthreshold⟩
  obtain ⟨rfl, rfl⟩ : l₁ = [] ∧ 0x1000 = a := by
    have hlen := congrArg List.length hl
    simp only [List.length_append, List.length_cons, List.length_nil] at hlen
    obtain rfl : l₁ = [] := List.length_eq_zero_iff.mp (by omega)
    exact ⟨rfl, (List.cons.inj hl).1⟩
  rw [hexcess, if_neg (by decide), heq] at hthreshold
  obtain ⟨rfl, -⟩ := Prod.mk.inj (Option.some.inj hthreshold)
  exact absurd hsize (by decide)

/-- A request for 16 of the 60 bytes splits the block at the threshold. -/
theorem splitsAtThreshold_16 :
  FreeBlocks heap64 [0x1000] ∧ SplitsAtThreshold heap64 [0x1000] 16
  := by
  have hsize : heap64.size 0x1000 = 60 := by decide
  have hexcess : excess heap64 0x1000 16 = 44 := by decide
  refine ⟨freeBlocks_heap64, ?_⟩
  apply (splitsAtThreshold_iff freeBlocks_heap64 ?_ ?_).mpr
  · intro a ha
    obtain rfl := List.mem_singleton.mp (List.mem_of_find?_eq_some ha)
    omega
  · intro a ha
    obtain rfl := List.mem_singleton.mp ha
    rw [hsize]
    rfl
  · refine ⟨0x1000, List.mem_singleton_self _, ?_⟩
    rw [hsize]
    decide

end Mosnix.Kmalloc
