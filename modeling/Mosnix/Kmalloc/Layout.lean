import Mosnix.Kmalloc.FreeList
import Mosnix.Lib.Tiling

/-!
# The layout of the user space heap

A layout of the heap is a sequence of blocks, free or live, that follow one another from the
start of the memory to its end.  `Layout start stop h bs` says that the headers in the memory of
`h` have the sizes of the blocks `bs`, and that the free list of `h` consists of the free blocks
of `bs` in order.

The lemmas of this module are the local changes to a layout from which allocation and release
are put together: a free block is taken off the list, a free block is split in two, a live block
absorbs the free block after it, and a live block is put back on the list or absorbed by the free
block before it.
-/

namespace Mosnix.Kmalloc

open LinkedList Tiling

/-- An address that is a multiple of four. -/
def Aligned (a : Word) : Prop :=
  a.toNat % 4 = 0

/-- Headers at aligned addresses do not overlap. -/
theorem Aligned.clear {a b : Word} (ha : Aligned a) (hb : Aligned b) : Clear a b := by
  unfold Aligned at ha hb
  by_cases hab : b = a
  · exact Or.inl hab
  · right
    constructor
    · bv_omega
    · bv_omega

theorem aligned_before {l : List Word} (hal : ∀ y ∈ l, Aligned y) : Aligned (before 0 l) := by
  obtain rfl | ⟨l, p, rfl⟩ := List.eq_nil_or_concat l
  · rfl
  · rw [List.concat_eq_append, before_append]
    apply hal
    simp

variable {h : Heap}

/-! ### Blocks -/

/-- A block of the heap: the address of its header, its size, and whether it is free. -/
structure Block where
  addr : Word
  size : Word
  free : Bool

/-- The address after the block. -/
def Block.stop (b : Block) : ℕ :=
  b.addr.toNat + 4 + b.size.toNat

/-- The bytes of the block, with its header. -/
def Block.extent (b : Block) : ℕ × ℕ :=
  (b.addr.toNat, b.stop)

/-- The addresses of the free blocks. -/
def freeAddrs (bs : List Block) : List Word :=
  (bs.filter (·.free)).map (·.addr)

/-- The addresses of the live blocks. -/
def liveAddrs (bs : List Block) : List Word :=
  (bs.filter (! ·.free)).map (·.addr)

@[simp]
theorem freeAddrs_append (bs bs' : List Block) :
  freeAddrs (bs ++ bs') = freeAddrs bs ++ freeAddrs bs'
  := by
  simp [freeAddrs]

theorem freeAddrs_cons_free {b : Block} (hb : b.free = true) (bs : List Block) :
  freeAddrs (b :: bs) = b.addr :: freeAddrs bs
  := by
  simp [freeAddrs, hb]

theorem freeAddrs_cons_live {b : Block} (hb : b.free = false) (bs : List Block) :
  freeAddrs (b :: bs) = freeAddrs bs
  := by
  simp [freeAddrs, hb]

@[simp]
theorem liveAddrs_append (bs bs' : List Block) :
  liveAddrs (bs ++ bs') = liveAddrs bs ++ liveAddrs bs'
  := by
  simp [liveAddrs]

theorem liveAddrs_cons_free {b : Block} (hb : b.free = true) (bs : List Block) :
  liveAddrs (b :: bs) = liveAddrs bs
  := by
  simp [liveAddrs, hb]

theorem liveAddrs_cons_live {b : Block} (hb : b.free = false) (bs : List Block) :
  liveAddrs (b :: bs) = b.addr :: liveAddrs bs
  := by
  simp [liveAddrs, hb]

/-- A free address is that of a free block. -/
theorem exists_of_mem_freeAddrs {bs : List Block} {a : Word} (ha : a ∈ freeAddrs bs) :
  ∃ b ∈ bs, b.free = true ∧ b.addr = a
  := by
  obtain ⟨b, hb, rfl⟩ := List.mem_map.mp ha
  rw [List.mem_filter] at hb
  exact ⟨b, hb.1, hb.2, rfl⟩

/-- The blocks `bs` follow one another from `start` to `stop`, with the headers and the free list
of `h`. -/
structure Layout (start stop : Word) (h : Heap) (bs : List Block) : Prop where
  consecutive : Consecutive start.toNat (bs.map Block.extent) stop.toNat
  aligned : ∀ b ∈ bs, Aligned b.addr
  size_aligned : ∀ b ∈ bs, b.size.toNat % 4 = 0
  size_eq : ∀ b ∈ bs, h.size b.addr = b.size
  list : FreeList h (freeAddrs bs)

namespace Layout

variable {start stop : Word} {bs L R : List Block} {b c : Block}

/-- The free blocks are aligned. -/
theorem freeAddrs_aligned (hb : Layout start stop h bs) : ∀ a ∈ freeAddrs bs, Aligned a := by
  intro a ha
  obtain ⟨b, hbs, -, rfl⟩ := exists_of_mem_freeAddrs ha
  apply hb.aligned b hbs

/-- A block lies between the ends of the memory. -/
theorem bounds (hb : Layout start stop h bs) (hbs : b ∈ bs) :
  start.toNat ≤ b.addr.toNat ∧ b.stop ≤ stop.toNat
  := by
  have hbound := hb.consecutive.bounds (List.mem_map_of_mem hbs)
  exact ⟨hbound.1, hbound.2.2⟩

variable (hb : Layout start stop h (L ++ b :: R))

include hb

/-- The blocks before a block end before it, and the blocks after it start after it. -/
theorem ordered :
  (∀ x ∈ L, x.stop ≤ b.addr.toNat) ∧ ∀ x ∈ R, b.stop ≤ x.addr.toNat
  := by
  have hpair := hb.consecutive.pairwise
  rw [List.map_append, List.map_cons, List.pairwise_append, List.pairwise_cons] at hpair
  constructor
  · intro x hx
    apply hpair.2.2 x.extent (List.mem_map_of_mem hx) b.extent (by simp)
  · intro x hx
    apply hpair.2.1.1 x.extent (List.mem_map_of_mem hx)

/-- The other blocks are at other addresses. -/
theorem addr_ne {x : Block} (hx : x ∈ L ∨ x ∈ R) :
  x.addr ≠ b.addr
  := by
  obtain ⟨hL, hR⟩ := hb.ordered
  intro heq
  cases hx with
  | inl hx =>
      have hle := hL x hx
      rw [Block.stop, heq] at hle
      omega
  | inr hx =>
      have hle := hR x hx
      rw [Block.stop, heq] at hle
      omega

/-- No block starts inside a block. -/
theorem addr_ne_of_inside {a : Word} (hlo : b.addr.toNat < a.toNat) (hhi : a.toNat < b.stop) :
  ∀ x ∈ L ++ b :: R, x.addr ≠ a
  := by
  obtain ⟨hL, hR⟩ := hb.ordered
  rintro x hx rfl
  simp only [List.mem_append, List.mem_cons] at hx
  obtain hx | rfl | hx := hx
  · have hle := hL x hx
    unfold Block.stop at hle
    omega
  · omega
  · have hle := hR x hx
    omega

/-- The address of a block is not that of a free block among the others. -/
theorem notMem_freeAddrs :
  b.addr ∉ freeAddrs (L ++ R)
  := by
  intro hmem
  obtain ⟨x, hx, -, heq⟩ := exists_of_mem_freeAddrs hmem
  apply hb.addr_ne (List.mem_append.mp hx) heq

/-! ### Changes to a layout -/

omit hb in
theorem aligned_before_freeAddrs (hb : Layout start stop h (L ++ R)) :
  Aligned (before 0 (freeAddrs L))
  := by
  apply aligned_before
  intro y hy
  apply hb.freeAddrs_aligned
  simp [hy]

/-- A free block is taken off the free list. -/
theorem take (hfree : b.free = true) :
  Layout start stop (h.slistRemoveAfter (before 0 (freeAddrs L)) b.addr)
    (L ++ { b with free := false } :: R)
  := by
  have hal := hb.freeAddrs_aligned
  have hlist := hb.list
  rw [freeAddrs_append, freeAddrs_cons_free hfree] at hal hlist
  have hsize : ∀ x ∈ L ++ b :: R,
      (h.slistRemoveAfter (before 0 (freeAddrs L)) b.addr).size x.addr = x.size := by
    intro x hx
    rw [Heap.size_slistRemoveAfter fun _ => hb.aligned_before_freeAddrs.clear (hb.aligned x hx),
      hb.size_eq x hx]
  constructor
  · simpa [Block.extent, Block.stop] using hb.consecutive
  · simpa only [List.forall_mem_append, List.forall_mem_cons] using hb.aligned
  · simpa only [List.forall_mem_append, List.forall_mem_cons] using hb.size_aligned
  · simpa only [List.forall_mem_append, List.forall_mem_cons] using hsize
  · rw [freeAddrs_append, freeAddrs_cons_live rfl]
    apply hlist.remove fun a ha y hy => (hal a ha).clear (hal y hy)

/-- A live block is put on the free list. -/
theorem put (hlive : b.free = false) (h0 : b.addr ≠ 0) :
  Layout start stop
    (if before 0 (freeAddrs L) ≠ 0 then h.slistInsertAfter (before 0 (freeAddrs L)) b.addr
      else h.slistInsertHead b.addr)
    (L ++ { b with free := true } :: R)
  := by
  have hal := hb.freeAddrs_aligned
  have hlist := hb.list
  have hbal : Aligned b.addr := hb.aligned b (by simp)
  have hnotMem := hb.notMem_freeAddrs
  rw [freeAddrs_append, freeAddrs_cons_live hlive] at hal hlist
  rw [freeAddrs_append] at hnotMem
  have hsize : ∀ x ∈ L ++ b :: R,
      (if before 0 (freeAddrs L) ≠ 0 then h.slistInsertAfter (before 0 (freeAddrs L)) b.addr
        else h.slistInsertHead b.addr).size x.addr = x.size := by
    intro x hx
    rw [← hb.size_eq x hx]
    split_ifs
    · apply Heap.size_slistInsertAfter (hb.aligned_before_freeAddrs.clear (hb.aligned x hx))
        (hbal.clear (hb.aligned x hx))
    · apply Heap.size_slistInsertHead (hbal.clear (hb.aligned x hx))
  constructor
  · simpa [Block.extent, Block.stop] using hb.consecutive
  · simpa only [List.forall_mem_append, List.forall_mem_cons] using hb.aligned
  · simpa only [List.forall_mem_append, List.forall_mem_cons] using hb.size_aligned
  · simpa only [List.forall_mem_append, List.forall_mem_cons] using hsize
  · rw [freeAddrs_append, freeAddrs_cons_free rfl]
    have hal' : ∀ y ∈ freeAddrs L ++ b.addr :: freeAddrs R, Aligned y := by
      rw [List.forall_mem_append] at hal
      rw [List.forall_mem_append, List.forall_mem_cons]
      exact ⟨hal.1, hbal, hal.2⟩
    apply hlist.insert h0 hnotMem fun a ha y hy => (hal' a ha).clear (hal' y hy)

omit hb in
/-- Consecutive blocks are adjacent. -/
theorem adjacent (hb : Layout start stop h (L ++ b :: c :: R)) : b.stop = c.addr.toNat := by
  have hcons := hb.consecutive
  rw [List.map_append, List.map_cons, List.map_cons] at hcons
  obtain ⟨-, -, -, -, hadj, -⟩ := consecutive_append.mp hcons
  exact hadj

omit hb in
/-- The size of two combined blocks does not overflow. -/
theorem toNat_combined_size (hb : Layout start stop h (L ++ b :: c :: R)) :
  (b.size + 4 + c.size).toNat = b.size.toNat + 4 + c.size.toNat
  := by
  have hadj := hb.adjacent
  have hstop := (hb.bounds (b := c) (by simp)).2
  have hlt := stop.isLt
  unfold Block.stop at hadj hstop
  bv_omega

omit hb in
/-- A block is combined with the block after it, which is not on the free list. -/
theorem combine (hb : Layout start stop h (L ++ b :: c :: R)) (hc : c.free = false) :
  Layout start stop (h.combine b.addr c.addr)
    (L ++ { b with size := b.size + 4 + c.size } :: R)
  := by
  have hbal : Aligned b.addr := hb.aligned b (by simp)
  have hcal : Aligned c.addr := hb.aligned c (by simp)
  have hne : c.addr ≠ b.addr := hb.addr_ne (Or.inr (by simp))
  have hsum := hb.toNat_combined_size
  have hextent : Block.extent { b with size := b.size + 4 + c.size } = (b.extent.1, c.extent.2) := by
    have hadj := hb.adjacent
    simp only [Block.extent, Block.stop, hsum, Prod.mk.injEq, true_and] at hadj ⊢
    omega
  have hother : ∀ x ∈ L ++ b :: c :: R, x.addr ≠ b.addr →
      (h.combine b.addr c.addr).size x.addr = x.size := by
    intro x hx hxb
    rw [Heap.size_combine (hbal.clear hcal) hne (hbal.clear (hb.aligned x hx)), if_neg hxb, hb.size_eq x hx]
  have haligned := hb.aligned
  have hsizeAligned := hb.size_aligned
  simp only [List.forall_mem_append, List.forall_mem_cons] at haligned hsizeAligned
  constructor
  · rw [List.map_append, List.map_cons, hextent]
    apply Consecutive.merge
    simpa using hb.consecutive
  · simp only [List.forall_mem_append, List.forall_mem_cons]
    exact ⟨haligned.1, haligned.2.1, haligned.2.2.2⟩
  · simp only [List.forall_mem_append, List.forall_mem_cons]
    refine ⟨hsizeAligned.1, ?_, hsizeAligned.2.2.2⟩
    rw [hsum]
    omega
  · simp only [List.forall_mem_append, List.forall_mem_cons]
    and_intros
    · intro x hx
      apply hother x (by simp [hx]) (hb.addr_ne (Or.inl hx))
    · rw [Heap.size_combine (hbal.clear hcal) hne (Clear.refl _), if_pos rfl, hb.size_eq b (by simp),
        hb.size_eq c (by simp)]
    · intro x hx
      apply hother x (by simp [hx]) (hb.addr_ne (Or.inr (by simp [hx])))
  · have hfree : freeAddrs (L ++ { b with size := b.size + 4 + c.size } :: R)
        = freeAddrs (L ++ b :: c :: R) := by
      simp [freeAddrs, hc, List.filter_cons]
      split_ifs
      · simp
      · rfl
    rw [hfree]
    apply hb.list.combine fun y hy => hbal.clear (hb.freeAddrs_aligned y hy)

/-- A block that is not empty has room for the header of a block after its own header. -/
theorem four_le_size (hsize : b.size ≠ 0) :
  4 ≤ b.size.toNat
  := by
  have hsizeAl : b.size.toNat % 4 = 0 := hb.size_aligned b (by simp)
  bv_omega

/-- The address after the header of a block. -/
theorem toNat_addr_add_four (hsize : b.size ≠ 0) :
  (b.addr + 4).toNat = b.addr.toNat + 4
  := by
  have hpos := hb.four_le_size hsize
  have hstop := (hb.bounds (b := b) (by simp)).2
  have hlt := stop.isLt
  unfold Block.stop at hstop
  bv_omega

theorem aligned_addr_add_four (hsize : b.size ≠ 0) :
  Aligned (b.addr + 4)
  := by
  have hbal : Aligned b.addr := hb.aligned b (by simp)
  unfold Aligned at hbal ⊢
  rw [hb.toNat_addr_add_four hsize]
  omega

/-- No block starts four bytes into another one. -/
theorem addr_ne_addr_add_four (hsize : b.size ≠ 0) :
  ∀ x ∈ L ++ b :: R, x.addr ≠ b.addr + 4
  := by
  have hpos := hb.four_le_size hsize
  have haddr := hb.toNat_addr_add_four hsize
  apply hb.addr_ne_of_inside
  · omega
  · unfold Block.stop
    omega

/-- A split for a size of zero cuts the block in two right after its header, and puts the second part
on the free list after the first. -/
theorem splitOff_zero :
  splitOff h b.addr 0
    = ((h.setSize (b.addr + 4) (b.size - 4)).slistInsertAfter b.addr (b.addr + 4)).setSize b.addr 0
  := by
  simp [splitOff, splitAddr, SIZEOF_USER_BLOCK, hb.size_eq b (by simp)]

/-- The sizes of the other blocks do not change when a block is cut in two. -/
theorem size_splitOff_zero (hsize : b.size ≠ 0) {x : Block} (hx : x ∈ L ++ b :: R)
    (hxb : x.addr ≠ b.addr) :
  (splitOff h b.addr 0).size x.addr = x.size
  := by
  have hbal : Aligned b.addr := hb.aligned b (by simp)
  have hal' := hb.aligned_addr_add_four hsize
  have hxal := hb.aligned x hx
  rw [hb.splitOff_zero, Heap.size_setSize (hbal.clear hxal), if_neg hxb,
    Heap.size_slistInsertAfter (hbal.clear hxal) (hal'.clear hxal),
    Heap.size_setSize (hal'.clear hxal), if_neg (hb.addr_ne_addr_add_four hsize x hx),
    hb.size_eq x hx]

/-- The second part of a free block that is cut in two is on the free list after the first. -/
theorem freeList_splitOff_zero (hfree : b.free = true) (hsize : b.size ≠ 0) :
  FreeList (splitOff h b.addr 0) (freeAddrs L ++ [b.addr] ++ (b.addr + 4) :: freeAddrs R)
  := by
  have hbal : Aligned b.addr := hb.aligned b (by simp)
  have hal' := hb.aligned_addr_add_four hsize
  have haddr := hb.toNat_addr_add_four hsize
  have hfreeAddrs : freeAddrs (L ++ b :: R) = (freeAddrs L ++ [b.addr]) ++ freeAddrs R := by
    rw [freeAddrs_append, freeAddrs_cons_free hfree, List.append_cons]
  have hal := hb.freeAddrs_aligned
  have hlist := hb.list.setSize (v := b.size - 4) fun y hy => hal'.clear (hal y hy)
  have hnotMem : b.addr + 4 ∉ freeAddrs (L ++ b :: R) := by
    intro hmem
    obtain ⟨x, hx, -, heq⟩ := exists_of_mem_freeAddrs hmem
    apply hb.addr_ne_addr_add_four hsize x hx heq
  have hnonzero : b.addr ≠ 0 := by
    intro heq
    apply hb.list.null_notMem
    rw [hfreeAddrs, ← heq]
    simp
  rw [hfreeAddrs] at hlist hal hnotMem
  have halNew : ∀ y ∈ freeAddrs L ++ [b.addr] ++ (b.addr + 4) :: freeAddrs R, Aligned y := by
    rw [List.forall_mem_append] at hal
    rw [List.forall_mem_append, List.forall_mem_cons]
    exact ⟨hal.1, hal', hal.2⟩
  have hins := hlist.insert (x := b.addr + 4) (by bv_omega) hnotMem
    fun a ha y hy => (halNew a ha).clear (halNew y hy)
  rw [before_append, if_pos hnonzero] at hins
  rw [hb.splitOff_zero]
  apply hins.setSize fun y hy => hbal.clear (halNew y hy)

/-- A free block is cut in two right after its header. -/
theorem split (hfree : b.free = true) (hsize : b.size ≠ 0) :
  Layout start stop (splitOff h b.addr 0)
    (L ++ { b with size := 0 } :: { addr := b.addr + 4, size := b.size - 4, free := true } :: R)
  := by
  have hbal : Aligned b.addr := hb.aligned b (by simp)
  have hal' := hb.aligned_addr_add_four hsize
  have hpos := hb.four_le_size hsize
  have haddr := hb.toNat_addr_add_four hsize
  have hsub : (b.size - 4).toNat = b.size.toNat - 4 := by bv_omega
  have haligned := hb.aligned
  have hsizeAligned := hb.size_aligned
  simp only [List.forall_mem_append, List.forall_mem_cons] at haligned hsizeAligned
  constructor
  · have hcons := hb.consecutive
    rw [List.map_append, List.map_cons] at hcons
    have hcut := hcons.split (x := b.addr.toNat + 4) (by simp [Block.extent])
      (by simp [Block.extent, Block.stop]; omega)
    convert hcut using 2
    simp [Block.extent, Block.stop]
    omega
  · simp only [List.forall_mem_append, List.forall_mem_cons]
    exact ⟨haligned.1, hbal, hal', haligned.2.2⟩
  · simp only [List.forall_mem_append, List.forall_mem_cons]
    refine ⟨hsizeAligned.1, rfl, ?_, hsizeAligned.2.2⟩
    rw [hsub]
    omega
  · simp only [List.forall_mem_append, List.forall_mem_cons]
    and_intros
    · intro x hx
      apply hb.size_splitOff_zero hsize (by simp [hx]) (hb.addr_ne (Or.inl hx))
    · apply size_splitOff
    · rw [hb.splitOff_zero, Heap.size_setSize (hbal.clear hal'), if_neg (by bv_omega),
        Heap.size_slistInsertAfter (hbal.clear hal') (Clear.refl _),
        Heap.size_setSize (Clear.refl _), if_pos rfl]
    · intro x hx
      apply hb.size_splitOff_zero hsize (by simp [hx]) (hb.addr_ne (Or.inr hx))
  · have hnew : freeAddrs (L ++ { b with size := 0 }
          :: { addr := b.addr + 4, size := b.size - 4, free := true } :: R)
        = freeAddrs L ++ [b.addr] ++ (b.addr + 4) :: freeAddrs R := by
      simp [freeAddrs, hfree]
    rw [hnew]
    apply hb.freeList_splitOff_zero hfree hsize

end Layout

end Mosnix.Kmalloc
