import Mosnix.Kmalloc.Layout

/-!
# The user space heap is tiled

`Tiled start stop s` says that the blocks that are live and the blocks on the free list, each with
its header, tile the memory from `start` to `stop`.

The code that splits a block computes the address of the remainder in units of headers instead of
bytes, and it splits whenever the block is larger than the request by at most 65504 bytes.  So an
allocation keeps the tiling only if its block is not split or its rounded size is zero
(`AllocOk`).  In every run whose allocations are of this kind the heap is tiled, and any other
allocation destroys the tiling (`tiled_of_reachable`).
-/

namespace Mosnix.Kmalloc

open LinkedList Tiling

/-- The live blocks and the blocks on the free list tile the memory from `start` to `stop`. -/
def Tiled (start stop : Word) (s : State) : Prop :=
  ∃ free, Path s.heap.next s.heap.freeBlocks free 0 ∧ 0 ∉ free
    ∧ Tiles start.toNat stop.toNat
        ((s.live.map (· - SIZEOF_USER_BLOCK) ++ free).map (blockExtent s.heap))

/-- The first block on the free list that has at least `size` bytes. -/
def FirstFit (h : Heap) (size : Word) (a : Word) : Prop :=
  ∃ l, FreeList h l ∧ l.find? (fun b => size ≤ h.size b) = some a

/-- The block that is allocated is not split, or its rounded size is zero. -/
def AllocOk (h : Heap) (size : Word) : Prop :=
  ∀ a, FirstFit h (roundSize size) a →
    h.size a = roundSize size ∨ roundSize size = 0
      ∨ (h.size a).toNat > (roundSize size).toNat + 65504

/-- The condition on an action under which it keeps the tiling. -/
def ActionOk (s : State) : Action → Prop
  | .alloc size => AllocOk s.heap size
  | .free _ => True
  | .store _ _ => True

/-! ### The loops over the free list -/

variable {h h' : Heap} {start stop : Word} {bs L R : List Block} {b c : Block}

variable {size block a : Word} {s : State}

namespace Layout

/-- The size in the header of a free block among the first. -/
theorem size_lt_of_mem_freeAddrs (hb : Layout start stop h (L ++ R))
    (hL : ∀ x ∈ L, x.free = true → x.size < size) :
  ∀ a ∈ freeAddrs L, h.size a < size
  := by
  intro a ha
  obtain ⟨x, hx, hfree, rfl⟩ := exists_of_mem_freeAddrs ha
  rw [hb.size_eq x (by simp [hx])]
  apply hL x hx hfree

/-! ### Allocation -/

/-- Without a free block that is large enough, the loop returns zero. -/
theorem allocLoop_eq_zero (hb : Layout start stop h bs)
    (hbs : ∀ x ∈ bs, x.free = true → x.size < size) :
  allocLoop size h loopBound 0 h.freeBlocks = some (h, 0)
  := by
  have hb' : Layout start stop h (bs ++ []) := by rwa [List.append_nil]
  apply hb.list.allocLoop_eq_zero (hb'.size_lt_of_mem_freeAddrs hbs)

/-- The loop stops at the first free block that is large enough. -/
theorem allocLoop_eq (hb : Layout start stop h (L ++ b :: R)) (hfree : b.free = true)
    (hsize : size ≤ b.size) (hL : ∀ x ∈ L, x.free = true → x.size < size) :
  allocLoop size h loopBound 0 h.freeBlocks
    = some ((splitBlock h b.addr size).slistRemoveAfter (before 0 (freeAddrs L)) b.addr,
        b.addr + SIZEOF_USER_BLOCK)
  := by
  have hlist := hb.list
  rw [freeAddrs_append, freeAddrs_cons_free hfree] at hlist
  apply hlist.allocLoop_eq _ (hb.size_lt_of_mem_freeAddrs hL)
  rwa [hb.size_eq b (by simp)]

/-- The block at which the loop stops is the first that fits. -/
theorem firstFit (hb : Layout start stop h (L ++ b :: R)) (hfree : b.free = true)
    (hsize : size ≤ b.size) (hL : ∀ x ∈ L, x.free = true → x.size < size) :
  FirstFit h size b.addr
  := by
  use freeAddrs (L ++ b :: R), hb.list
  rw [freeAddrs_append, freeAddrs_cons_free hfree, List.find?_append]
  have hnone : (freeAddrs L).find? (fun b => size ≤ h.size b) = none := by
    rw [List.find?_eq_none]
    intro a ha
    simpa using hb.size_lt_of_mem_freeAddrs hL a ha
  rw [hnone, Option.none_or, List.find?_cons_of_pos]
  rw [hb.size_eq b (by simp)]
  simpa using hsize

/-- A block of a layout is free and fits, or all free blocks are too small. -/
theorem exists_fit (bs : List Block) (size : Word) :
  (∀ x ∈ bs, x.free = true → x.size < size)
    ∨ ∃ L b R, bs = L ++ b :: R ∧ b.free = true ∧ size ≤ b.size
        ∧ ∀ x ∈ L, x.free = true → x.size < size
  := by
  cases hfind : bs.find? (fun b => b.free && decide (size ≤ b.size)) with
  | none =>
      left
      intro x hx hfree
      have hnot := List.find?_eq_none.mp hfind x hx
      simpa [hfree] using hnot
  | some b =>
      right
      obtain ⟨hb, L, R, rfl, hL⟩ := List.find?_eq_some_iff_append.mp hfind
      rw [Bool.and_eq_true, decide_eq_true_iff] at hb
      refine ⟨L, b, R, rfl, hb.1, hb.2, ?_⟩
      intro x hx hfree
      simpa [hfree] using hL x hx

end Layout

/-- A block that is allocated whole. -/
theorem splitBlock_eq_self (hok : h.size block = size ∨ (h.size block).toNat > size.toNat + 65504) :
  splitBlock h block size = h
  := by
  unfold splitBlock KMALLOC_MIN_BLOCK_SIZE
  rw [if_neg]
  cases hok with
  | inl heq =>
      rw [heq, BitVec.sub_self]
      decide
  | inr hgt =>
      have hlt := (h.size block).isLt
      bv_omega

/-- A block that is split for a rounded size of zero. -/
theorem splitBlock_zero (hne : h.size block ≠ 0) (hle : (h.size block).toNat ≤ 65504) :
  splitBlock h block 0 = splitOff h block 0
  := by
  apply splitBlock_eq
  unfold KMALLOC_MIN_BLOCK_SIZE
  bv_omega

/-- A block that is allocated becomes live. -/
theorem liveAddrs_perm {b' : Block} (hfree : b.free = true) (hlive : b'.free = false)
    (haddr : b'.addr = b.addr) :
  (liveAddrs (L ++ b' :: R)).Perm (b.addr :: liveAddrs (L ++ b :: R))
  := by
  rw [liveAddrs_append, liveAddrs_cons_live hlive, haddr, liveAddrs_append,
    liveAddrs_cons_free hfree]
  apply List.perm_middle

namespace Layout

theorem addr_add_ne_zero (hb : Layout start stop h bs) (hbs : b ∈ bs) : b.addr + 4 ≠ 0 := by
  have hstop := (hb.bounds hbs).2
  have hlt := stop.isLt
  unfold Block.stop at hstop
  bv_omega

/-- Taking the first free block that fits. -/
theorem alloc_fit (hb : Layout start stop h (L ++ b :: R)) (hfree : b.free = true)
    (hsize : size ≤ b.size) (hok : b.size = size ∨ size = 0 ∨ b.size.toNat > size.toNat + 65504) :
  ∃ bs', Layout start stop
      ((splitBlock h b.addr size).slistRemoveAfter (before 0 (freeAddrs L)) b.addr) bs'
    ∧ (liveAddrs bs').Perm (b.addr :: liveAddrs (L ++ b :: R))
  := by
  have hbsize := hb.size_eq b (by simp)
  by_cases hwhole : b.size = size ∨ b.size.toNat > size.toNat + 65504
  · have hself : splitBlock h b.addr size = h :=
      splitBlock_eq_self (by rwa [hbsize])
    rw [hself]
    exact ⟨_, hb.take hfree, liveAddrs_perm hfree rfl rfl⟩
  · have hzero : size = 0 := by tauto
    subst hzero
    rw [not_or] at hwhole
    have hle : b.size.toNat ≤ 65504 := by
      have hnot := hwhole.2
      simp at hnot
      exact hnot
    rw [splitBlock_zero (by rw [hbsize]; exact hwhole.1) (by rwa [hbsize])]
    refine ⟨_, (hb.split hfree hwhole.1).take hfree, ?_⟩
    have hR : liveAddrs ({ addr := b.addr + 4, size := b.size - 4, free := true } :: R)
        = liveAddrs R := liveAddrs_cons_free rfl R
    rw [liveAddrs_append, liveAddrs_cons_live rfl, hR, liveAddrs_append, liveAddrs_cons_free hfree]
    apply List.perm_middle

/-- An allocation returns; with the condition on its size it leads to a layout in which one more
block is live, or returns zero and leaves the heap as it is. -/
theorem alloc (hb : Layout start stop h bs) (size : Word) :
  ∃ h' ptr, kmallocUserAlloc h size = some (h', ptr)
    ∧ (AllocOk h size → (ptr = 0 ∧ h' = h) ∨ ∃ bs' a, Layout start stop h' bs' ∧ ptr = a + 4
        ∧ ptr ≠ 0 ∧ (liveAddrs bs').Perm (a :: liveAddrs bs))
  := by
  obtain hsmall | ⟨L, b, R, rfl, hfree, hsize, hL⟩ := exists_fit bs (roundSize size)
  · use h, 0, hb.allocLoop_eq_zero hsmall
    intro _
    left
    exact ⟨rfl, rfl⟩
  · refine ⟨_, _, hb.allocLoop_eq hfree hsize hL, ?_⟩
    intro hok
    right
    have hok' := hok b.addr (hb.firstFit hfree hsize hL)
    rw [hb.size_eq b (by simp)] at hok'
    obtain ⟨bs', hbs', hperm⟩ := hb.alloc_fit hfree hsize hok'
    exact ⟨bs', b.addr, hbs', rfl, hb.addr_add_ne_zero (by simp), hperm⟩

/-! ### Release -/

theorem toNat_stop (hb : Layout start stop h bs) (hbs : b ∈ bs) :
  (b.addr + SIZEOF_USER_BLOCK + h.size b.addr).toNat = b.stop
  := by
  have hstop := (hb.bounds hbs).2
  have hlt := stop.isLt
  rw [hb.size_eq b hbs]
  unfold Block.stop SIZEOF_USER_BLOCK at *
  bv_omega

end Layout

/-- The first free block of a list of blocks. -/
theorem exists_first_free (bs : List Block) :
  freeAddrs bs = [] ∨ ∃ L b R, bs = L ++ b :: R ∧ b.free = true ∧ freeAddrs L = []
  := by
  induction bs with
  | nil =>
      left
      rfl
  | cons x bs ih =>
      cases hx : x.free with
      | true =>
          right
          exact ⟨[], x, bs, rfl, hx, rfl⟩
      | false =>
          rw [freeAddrs_cons_live hx]
          obtain hnil | ⟨L, b, R, rfl, hb, hL⟩ := ih
          · left
            exact hnil
          · right
            exact ⟨x :: L, b, R, rfl, hb, by rwa [freeAddrs_cons_live hx]⟩

/-- The last free block of a list of blocks. -/
theorem exists_last_free (bs : List Block) :
  freeAddrs bs = [] ∨ ∃ L b R, bs = L ++ b :: R ∧ b.free = true ∧ freeAddrs R = []
  := by
  induction bs with
  | nil =>
      left
      rfl
  | cons x bs ih =>
      obtain hnil | ⟨L, b, R, rfl, hb, hR⟩ := ih
      · cases hx : x.free with
        | true =>
            right
            exact ⟨[], x, bs, rfl, hx, hnil⟩
        | false =>
            left
            rwa [freeAddrs_cons_live hx]
      · right
        exact ⟨x :: L, b, R, rfl, hb, hR⟩

namespace Layout

variable (hb : Layout start stop h (L ++ b :: R))

include hb

/-- The loop of the release reaches the free blocks after the block. -/
theorem freeLoop_eq (hlive : b.free = false) :
  ∃ fuel c, Path h.next c (freeAddrs R) 0
    ∧ freeLoop b.addr h loopBound 0 h.freeBlocks
      = freeLoop b.addr h (fuel + 1) (before 0 (freeAddrs L)) c
  := by
  have hlist := hb.list
  rw [freeAddrs_append, freeAddrs_cons_live hlive] at hlist
  apply hlist.freeLoop_eq
  intro a ha
  obtain ⟨x, hx, -, rfl⟩ := exists_of_mem_freeAddrs ha
  have hle := hb.ordered.1 x hx
  unfold Block.stop at hle
  bv_omega

/-- After the loop the block includes a free block right after it. -/
theorem free_combine_next (hlive : b.free = false) :
  ∃ h' size' R', freeLoop b.addr h loopBound 0 h.freeBlocks = some (h', before 0 (freeAddrs L))
    ∧ Layout start stop h' (L ++ { b with size := size' } :: R') ∧ liveAddrs R' = liveAddrs R
  := by
  obtain ⟨fuel, c, hpath, hloop⟩ := hb.freeLoop_eq hlive
  rw [hloop]
  obtain hnil | ⟨R₁, x, R₂, rfl, hfree, hR₁⟩ := exists_first_free R
  · rw [hnil, path_nil] at hpath
    subst hpath
    refine ⟨h, b.size, R, ?_, hb, rfl⟩
    rw [freeLoop, if_pos rfl]
  · rw [freeAddrs_append, hR₁, freeAddrs_cons_free hfree, List.nil_append] at hpath
    obtain ⟨rfl, -⟩ := hpath
    have hx0 : x.addr ≠ 0 := by
      apply hb.list.ne_zero
      simp [freeAddrs_cons_live hlive, freeAddrs_cons_free hfree]
    have hle := hb.ordered.2 x (by simp)
    have hgt : x.addr > b.addr := by
      unfold Block.stop at hle
      bv_omega
    have htemp := hb.toNat_stop (b := b) (by simp)
    simp only [freeLoop, if_neg hx0, if_pos hgt]
    cases R₁ with
    | nil =>
        have hadj : b.stop = x.addr.toNat := hb.adjacent
        rw [if_pos (BitVec.eq_of_toNat_eq (htemp.trans hadj))]
        have hbefore : freeAddrs (L ++ [b]) = freeAddrs L := by simp [freeAddrs, hlive]
        have htake : Layout start stop (h.slistRemoveAfter (before 0 (freeAddrs L)) x.addr)
            (L ++ b :: { x with free := false } :: R₂) := by
          rw [List.append_cons, ← hbefore]
          apply take _ hfree
          simpa using hb
        exact ⟨_, _, R₂, rfl, htake.combine rfl, (liveAddrs_cons_free hfree R₂).symm⟩
    | cons y R₁ =>
        have hadj : b.stop = y.addr.toNat := hb.adjacent
        have hy : y.stop ≤ x.addr.toNat := by
          have hb' : Layout start stop h ((L ++ [b]) ++ y :: (R₁ ++ x :: R₂)) := by simpa using hb
          apply hb'.ordered.2 x
          simp
        have hne : ¬ b.addr + SIZEOF_USER_BLOCK + h.size b.addr = x.addr := by
          intro heq
          rw [heq] at htemp
          unfold Block.stop at hy
          omega
        rw [if_neg hne]
        exact ⟨h, b.size, _, rfl, hb, rfl⟩

/-- The block goes back into the free list, or into a free block right before it. -/
theorem free_insert (hlive : b.free = false) (h0 : b.addr ≠ 0) :
  ∃ bs', Layout start stop (insertFreeBlock h (before 0 (freeAddrs L)) b.addr) bs'
    ∧ liveAddrs bs' = liveAddrs (L ++ R)
  := by
  have hput := hb.put hlive h0
  have hputLive : liveAddrs (L ++ { b with free := true } :: R) = liveAddrs (L ++ R) := by
    rw [liveAddrs_append, liveAddrs_cons_free rfl, liveAddrs_append]
  obtain hnil | ⟨L₁, p, L₂, rfl, hfree, hL₂⟩ := exists_last_free L
  · rw [hnil] at hput ⊢
    rw [before_nil, if_neg (by simp)] at hput
    refine ⟨_, ?_, hputLive⟩
    rw [insertFreeBlock, before_nil, if_neg (by simp)]
    exact hput
  · have hprev : before 0 (freeAddrs (L₁ ++ p :: L₂)) = p.addr := by
      rw [freeAddrs_append, freeAddrs_cons_free hfree, hL₂, before_append]
    have hp0 : p.addr ≠ 0 := by
      apply hb.list.ne_zero
      simp [freeAddrs_cons_free hfree]
    have htemp := hb.toNat_stop (b := p) (by simp)
    rw [hprev, if_pos hp0] at hput
    rw [hprev, insertFreeBlock, if_pos hp0]
    cases L₂ with
    | nil =>
        have hb' : Layout start stop h (L₁ ++ p :: b :: R) := by simpa using hb
        have hadj : p.stop = b.addr.toNat := hb'.adjacent
        rw [if_pos (BitVec.eq_of_toNat_eq (htemp.trans hadj))]
        refine ⟨_, hb'.combine hlive, ?_⟩
        simp [liveAddrs, hfree]
    | cons y L₂ =>
        have hb' : Layout start stop h (L₁ ++ p :: y :: (L₂ ++ b :: R)) := by simpa using hb
        have hadj : p.stop = y.addr.toNat := hb'.adjacent
        have hy : y.stop ≤ b.addr.toNat := hb.ordered.1 y (by simp)
        have hne : ¬ p.addr + SIZEOF_USER_BLOCK + h.size p.addr = b.addr := by
          intro heq
          rw [heq] at htemp
          unfold Block.stop at hy
          omega
        rw [if_neg hne]
        exact ⟨_, hput, hputLive⟩

/-- The release of a live block returns, and leads to a layout in which the block is not live. -/
theorem free (hlive : b.free = false) (hstart : 0 < start.toNat) :
  ∃ h' bs', kmallocUserFree h (b.addr + 4) = some h' ∧ Layout start stop h' bs'
    ∧ liveAddrs bs' = liveAddrs (L ++ R)
  := by
  have h0 : b.addr ≠ 0 := by
    have hlo := (hb.bounds (b := b) (by simp)).1
    rintro heq
    rw [heq] at hlo
    simp at hlo
    omega
  have hptr : b.addr + 4 - SIZEOF_USER_BLOCK = b.addr := by
    unfold SIZEOF_USER_BLOCK
    bv_omega
  obtain ⟨h₁, size', R', hloop, hb₁, hR'⟩ := hb.free_combine_next hlive
  obtain ⟨bs', hb₂, hbs'⟩ := hb₁.free_insert hlive h0
  refine ⟨_, bs', ?_, hb₂, ?_⟩
  · simp only [kmallocUserFree, if_neg (hb.addr_add_ne_zero (b := b) (by simp)), hptr, hloop]
    rfl
  · rw [hbs', liveAddrs_append, hR', liveAddrs_append]

/-! ### Stores of the users -/

/-- A store into the bytes of a block does not touch the header of any block. -/
theorem store {addr : Word} {v : Byte} (hlo : b.addr.toNat + 4 ≤ addr.toNat)
    (hhi : addr.toNat < b.stop) :
  Layout start stop { h with mem := h.mem.store addr v } (L ++ b :: R)
  := by
  obtain ⟨hL, hR⟩ := hb.ordered
  have houtside : ∀ x ∈ L ++ b :: R, addr.toNat < x.addr.toNat ∨ x.addr.toNat + 4 ≤ addr.toNat := by
    intro x hx
    simp only [List.mem_append, List.mem_cons] at hx
    obtain hx | rfl | hx := hx
    · have hle := hL x hx
      unfold Block.stop at hle
      omega
    · omega
    · have hle := hR x hx
      omega
  have hword : ∀ x ∈ L ++ b :: R, ({ h with mem := h.mem.store addr v } : Heap).next x.addr
      = h.next x.addr ∧ ({ h with mem := h.mem.store addr v } : Heap).size x.addr
      = h.size x.addr := by
    intro x hx
    have hout := houtside x hx
    have hstop := (hb.bounds hx).2
    have hlt := stop.isLt
    unfold Block.stop at hstop
    constructor
    · apply Memory.word_store_of_ne
      · bv_omega
      · bv_omega
    · apply Memory.word_store_of_ne
      · bv_omega
      · bv_omega
  constructor
  · exact hb.consecutive
  · exact hb.aligned
  · exact hb.size_aligned
  · intro x hx
    rw [(hword x hx).2, hb.size_eq x hx]
  · apply Holds.congr hb.list
    intro a ha
    obtain ⟨x, hx, -, rfl⟩ := exists_of_mem_freeAddrs ha
    apply (hword x hx).1

end Layout

/-! ### The invariant -/

/-- The heap has a layout whose live blocks are those of the live pointers. -/
def Inv (start stop : Word) (s : State) : Prop :=
  ∃ bs, Layout start stop s.heap bs ∧ s.live.Perm ((liveAddrs bs).map (· + 4))

/-- The addresses of the blocks are those of the live blocks and of the free blocks. -/
theorem liveAddrs_append_freeAddrs_perm (bs : List Block) :
  (liveAddrs bs ++ freeAddrs bs).Perm (bs.map (·.addr))
  := by
  rw [liveAddrs, freeAddrs, ← List.map_append]
  apply List.Perm.map
  apply List.perm_append_comm.trans
  apply List.filter_append_perm

/-- A state with a layout is tiled. -/
theorem Inv.tiled (hs : Inv start stop s) : Tiled start stop s := by
  obtain ⟨bs, hb, hlive⟩ := hs
  use freeAddrs bs, hb.list.path, hb.list.null_notMem
  have hextents : bs.map Block.extent = (bs.map (·.addr)).map (blockExtent s.heap) := by
    rw [List.map_map]
    apply List.map_congr_left
    intro b hbs
    rw [Function.comp_apply, blockExtent, hb.size_eq b hbs]
    rfl
  have htiles := hb.consecutive.tiles
  rw [hextents] at htiles
  apply htiles.perm
  apply List.Perm.map
  apply (liveAddrs_append_freeAddrs_perm bs).symm.trans
  apply List.Perm.append_right
  have hmap := (hlive.map (· - SIZEOF_USER_BLOCK)).symm
  have hid : (fun a : Word => a - SIZEOF_USER_BLOCK) ∘ (· + 4) = id := by
    funext a
    apply BitVec.add_sub_cancel
  rwa [List.map_map, hid, List.map_id] at hmap

/-- The heap after `kmalloc_init` is one free block. -/
theorem inv_start (hstart : 0 < start.toNat) (hlt : start < stop) (hstartAl : Aligned start)
    (hstopAl : Aligned stop) (hs : (system start stop).start s) :
  Inv start stop s
  := by
  obtain ⟨mem, rfl⟩ := hs
  have hne : start ≠ 0 := by bv_omega
  have hsize : (stop - start - SIZEOF_USER_BLOCK).toNat = stop.toNat - start.toNat - 4 := by
    unfold SIZEOF_USER_BLOCK
    unfold Aligned at hstartAl hstopAl
    bv_omega
  have hle : start.toNat + 4 ≤ stop.toNat := by
    unfold Aligned at hstartAl hstopAl
    bv_omega
  refine ⟨[{ addr := start, size := stop - start - SIZEOF_USER_BLOCK, free := true }],
    ⟨?_, ?_, ?_, ?_, ?_⟩, List.Perm.nil⟩
  · simp only [List.map_cons, List.map_nil, consecutive_cons, consecutive_nil, Block.extent,
      Block.stop, hsize]
    exact ⟨trivial, by omega, by omega⟩
  · simpa using hstartAl
  · unfold Aligned at hstartAl hstopAl
    simp only [List.mem_singleton, forall_eq, hsize]
    omega
  · simp only [List.mem_singleton, forall_eq, kmallocInit]
    rw [Heap.size_slistInsertHead (Clear.refl start), Heap.size_setSize (Clear.refl start),
      if_pos rfl]
  · have hempty : FreeList (({ mem := mem, freeBlocks := 0 } : Heap).setSize start
        (stop - start - SIZEOF_USER_BLOCK)) ([] ++ []) :=
      ⟨rfl, by simp, List.nodup_nil⟩
    have hinsert := hempty.insert hne (by simp) (by simp [Clear.refl])
    rw [before_nil, if_neg (by simp)] at hinsert
    exact hinsert

/-- The block of a live pointer. -/
theorem Inv.exists_block {ptr : Word} (hptr : ptr ∈ s.live)
    (hlive : s.live.Perm ((liveAddrs bs).map (· + 4))) :
  ∃ L b R, bs = L ++ b :: R ∧ b.free = false ∧ ptr = b.addr + 4
  := by
  obtain ⟨a, ha, rfl⟩ := List.mem_map.mp (hlive.mem_iff.mp hptr)
  obtain ⟨b, hb, rfl⟩ := List.mem_map.mp ha
  rw [List.mem_filter] at hb
  obtain ⟨L, R, rfl⟩ := List.append_of_mem hb.1
  exact ⟨L, b, R, rfl, by simpa using hb.2, rfl⟩

/-- The actions keep the invariant, under the condition on allocations. -/
theorem inv_step {s' : State} {a : Action} (hstart : 0 < start.toNat) (hs : Inv start stop s)
    (hok : ActionOk s a) (hstep : step s a s') :
  Inv start stop s'
  := by
  obtain ⟨bs, hb, hlive⟩ := hs
  cases a with
  | alloc size =>
      obtain ⟨-, h', ptr, halloc, rfl⟩ := hstep
      obtain ⟨h'', ptr', halloc', hres⟩ := hb.alloc size
      rw [halloc, Option.some_inj, Prod.mk.injEq] at halloc'
      obtain ⟨rfl, rfl⟩ := halloc'
      obtain ⟨rfl, rfl⟩ | ⟨bs', a, hbs', rfl, hne, hperm⟩ := hres hok
      · exact ⟨bs, hb, by simpa using hlive⟩
      · refine ⟨bs', hbs', ?_⟩
        rw [if_neg hne]
        apply (List.Perm.cons _ hlive).trans
        exact (hperm.map (· + 4)).symm
  | free ptr =>
      obtain ⟨hptr, h', hfree, rfl⟩ := hstep
      obtain ⟨L, b, R, rfl, hblive, rfl⟩ := Inv.exists_block hptr hlive
      obtain ⟨h'', bs', hfree', hbs', hlive'⟩ := hb.free hblive hstart
      rw [hfree, Option.some_inj] at hfree'
      subst hfree'
      refine ⟨bs', hbs', ?_⟩
      rw [liveAddrs_append, liveAddrs_cons_live hblive, List.map_append, List.map_cons] at hlive
      rw [hlive', liveAddrs_append, List.map_append]
      have herase := (hlive.trans List.perm_middle).erase (b.addr + 4)
      rwa [List.erase_cons_head] at herase
  | store addr v =>
      obtain ⟨⟨ptr, hptr, hlo, hhi⟩, rfl⟩ := hstep
      obtain ⟨L, b, R, rfl, hblive, rfl⟩ := Inv.exists_block hptr hlive
      have hbounds := (hb.bounds (b := b) (by simp)).2
      have hlt := stop.isLt
      have hsub : b.addr + 4 - SIZEOF_USER_BLOCK = b.addr := BitVec.add_sub_cancel b.addr 4
      rw [hsub, hb.size_eq b (by simp)] at hhi
      refine ⟨L ++ b :: R, hb.store ?_ ?_, hlive⟩
      · unfold Block.stop at hbounds
        bv_omega
      · unfold Block.stop at hbounds ⊢
        bv_omega

/-! ### A split destroys the tiling -/

/-- In a tiling, a block that ends before the end of the memory is followed by a block. -/
theorem exists_next_block {addrs : List Word}
    (htiles : Tiles start.toNat stop.toNat (addrs.map (blockExtent h))) (ha : a ∈ addrs)
    (hlo : start.toNat ≤ a.toNat) (hhi : a.toNat + 4 + (h.size a).toNat < stop.toNat) :
  ∃ x ∈ addrs, x.toNat = a.toNat + 4 + (h.size a).toNat
  := by
  have hmem : blockExtent h a ∈ addrs.map (blockExtent h) := List.mem_map_of_mem ha
  have hne : (blockExtent h a).1 < (blockExtent h a).2 := by
    simp only [blockExtent]
    omega
  have hend : (blockExtent h a).2 ∈ Set.Ico start.toNat stop.toNat := by
    simp only [blockExtent, Set.mem_Ico]
    omega
  obtain ⟨j, hj, heq⟩ := htiles.exists_start hmem hne hend
  obtain ⟨x, hx, rfl⟩ := List.mem_map.mp hj
  exact ⟨x, hx, heq⟩

theorem aligned_splitAddr (hblock : Aligned block) :
  Aligned (splitAddr block size)
  := by
  unfold Aligned splitAddr SIZEOF_USER_BLOCK at *
  bv_omega

/-- The remainder of a block is not put right after the block that is allocated. -/
theorem splitAddr_ne (hpos : size ≠ 0) :
  (splitAddr block size).toNat ≠ block.toNat + 4 + size.toNat
  := by
  have haddr : (splitAddr block size).toNat = (block.toNat + 4 + size.toNat * 4) % 2 ^ 16 := by
    unfold splitAddr SIZEOF_USER_BLOCK
    simp only [BitVec.toNat_add, BitVec.toNat_mul, BitVec.reduceToNat, Nat.mod_add_mod,
      Nat.add_mod_mod]
  intro heq
  have hdiv := Nat.div_add_mod (block.toNat + 4 + size.toNat * 4) (2 ^ 16)
  rw [← haddr, heq] at hdiv
  have hdvd : 2 ^ 16 ∣ 3 * size.toNat := by
    use (block.toNat + 4 + size.toNat * 4) / 2 ^ 16
    linarith only [hdiv]
  have hzero : size.toNat = 0 :=
    Nat.eq_zero_of_dvd_of_lt (Nat.Coprime.dvd_of_dvd_mul_left (by decide) hdvd) size.isLt
  apply hpos (BitVec.eq_of_toNat_eq hzero)

/-- The links after a split. -/
theorem next_splitBlock (hblock : Aligned block) (ha : Aligned a)
    (hsplit : size - h.size block ≥ KMALLOC_MIN_BLOCK_SIZE) :
  (splitBlock h block size).next a
    = if a = block then splitAddr block size
      else if a = splitAddr block size then h.next block else h.next a
  := by
  have hal : Aligned (splitAddr block size) := aligned_splitAddr hblock
  rw [splitBlock_eq hsplit, splitOff, Heap.next_setSize (hblock.clear ha), Heap.slistInsertAfter,
    Heap.next_setNext (hblock.clear ha), Heap.next_setNext (hal.clear ha),
    Heap.next_setSize (hal.clear hblock), Heap.next_setSize (hal.clear ha)]

namespace Layout

/-- The blocks that are on the free list after a split: those that were on it before, and the
block at the computed address. -/
theorem mem_of_split (hb : Layout start stop h (L ++ b :: R)) (hfree : b.free = true)
    (hsplit : size - h.size b.addr ≥ KMALLOC_MIN_BLOCK_SIZE) {l : List Word}
    (hpath : Path ((splitBlock h b.addr size).slistRemoveAfter (before 0 (freeAddrs L)) b.addr).next
      ((splitBlock h b.addr size).slistRemoveAfter (before 0 (freeAddrs L)) b.addr).freeBlocks l 0)
    (hnull : 0 ∉ l) :
  ∀ a ∈ l, a ∈ freeAddrs (L ++ b :: R) ∨ a = splitAddr b.addr size
  := by
  have hbal : Aligned b.addr := hb.aligned b (by simp)
  have hbmem : b.addr ∈ freeAddrs (L ++ b :: R) := by simp [freeAddrs_cons_free hfree]
  have haligned : ∀ a, a ∈ freeAddrs (L ++ b :: R) ∨ a = splitAddr b.addr size → Aligned a := by
    rintro a (ha | rfl)
    · apply hb.freeAddrs_aligned a ha
    · apply aligned_splitAddr hbal
  have hold : ∀ a ∈ freeAddrs (L ++ b :: R), h.next a ≠ 0 →
      h.next a ∈ freeAddrs (L ++ b :: R) := by
    intro a ha hne
    apply (hb.list.path.next_mem ha).resolve_right hne
  have hnew : ∀ a, a ∈ freeAddrs (L ++ b :: R) ∨ a = splitAddr b.addr size →
      (splitBlock h b.addr size).next a ≠ 0 →
      (splitBlock h b.addr size).next a ∈ freeAddrs (L ++ b :: R)
        ∨ (splitBlock h b.addr size).next a = splitAddr b.addr size := by
    intro a ha hne
    rw [next_splitBlock hbal (haligned a ha) hsplit] at hne ⊢
    split_ifs at hne ⊢ with hab hsp
    · right
      rfl
    · left
      apply hold b.addr hbmem hne
    · left
      apply hold a (ha.resolve_right hsp) hne
  have hself : (splitBlock h b.addr size).next b.addr = splitAddr b.addr size := by
    rw [next_splitBlock hbal hbal hsplit, if_pos rfl]
  have hfirst : (splitBlock h b.addr size).freeBlocks = h.freeBlocks := by
    rw [splitBlock_eq hsplit]
    rfl
  have hfirstMem : h.freeBlocks ∈ freeAddrs (L ++ b :: R) :=
    hb.list.first_mem (List.ne_nil_of_mem hbmem)
  apply Path.forall_mem (S := fun a => a ∈ freeAddrs (L ++ b :: R) ∨ a = splitAddr b.addr size)
    hpath hnull
  · intro hne
    unfold Heap.slistRemoveAfter at hne ⊢
    split_ifs at hne ⊢ with hprev
    · left
      exact hfirst.symm ▸ hfirstMem
    · simp only [hfirst] at hne ⊢
      apply hnew h.freeBlocks (Or.inl hfirstMem) hne
  · intro a ha hne
    unfold Heap.slistRemoveAfter at hne ⊢
    split_ifs at hne ⊢ with hprev
    · rw [Heap.next_setNext (hb.aligned_before_freeAddrs.clear (haligned a ha)), hself] at hne ⊢
      split_ifs at hne ⊢
      · right
        rfl
      · apply hnew a ha hne
    · apply hnew a ha hne

/-- A split for a rounded size that is not zero destroys the tiling: no block starts right after
the block that is allocated. -/
theorem not_tiled_of_split (hb : Layout start stop h (L ++ b :: R)) (hfree : b.free = true)
    (hpos : size ≠ 0) (hlt : size < b.size) (hle : b.size.toNat ≤ size.toNat + 65504) {live : List Word}
    (hlive : live.Perm ((liveAddrs (L ++ b :: R)).map (· + 4))) :
  ¬ Tiled start stop
      { heap := (splitBlock h b.addr size).slistRemoveAfter (before 0 (freeAddrs L)) b.addr
        live := (b.addr + 4) :: live }
  := by
  have hbal : Aligned b.addr := hb.aligned b (by simp)
  have hbsize := hb.size_eq b (by simp)
  have hbounds := hb.bounds (b := b) (by simp)
  have hstop := stop.isLt
  have hsplit : size - h.size b.addr ≥ KMALLOC_MIN_BLOCK_SIZE := by
    rw [hbsize]
    unfold KMALLOC_MIN_BLOCK_SIZE
    bv_omega
  have hsize : ((splitBlock h b.addr size).slistRemoveAfter (before 0 (freeAddrs L)) b.addr).size
      b.addr = size := by
    rw [Heap.size_slistRemoveAfter fun _ => hb.aligned_before_freeAddrs.clear hbal,
      size_splitBlock hsplit]
  rintro ⟨free, hpath, hnull, htiles⟩
  have hmem := hb.mem_of_split hfree hsplit hpath hnull
  unfold Block.stop at hbounds
  have hsub : b.addr + 4 - SIZEOF_USER_BLOCK = b.addr := BitVec.add_sub_cancel b.addr 4
  obtain ⟨a, ha, heq⟩ := exists_next_block htiles
    (List.mem_append_left _ (List.mem_map.mpr ⟨b.addr + 4, List.mem_cons_self, hsub⟩)) hbounds.1
    (by rw [hsize]; bv_omega)
  rw [hsize] at heq
  have hinside : ∀ x ∈ L ++ b :: R, x.addr ≠ a := by
    apply hb.addr_ne_of_inside
    · omega
    · unfold Block.stop
      bv_omega
  obtain ha | ha := List.mem_append.mp ha
  · obtain ⟨ptr, hptr, rfl⟩ := List.mem_map.mp ha
    obtain ⟨x, hx, hxa⟩ : ∃ x ∈ L ++ b :: R, x.addr = ptr - SIZEOF_USER_BLOCK := by
      obtain rfl | hptr := List.mem_cons.mp hptr
      · exact ⟨b, by simp, (BitVec.add_sub_cancel b.addr 4).symm⟩
      · obtain ⟨L', x, R', hbs, -, rfl⟩ := Inv.exists_block (s := ⟨h, live⟩) hptr hlive
        exact ⟨x, by simp [hbs], (BitVec.add_sub_cancel x.addr 4).symm⟩
    apply hinside x hx hxa
  · obtain ha | rfl := hmem a ha
    · obtain ⟨x, hx, -, rfl⟩ := exists_of_mem_freeAddrs ha
      apply hinside x hx rfl
    · apply splitAddr_ne hpos heq

end Layout

/-- There is one first fit. -/
theorem FirstFit.unique {a' : Word} (ha : FirstFit h size a) (ha' : FirstFit h size a') :
  a = a'
  := by
  obtain ⟨l, hl, hfind⟩ := ha
  obtain ⟨l', hl', hfind'⟩ := ha'
  rw [hl.unique hl', hfind'] at hfind
  exact (Option.some_inj.mp hfind).symm

/-- An allocation that does not meet the condition destroys the tiling. -/
theorem Inv.not_tiled {s' : State} (hs : Inv start stop s) (hok : ¬ AllocOk s.heap size)
    (hstep : step s (.alloc size) s') :
  ¬ Tiled start stop s'
  := by
  obtain ⟨bs, hb, hlive⟩ := hs
  obtain ⟨-, h', ptr, halloc, rfl⟩ := hstep
  rw [AllocOk, not_forall] at hok
  obtain ⟨a, hok⟩ := hok
  rw [Classical.not_imp, not_or, not_or] at hok
  obtain ⟨hfirst, hne, hpos, hle⟩ := hok
  obtain hsmall | ⟨L, b, R, rfl, hfree, hsize, hL⟩ := Layout.exists_fit bs (roundSize size)
  · obtain ⟨l, hl, hfind⟩ := hfirst
    rw [hl.unique hb.list] at hfind
    obtain ⟨x, hx, hfree, rfl⟩ := exists_of_mem_freeAddrs (List.mem_of_find?_eq_some hfind)
    have hfit := List.find?_some hfind
    rw [hb.size_eq x hx, decide_eq_true_iff] at hfit
    exact absurd hfit (BitVec.not_le.mpr (hsmall x hx hfree))
  · obtain rfl := hfirst.unique (hb.firstFit hfree hsize hL)
    rw [hb.size_eq b (by simp)] at hne hle
    have heq := hb.allocLoop_eq hfree hsize hL
    rw [kmallocUserAlloc, heq, Option.some_inj, Prod.mk.injEq] at halloc
    obtain ⟨rfl, rfl⟩ := halloc
    have hptr : b.addr + SIZEOF_USER_BLOCK ≠ 0 := hb.addr_add_ne_zero (by simp)
    have hlt : roundSize size < b.size := by bv_omega
    rw [if_neg hptr]
    apply hb.not_tiled_of_split hfree hpos hlt (by omega) hlive

/-- In every state that is reached by allocations that meet the condition, releases of live
pointers and stores into live blocks, the live blocks and the free blocks tile the memory.  From
such a state every allocation and every release of a live pointer returns, and an action leads to
a tiled state exactly if it meets the condition. -/
theorem tiled_of_reachable {s : State} (hstart : 0 < start.toNat) (hlt : start < stop)
    (hstartAl : Aligned start) (hstopAl : Aligned stop)
    (hs : (system start stop).Reachable ActionOk s) :
  Tiled start stop s
    ∧ (∀ size, (kmallocUserAlloc s.heap size).isSome)
    ∧ (∀ ptr ∈ s.live, (kmallocUserFree s.heap ptr).isSome)
    ∧ ∀ a s', (system start stop).step s a s' → (Tiled start stop s' ↔ ActionOk s a)
  := by
  have hinv : Inv start stop s := by
    apply hs.invariant
    · intro s hs
      apply inv_start hstart hlt hstartAl hstopAl hs
    · intro s a s' hs hok hstep
      apply inv_step hstart hs hok hstep
  refine ⟨hinv.tiled, ?_, ?_, ?_⟩
  · intro size
    obtain ⟨bs, hb, -⟩ := hinv
    obtain ⟨h', ptr, halloc, -⟩ := hb.alloc size
    rw [halloc]
    rfl
  · intro ptr hptr
    obtain ⟨bs, hb, hlive⟩ := hinv
    obtain ⟨L, b, R, rfl, hblive, rfl⟩ := Inv.exists_block hptr hlive
    obtain ⟨h', bs', hfree, -⟩ := hb.free hblive hstart
    rw [hfree]
    rfl
  · intro a s' hstep
    constructor
    · intro htiled
      by_contra hok
      cases a with
      | alloc size => apply hinv.not_tiled hok hstep htiled
      | free ptr => apply hok trivial
      | store addr v => apply hok trivial
    · intro hok
      apply (inv_step hstart hinv hok hstep).tiled

/-- The state after `kmalloc_init` on a cleared memory of 64 bytes. -/
def initial64 : State :=
  { heap := kmallocInit (fun _ => 0) 0x1000 0x1040, live := [] }

theorem freeList_initial64 : FreeList initial64.heap [0x1000] :=
  ⟨⟨by decide, show initial64.heap.next 0x1000 = 0 by decide⟩, by decide, by decide⟩

theorem reachable_initial64 {ok : State → Action → Prop} :
  (system 0x1000 0x1040).Reachable ok initial64
  := System.Reachable.start ⟨_, rfl⟩

/-- Allocating a memory of 64 bytes whole, from `kmalloc_init` on, keeps it tiled. -/
theorem tiled_of_reachable_whole :
  ∃ s, (system 0x1000 0x1040).Reachable ActionOk s ∧ s.live = [0x1004] ∧ Tiled 0x1000 0x1040 s
  := by
  have hok : ActionOk initial64 (.alloc 60) := by
    rintro a ⟨l, hl, hfind⟩
    rw [hl.unique freeList_initial64] at hfind
    rw [List.mem_singleton.mp (List.mem_of_find?_eq_some hfind)]
    left
    decide
  have hstep : ∃ s', step initial64 (.alloc 60) s' ∧ s'.live = [0x1004] :=
    ⟨_, ⟨by decide, _, _, rfl, rfl⟩, by decide⟩
  obtain ⟨s', hstep, hlive⟩ := hstep
  have hreach : (system 0x1000 0x1040).Reachable ActionOk s' :=
    reachable_initial64.step hok hstep
  exact ⟨s', hreach, hlive, (tiled_of_reachable (by decide) (by decide) (by rfl) (by rfl) hreach).1⟩

/-- An allocation of 16 bytes from a memory of 64 bytes destroys the tiling: the free block that
remains has its header at `0x1044`. -/
theorem not_tiled_of_alloc_16 :
  ∃ s, (system 0x1000 0x1040).Reachable (fun _ _ => True) s ∧ s.heap.freeBlocks = 0x1044
    ∧ ¬ Tiled 0x1000 0x1040 s
  := by
  have hstep : ∃ s', step initial64 (.alloc 16) s' ∧ s'.heap.freeBlocks = 0x1044 :=
    ⟨_, ⟨by decide, _, _, rfl, rfl⟩, by decide⟩
  obtain ⟨s', hstep, hfree⟩ := hstep
  use s', reachable_initial64.step (a := .alloc 16) trivial hstep, hfree
  have hinv : Inv 0x1000 0x1040 initial64 :=
    inv_start (by decide) (by decide) (by rfl) (by rfl) ⟨_, rfl⟩
  apply hinv.not_tiled _ hstep
  intro hok
  have hfit : FirstFit initial64.heap (roundSize 16) 0x1000 := ⟨_, freeList_initial64, by decide⟩
  exact absurd (hok _ hfit) (by decide)

end Mosnix.Kmalloc
