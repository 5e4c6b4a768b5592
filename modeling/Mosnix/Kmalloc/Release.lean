import Mosnix.Kmalloc.FreeList

/-!
# Release of a block

A free list is canonical if it is in the order of the addresses, and its blocks do not overlap or
touch.  The release of a block keeps the free list canonical, and adds the bytes of the block to
those of the list (`kmallocUserFree_canonical`).

The first half of `kmalloc_user_free` combines the block with the free block after it, if they touch,
and the second half combines it with the free block before it, or puts it on the list.  Between the
two the block is not on the list, but lies between two parts of it (`Around`).
-/

namespace Mosnix.Kmalloc

open LinkedList Intervals

variable {h h' : Heap} {l l₁ l₂ : List Word} {a b c : Word}

/-- The bytes of a block, with its header. -/
def bytes (h : Heap) (a : Word) : Set ℕ :=
  Set.Ico (blockExtent h a).1 (blockExtent h a).2

/-- The bytes of the blocks of a list. -/
def covered (h : Heap) (l : List Word) : Set ℕ :=
  cover (l.map (blockExtent h))

/-- The free list of `h` consists of the blocks `l`, which are in the memory, in the order of their
addresses, disjoint, and fully coalesced. -/
structure Canonical (h : Heap) (l : List Word) : Prop where
  list : FreeList h l
  bounds : ∀ a ∈ l, (blockExtent h a).2 < 2 ^ 16
  sorted : l.Pairwise fun a b => a < b
  disjoint : l.Pairwise fun a b => Disjoint (bytes h a) (bytes h b)
  coalesced : l.Pairwise fun a b => (blockExtent h a).2 ≠ b.toNat

/-- A block ends before another one starts. -/
theorem blockExtent_lt_iff (h : Heap) (a b : Word) :
  (blockExtent h a).2 < b.toNat
    ↔ a < b ∧ Disjoint (bytes h a) (bytes h b) ∧ (blockExtent h a).2 ≠ b.toNat
  := by
  have hlt (a : Word) : (blockExtent h a).1 < (blockExtent h a).2 := by
    simp only [blockExtent]
    omega
  apply apart_iff (hlt a) (hlt b)

/-- A canonical list in terms of the extents of its blocks. -/
theorem canonical_iff :
  Canonical h l ↔ FreeList h l ∧ (∀ a ∈ l, (blockExtent h a).2 < 2 ^ 16)
    ∧ l.Pairwise fun a b => (blockExtent h a).2 < b.toNat
  := by
  simp only [blockExtent_lt_iff, List.pairwise_and_iff]
  constructor
  · rintro ⟨hlist, hbounds, hsorted, hdisjoint, hcoalesced⟩
    exact ⟨hlist, hbounds, hsorted, hdisjoint, hcoalesced⟩
  · rintro ⟨hlist, hbounds, hsorted, hdisjoint, hcoalesced⟩
    exact ⟨hlist, hbounds, hsorted, hdisjoint, hcoalesced⟩

/-- The live block `b` lies between the parts `l₁` and `l₂` of a free list whose blocks do not
touch. -/
structure Around (h : Heap) (l₁ : List Word) (b : Word) (l₂ : List Word) : Prop where
  list : FreeList h (l₁ ++ l₂)
  ne_zero : b ≠ 0
  bounds : ∀ a ∈ l₁ ++ b :: l₂, (blockExtent h a).2 < 2 ^ 16
  gaps : (l₁ ++ l₂).Pairwise fun a c => (blockExtent h a).2 < c.toNat
  before_le : ∀ a ∈ l₁, (blockExtent h a).2 ≤ b.toNat
  le_after : ∀ c ∈ l₂, (blockExtent h b).2 ≤ c.toNat

namespace Around

/-- The headers of the blocks do not overlap. -/
theorem clear (hb : Around h l₁ b l₂) : ∀ a ∈ l₁ ++ b :: l₂, ∀ c ∈ l₁ ++ b :: l₂, Clear a c := by
  apply clear_of_ordered hb.bounds
  have hgaps := hb.gaps.imp fun hlt => Nat.le_of_lt hlt
  rw [List.pairwise_append] at hgaps ⊢
  rw [List.pairwise_cons]
  refine ⟨hgaps.1, ⟨hb.le_after, hgaps.2.1⟩, ?_⟩
  intro a ha c hc
  obtain rfl | hc := List.mem_cons.mp hc
  · apply hb.before_le a ha
  · apply hgaps.2.2 a ha c hc

theorem notMem (hb : Around h l₁ b l₂) : b ∉ l₁ ++ l₂ := by
  rw [List.mem_append, not_or]
  constructor
  · intro hmem
    have hle := hb.before_le b hmem
    simp only [blockExtent] at hle
    omega
  · intro hmem
    have hle := hb.le_after b hmem
    simp only [blockExtent] at hle
    omega

/-- The address after a block. -/
theorem toNat_stop (hb : Around h l₁ b l₂) (ha : a ∈ l₁ ++ b :: l₂) :
  (a + SIZEOF_USER_BLOCK + h.size a).toNat = (blockExtent h a).2
  := by
  have hbounds := hb.bounds a ha
  unfold SIZEOF_USER_BLOCK
  simp only [blockExtent] at hbounds ⊢
  bv_omega

end Around

/-! ### The free block after the block -/

theorem covered_congr (hext : ∀ a ∈ l, blockExtent h' a = blockExtent h a) :
  covered h' l = covered h l
  := by
  rw [covered, covered, List.map_congr_left hext]

/-- A block that is combined with the block after it ends where that block ends. -/
theorem blockExtent_combine (hclear : Clear a c) (hne : c ≠ a) (hadj : (blockExtent h a).2 = c.toNat)
    (hbound : (blockExtent h c).2 < 2 ^ 16) :
  blockExtent (h.combine a c) a = (a.toNat, (blockExtent h c).2)
  := by
  rw [blockExtent, Heap.size_combine hclear hne (Clear.refl a), if_pos rfl]
  simp only [blockExtent, Prod.mk.injEq, true_and] at hadj hbound ⊢
  bv_omega

/-- Two blocks that touch cover the same bytes when they are combined. -/
theorem covered_combine (hnext : blockExtent h' a = (a.toNat, (blockExtent h c).2))
    (hadj : (blockExtent h a).2 = c.toNat)
    (hext : ∀ x ∈ l₁ ++ l₂, blockExtent h' x = blockExtent h x) :
  covered h' (l₁ ++ a :: l₂) = covered h (l₁ ++ a :: c :: l₂)
  := by
  rw [List.forall_mem_append] at hext
  have ha : blockExtent h a = (a.toNat, c.toNat) := by rw [← hadj, blockExtent]
  have hc : blockExtent h c = (c.toNat, (blockExtent h c).2) := rfl
  have hlt : a.toNat ≤ c.toNat := by
    simp only [blockExtent] at hadj
    omega
  have hle : c.toNat ≤ (blockExtent h c).2 := by
    simp only [blockExtent]
    omega
  simp only [covered, List.map_append, List.map_cons, cover_append]
  rw [List.map_congr_left hext.1, List.map_congr_left hext.2, hnext, ha, hc, cover_merge hlt hle]

/-- The heap after the block `b` takes in the free block `c`, which is after the free blocks `l₁`. -/
def absorbed (h : Heap) (l₁ : List Word) (b c : Word) : Heap :=
  (h.slistRemoveAfter (before 0 l₁) c).combine b c

namespace Around

theorem ne_of_mem (hb : Around h l₁ b l₂) (ha : a ∈ l₁ ++ l₂) : a ≠ b := by
  rintro rfl
  apply hb.notMem ha

theorem mem_of_mem (ha : a ∈ l₁ ++ l₂) : a ∈ l₁ ++ b :: l₂ := by
  simp only [List.mem_append, List.mem_cons] at ha ⊢
  tauto

/-- The removal of a block from the list does not change the sizes. -/
theorem size_remove (hb : Around h l₁ b l₂) (ha : a ∈ l₁ ++ b :: l₂) :
  (h.slistRemoveAfter (before 0 l₁) c).size a = h.size a
  := by
  apply Heap.size_slistRemoveAfter
  intro hprev
  obtain rfl | ⟨l, p, rfl⟩ := List.eq_nil_or_concat l₁
  · cases hprev rfl
  · rw [List.concat_eq_append] at hb ha ⊢
    rw [before_append]
    apply hb.clear p (by simp) a ha

section

variable (hb : Around h l₁ b (c :: l₂))

include hb

theorem blockExtent_absorbed (ha : a ∈ l₁ ++ c :: l₂) :
  blockExtent (absorbed h l₁ b c) a = blockExtent h a
  := by
  have hcb : c ≠ b := hb.ne_of_mem (by simp)
  apply blockExtent_congr
  rw [absorbed, Heap.size_combine (hb.clear b (by simp) c (by simp)) hcb
      (hb.clear b (by simp) a (mem_of_mem ha)), if_neg (hb.ne_of_mem ha),
    hb.size_remove (mem_of_mem ha)]

/-- The block ends where the absorbed one ended. -/
theorem blockExtent_absorbed_self (hadj : (blockExtent h b).2 = c.toNat) :
  blockExtent (absorbed h l₁ b c) b = (b.toNat, (blockExtent h c).2)
  := by
  have hc : blockExtent (h.slistRemoveAfter (before 0 l₁) c) c = blockExtent h c :=
    blockExtent_congr (hb.size_remove (by simp))
  rw [← hc]
  apply blockExtent_combine (hb.clear b (by simp) c (by simp)) (hb.ne_of_mem (by simp))
  · rw [blockExtent_congr (hb.size_remove (by simp)), hadj]
  · rw [hc]
    apply hb.bounds c
    simp

/-- The absorbed block is taken off the list. -/
theorem freeList_absorbed :
  FreeList (absorbed h l₁ b c) (l₁ ++ l₂)
  := by
  apply (hb.list.remove _).combine
  · intro a ha
    apply hb.clear b (by simp) a
    simp only [List.mem_append, List.mem_cons] at ha ⊢
    tauto
  · intro a ha y hy
    apply hb.clear a (mem_of_mem ha) y (mem_of_mem hy)

/-- The block takes in the free block right after it. -/
theorem absorb (hadj : (blockExtent h b).2 = c.toNat) :
  Around (absorbed h l₁ b c) l₁ b l₂
    ∧ (∀ x ∈ l₂, (blockExtent (absorbed h l₁ b c) b).2 < x.toNat)
    ∧ covered (absorbed h l₁ b c) (l₁ ++ b :: l₂) = covered h (l₁ ++ b :: c :: l₂)
  := by
  have hself := hb.blockExtent_absorbed_self hadj
  have hext : ∀ a ∈ l₁ ++ l₂, blockExtent (absorbed h l₁ b c) a = blockExtent h a := by
    intro a ha
    apply hb.blockExtent_absorbed (mem_of_mem ha)
  have hgaps := hb.gaps
  have hgapsAll := hgaps.sublist (List.Sublist.append_left (List.sublist_cons_self c l₂) l₁)
  have hbounds := hb.bounds
  rw [List.pairwise_append, List.pairwise_cons] at hgaps
  simp only [List.forall_mem_append, List.forall_mem_cons] at hext hbounds
  have hgap : ∀ x ∈ l₂, (blockExtent (absorbed h l₁ b c) b).2 < x.toNat := by
    rw [hself]
    apply hgaps.2.1.1
  refine ⟨⟨hb.freeList_absorbed, hb.ne_zero, ?_, ?_, ?_, ?_⟩, hgap, ?_⟩
  · simp only [List.forall_mem_append, List.forall_mem_cons]
    refine ⟨?_, ?_, ?_⟩
    · intro a ha
      rw [hext.1 a ha]
      apply hbounds.1 a ha
    · rw [hself]
      apply hbounds.2.2.1
    · intro a ha
      rw [hext.2 a ha]
      apply hbounds.2.2.2 a ha
  · apply hgapsAll.imp_of_mem
    intro a x ha _ hlt
    rwa [hb.blockExtent_absorbed (mem_of_mem ha)]
  · intro a ha
    rw [hext.1 a ha]
    apply hb.before_le a ha
  · intro x hx
    apply (hgap x hx).le
  · apply covered_combine hself hadj
    rw [List.forall_mem_append]
    apply hext

end

/-- After the first half of the release the block does not touch the free block after it. -/
theorem freeLoop_eq (hb : Around h l₁ b l₂) :
  ∃ h₁ l₂', freeLoop b h loopBound 0 h.freeBlocks = some (h₁, before 0 l₁)
    ∧ Around h₁ l₁ b l₂' ∧ (∀ x ∈ l₂', (blockExtent h₁ b).2 < x.toNat)
    ∧ covered h₁ (l₁ ++ b :: l₂') = covered h (l₁ ++ b :: l₂)
  := by
  have hle : ∀ x ∈ l₁, ¬ x > b := by
    intro x hx
    have hle := hb.before_le x hx
    simp only [blockExtent] at hle
    bv_omega
  obtain ⟨fuel, c, hpath, hloop⟩ := hb.list.freeLoop_eq hle
  rw [hloop]
  cases l₂ with
  | nil =>
      rw [path_nil] at hpath
      subst hpath
      refine ⟨h, [], ?_, hb, by simp, rfl⟩
      rw [freeLoop, if_pos rfl]
  | cons x l₂ =>
      obtain ⟨rfl, -⟩ := hpath
      have hafter := hb.le_after c (by simp)
      have hgt : c > b := by
        simp only [blockExtent] at hafter
        bv_omega
      have hstop := hb.toNat_stop (a := b) (by simp)
      simp only [freeLoop, if_neg (hb.list.ne_zero (a := c) (by simp)), if_pos hgt]
      by_cases hadj : b + SIZEOF_USER_BLOCK + h.size b = c
      · rw [if_pos hadj]
        rw [hadj] at hstop
        obtain ⟨hb', hgap, hcovered⟩ := hb.absorb hstop.symm
        exact ⟨_, l₂, rfl, hb', hgap, hcovered⟩
      · rw [if_neg hadj]
        have hne : (blockExtent h b).2 ≠ c.toNat := by
          intro heq
          apply hadj (BitVec.eq_of_toNat_eq (hstop.trans heq))
        have hgaps := hb.gaps
        rw [List.pairwise_append, List.pairwise_cons] at hgaps
        refine ⟨h, c :: l₂, rfl, hb, ?_, rfl⟩
        rw [List.forall_mem_cons]
        refine ⟨lt_of_le_of_ne hafter hne, ?_⟩
        intro y hy
        have hlt := hgaps.2.1.1 y hy
        simp only [blockExtent] at hlt hafter ⊢
        omega

/-! ### The free block before the block -/

/-- The block is put on the list. -/
theorem put (hb : Around h l₁ b l₂) (hgap₁ : ∀ a ∈ l₁, (blockExtent h a).2 < b.toNat)
    (hgap₂ : ∀ c ∈ l₂, (blockExtent h b).2 < c.toNat)
    (hh' : h' = if before 0 l₁ ≠ 0 then h.slistInsertAfter (before 0 l₁) b else h.slistInsertHead b) :
  Canonical h' (l₁ ++ b :: l₂) ∧ covered h' (l₁ ++ b :: l₂) = covered h (l₁ ++ b :: l₂)
  := by
  have hext : ∀ a ∈ l₁ ++ b :: l₂, blockExtent h' a = blockExtent h a := by
    intro a ha
    have hba := hb.clear b (by simp) a ha
    apply blockExtent_congr
    rw [hh']
    split_ifs with hprev
    · obtain rfl | ⟨l, p, rfl⟩ := List.eq_nil_or_concat l₁
      · cases hprev rfl
      · rw [List.concat_eq_append] at hb ha ⊢
        rw [before_append]
        apply Heap.size_slistInsertAfter (hb.clear p (by simp) a ha) hba
    · apply Heap.size_slistInsertHead hba
  have hgaps : (l₁ ++ b :: l₂).Pairwise fun a c => (blockExtent h a).2 < c.toNat := by
    have hgaps := hb.gaps
    rw [List.pairwise_append] at hgaps ⊢
    rw [List.pairwise_cons]
    refine ⟨hgaps.1, ⟨hgap₂, hgaps.2.1⟩, ?_⟩
    intro a ha
    rw [List.forall_mem_cons]
    exact ⟨hgap₁ a ha, hgaps.2.2 a ha⟩
  refine ⟨canonical_iff.mpr ⟨?_, ?_, ?_⟩, covered_congr hext⟩
  · rw [hh']
    apply hb.list.insert hb.ne_zero hb.notMem hb.clear
  · intro a ha
    rw [hext a ha]
    apply hb.bounds a ha
  · apply hgaps.imp_of_mem
    intro a c ha _ hlt
    rwa [hext a ha]

/-- The free block right before the block takes it in. -/
theorem merge {p : Word} (hb : Around h (l ++ [p]) b l₂) (hadj : (blockExtent h p).2 = b.toNat)
    (hgap : ∀ c ∈ l₂, (blockExtent h b).2 < c.toNat) :
  Canonical (h.combine p b) (l ++ p :: l₂)
    ∧ covered (h.combine p b) (l ++ p :: l₂) = covered h (l ++ [p] ++ b :: l₂)
  := by
  have hlist := hb.list
  have hgaps := hb.gaps
  have hbounds := hb.bounds
  have hpb : Clear p b := hb.clear p (by simp) b (by simp)
  have hne : b ≠ p := (hb.ne_of_mem (a := p) (by simp)).symm
  have hself : blockExtent (h.combine p b) p = (p.toNat, (blockExtent h b).2) :=
    blockExtent_combine hpb hne hadj (hb.bounds b (by simp))
  rw [List.append_assoc, List.singleton_append] at hlist hgaps
  have hnodup := List.nodup_middle.mp hlist.nodup
  have hext : ∀ a ∈ l ++ l₂, blockExtent (h.combine p b) a = blockExtent h a := by
    intro a ha
    have hap : a ≠ p := by
      rintro rfl
      apply (List.nodup_cons.mp hnodup).1 ha
    have hclear : Clear p a := by
      apply hb.clear p (by simp) a
      simp only [List.mem_append, List.mem_cons] at ha ⊢
      tauto
    apply blockExtent_congr
    rw [Heap.size_combine hpb hne hclear, if_neg hap]
  rw [List.append_assoc, List.singleton_append]
  refine ⟨canonical_iff.mpr ⟨?_, ?_, ?_⟩, covered_combine hself hadj hext⟩
  · apply hlist.combine
    intro a ha
    apply hb.clear p (by simp) a
    simp only [List.mem_append, List.mem_cons] at ha ⊢
    tauto
  · rw [List.forall_mem_append] at hext
    simp only [List.forall_mem_append, List.forall_mem_cons] at hbounds ⊢
    refine ⟨?_, ?_, ?_⟩
    · intro a ha
      rw [hext.1 a ha]
      apply hbounds.1.1 a ha
    · rw [hself]
      apply hbounds.2.1
    · intro a ha
      rw [hext.2 a ha]
      apply hbounds.2.2 a ha
  · rw [List.forall_mem_append] at hext
    rw [List.pairwise_append, List.pairwise_cons] at hgaps ⊢
    refine ⟨?_, ⟨?_, ?_⟩, ?_⟩
    · apply hgaps.1.imp_of_mem
      intro a c ha _ hlt
      rwa [hext.1 a ha]
    · rw [hself]
      apply hgap
    · apply hgaps.2.1.2.imp_of_mem
      intro a c ha _ hlt
      rwa [hext.2 a ha]
    · intro a ha c hc
      rw [hext.1 a ha]
      apply hgaps.2.2 a ha c hc

/-- The second half of the release puts the block back on the list. -/
theorem insertFreeBlock_canonical (hb : Around h l₁ b l₂)
    (hgap : ∀ x ∈ l₂, (blockExtent h b).2 < x.toNat) :
  ∃ l', Canonical (insertFreeBlock h (before 0 l₁) b) l'
    ∧ covered (insertFreeBlock h (before 0 l₁) b) l' = covered h (l₁ ++ b :: l₂)
  := by
  obtain rfl | ⟨l, p, rfl⟩ := List.eq_nil_or_concat l₁
  · exact ⟨_, hb.put (by simp) hgap rfl⟩
  · rw [List.concat_eq_append] at hb ⊢
    have hp : p ≠ 0 := hb.list.ne_zero (by simp)
    have hstop := hb.toNat_stop (a := p) (by simp)
    rw [before_append, insertFreeBlock, if_pos hp]
    by_cases hadj : p + SIZEOF_USER_BLOCK + h.size p = b
    · rw [if_pos hadj]
      rw [hadj] at hstop
      exact ⟨_, hb.merge hstop.symm hgap⟩
    · rw [if_neg hadj]
      have hgap₁ : ∀ a ∈ l ++ [p], (blockExtent h a).2 < b.toNat := by
        have hle := hb.before_le p (by simp)
        have hne : (blockExtent h p).2 ≠ b.toNat := by
          intro heq
          apply hadj (BitVec.eq_of_toNat_eq (hstop.trans heq))
        have hgaps := hb.gaps
        rw [List.pairwise_append, List.pairwise_append] at hgaps
        rw [List.forall_mem_append]
        constructor
        · intro a ha
          have hlt := hgaps.1.2.2 a ha p (by simp)
          simp only [blockExtent] at hlt hle ⊢
          omega
        · simpa using lt_of_le_of_ne hle hne
      refine ⟨_, hb.put hgap₁ hgap ?_⟩
      rw [before_append, if_pos hp]

end Around

/-! ### The release -/

/-- A sorted list is cut at an address that is not on it. -/
theorem exists_cut (hsorted : l.Pairwise fun a b => a < b) (hb : b ∉ l) :
  ∃ l₁ l₂, l = l₁ ++ l₂ ∧ (∀ a ∈ l₁, a < b) ∧ ∀ c ∈ l₂, b < c
  := by
  induction l with
  | nil => exact ⟨[], [], rfl, by simp, by simp⟩
  | cons x l ih =>
      rw [List.pairwise_cons] at hsorted
      rw [List.mem_cons, not_or] at hb
      by_cases hxb : x < b
      · obtain ⟨l₁, l₂, rfl, hl₁, hl₂⟩ := ih hsorted.2 hb.2
        refine ⟨x :: l₁, l₂, rfl, ?_, hl₂⟩
        rw [List.forall_mem_cons]
        exact ⟨hxb, hl₁⟩
      · have hbx : b < x := by bv_omega
        refine ⟨[], x :: l, rfl, by simp, ?_⟩
        rw [List.forall_mem_cons]
        refine ⟨hbx, ?_⟩
        intro c hc
        apply BitVec.lt_trans hbx (hsorted.1 c hc)

/-- A block that is disjoint from the blocks of a canonical list lies between two parts of it. -/
theorem Canonical.around (hl : Canonical h l) (hne : b ≠ 0) (hbound : (blockExtent h b).2 < 2 ^ 16)
    (hdisjoint : ∀ a ∈ l, Disjoint (bytes h b) (bytes h a)) :
  ∃ l₁ l₂, l = l₁ ++ l₂ ∧ Around h l₁ b l₂
  := by
  have hself (a : Word) : a.toNat ∈ bytes h a := by
    simp only [bytes, blockExtent, Set.mem_Ico]
    omega
  have hb : b ∉ l := by
    intro hmem
    apply Set.disjoint_left.mp (hdisjoint b hmem) (hself b) (hself b)
  obtain ⟨l₁, l₂, rfl, hl₁, hl₂⟩ := exists_cut hl.sorted hb
  obtain ⟨hlist, hbounds, hgaps⟩ := canonical_iff.mp hl
  refine ⟨l₁, l₂, rfl, hlist, hne, ?_, hgaps, ?_, ?_⟩
  · simp only [List.forall_mem_append, List.forall_mem_cons] at hbounds ⊢
    exact ⟨hbounds.1, hbound, hbounds.2⟩
  · intro a ha
    have hlt := hl₁ a ha
    by_contra hle
    apply Set.disjoint_left.mp (hdisjoint a (by simp [ha])) (hself b)
    simp only [bytes, blockExtent, Set.mem_Ico] at hle ⊢
    bv_omega
  · intro c hc
    have hlt := hl₂ c hc
    by_contra hle
    apply Set.disjoint_right.mp (hdisjoint c (by simp [hc])) (hself c)
    simp only [bytes, blockExtent, Set.mem_Ico] at hle ⊢
    bv_omega

/-- The release of a block that is disjoint from the blocks of a canonical free list returns, and the
free list is canonical again.  It covers the bytes that it covered before, and those of the block. -/
theorem kmallocUserFree_canonical (hl : Canonical h l) (hne : b ≠ 0)
    (hbound : (blockExtent h b).2 < 2 ^ 16)
    (hdisjoint : ∀ a ∈ l, Disjoint (bytes h b) (bytes h a)) :
  ∃ h' l', kmallocUserFree h (b + SIZEOF_USER_BLOCK) = some h' ∧ Canonical h' l'
    ∧ covered h' l' = covered h l ∪ bytes h b
  := by
  obtain ⟨l₁, l₂, rfl, hb⟩ := hl.around hne hbound hdisjoint
  obtain ⟨h₁, l₂', hloop, hb₁, hgap, hcovered₁⟩ := hb.freeLoop_eq
  obtain ⟨l', hl', hcovered'⟩ := hb₁.insertFreeBlock_canonical hgap
  have hptr : b + SIZEOF_USER_BLOCK ≠ 0 := by
    simp only [blockExtent] at hbound
    unfold SIZEOF_USER_BLOCK
    bv_omega
  refine ⟨_, l', ?_, hl', ?_⟩
  · have hsub : b + SIZEOF_USER_BLOCK - SIZEOF_USER_BLOCK = b := BitVec.add_sub_cancel b _
    simp only [kmallocUserFree, if_neg hptr, hsub, hloop]
    rfl
  · rw [hcovered', hcovered₁, covered, covered, List.map_append, List.map_append, List.map_cons,
      cover_middle]
    rfl

/-- The heap of the memory from `0x1000` to `0x1040`, with the block at `0x1020` allocated between
two free blocks. -/
def heap3 : Heap :=
  let h := (heap64.setSize 0x1000 28).setNext 0x1000 0x1030
  ((h.setSize 0x1020 12).setSize 0x1030 12).setNext 0x1030 0

theorem canonical_heap3 : Canonical heap3 [0x1000, 0x1030] := by
  rw [canonical_iff]
  have hnext : heap3.next 0x1000 = 0x1030 ∧ heap3.next 0x1030 = 0 := by decide
  refine ⟨⟨⟨rfl, hnext.1.symm, hnext.2⟩, by decide, ?_⟩, ?_, ?_⟩
  · simp
  · simp only [List.forall_mem_cons, List.not_mem_nil, false_implies, implies_true, and_true]
    decide
  · simp only [List.pairwise_pair]
    decide

/-- The release of the block at `0x1020` combines it with both of its neighbours. -/
theorem kmallocUserFree_canonical_heap3 :
  Canonical heap3 [0x1000, 0x1030]
    ∧ ∃ h' l', kmallocUserFree heap3 0x1024 = some h' ∧ Canonical h' l'
      ∧ covered h' l' = covered heap3 [0x1000, 0x1030] ∪ bytes heap3 0x1020
  := by
  refine ⟨canonical_heap3,
    kmallocUserFree_canonical (b := 0x1020) canonical_heap3 (by decide) (by decide) ?_⟩
  simp only [List.forall_mem_cons, List.not_mem_nil, false_implies, implies_true, and_true, bytes,
    Set.Ico_disjoint_Ico]
  decide

end Mosnix.Kmalloc
