import Mathlib

/-!
# Tilings of an interval

`Tiles lo hi is` says that the half-open intervals of the list `is` are pairwise disjoint and
together cover the interval from `lo` to `hi` exactly.  Intervals that follow one another
without gaps tile the interval from the start of the first to the end of the last
(`Consecutive.tiles`).
-/

namespace Tiling

variable {α : Type*} [LinearOrder α] {lo hi x : α} {is js : List (α × α)}

/-- The intervals `is` are pairwise disjoint and cover the interval from `lo` to `hi`. -/
structure Tiles (lo hi : α) (is : List (α × α)) : Prop where
  disjoint : is.Pairwise fun i j => Disjoint (Set.Ico i.1 i.2) (Set.Ico j.1 j.2)
  cover : ∀ x, x ∈ Set.Ico lo hi ↔ ∃ i ∈ is, x ∈ Set.Ico i.1 i.2

/-- The order of the intervals does not matter. -/
theorem Tiles.perm (h : Tiles lo hi is) (hp : is.Perm js) : Tiles lo hi js where
  disjoint := (hp.pairwise_iff fun h => h.symm).mp h.disjoint
  cover x := by simp only [h.cover, hp.mem_iff]

/-- Two tiles with a common point are the same. -/
theorem Tiles.eq_of_mem (h : Tiles lo hi is) {i j : α × α} (his : i ∈ is) (hjs : j ∈ is)
    (hi : x ∈ Set.Ico i.1 i.2) (hj : x ∈ Set.Ico j.1 j.2) :
  i = j
  := by
  by_contra hne
  have hsymm : Std.Symm fun i j : α × α => Disjoint (Set.Ico i.1 i.2) (Set.Ico j.1 j.2) :=
    ⟨fun _ _ h => h.symm⟩
  have hdisj := h.disjoint.forall his hjs hne
  apply Set.disjoint_left.mp hdisj hi hj

/-- A point of the tiled interval that is the end of a tile is the start of another. -/
theorem Tiles.exists_start (h : Tiles lo hi is) {i : α × α} (his : i ∈ is) (hne : i.1 < i.2)
    (hend : i.2 ∈ Set.Ico lo hi) :
  ∃ j ∈ is, j.1 = i.2
  := by
  obtain ⟨j, hjs, hj⟩ := (h.cover i.2).mp hend
  use j, hjs
  apply le_antisymm hj.1
  by_contra hlt
  rw [not_le] at hlt
  have hmax : max i.1 j.1 ∈ Set.Ico i.1 i.2 := ⟨le_max_left _ _, max_lt hne hlt⟩
  have hmax' : max i.1 j.1 ∈ Set.Ico j.1 j.2 := ⟨le_max_right _ _, hmax.2.trans hj.2⟩
  have heq := h.eq_of_mem his hjs hmax hmax'
  rw [← heq] at hj
  apply lt_irrefl i.2 hj.2

/-- The intervals of the list follow one another from `lo` to `hi`. -/
def Consecutive : α → List (α × α) → α → Prop
  | lo, [], hi => lo = hi
  | lo, i :: is, hi => lo = i.1 ∧ i.1 < i.2 ∧ Consecutive i.2 is hi

@[simp]
theorem consecutive_nil : Consecutive lo [] hi ↔ lo = hi := Iff.rfl

@[simp]
theorem consecutive_cons {i : α × α} :
  Consecutive lo (i :: is) hi ↔ lo = i.1 ∧ i.1 < i.2 ∧ Consecutive i.2 is hi
  := Iff.rfl

/-- Consecutive intervals in two parts. -/
theorem consecutive_append :
  Consecutive lo (is ++ js) hi ↔ ∃ mid, Consecutive lo is mid ∧ Consecutive mid js hi
  := by
  induction is generalizing lo with
  | nil => simp
  | cons i is ih =>
      rw [List.cons_append, consecutive_cons, ih]
      simp [and_assoc]

namespace Consecutive

theorem le (h : Consecutive lo is hi) : lo ≤ hi := by
  induction is generalizing lo with
  | nil => exact h.le
  | cons i is ih =>
      obtain ⟨rfl, hlt, hrest⟩ := h
      apply hlt.le.trans (ih hrest)

/-- Consecutive intervals lie between the two ends, and are not empty. -/
theorem bounds (h : Consecutive lo is hi) {i : α × α} (his : i ∈ is) :
  lo ≤ i.1 ∧ i.1 < i.2 ∧ i.2 ≤ hi
  := by
  induction is generalizing lo with
  | nil => simp at his
  | cons j is ih =>
      obtain ⟨rfl, hlt, hrest⟩ := h
      obtain rfl | his := List.mem_cons.mp his
      · exact ⟨le_rfl, hlt, hrest.le⟩
      · obtain ⟨hlo, hrest'⟩ := ih hrest his
        exact ⟨hlt.le.trans hlo, hrest'⟩

/-- Consecutive intervals are in order. -/
theorem pairwise (h : Consecutive lo is hi) : is.Pairwise fun i j => i.2 ≤ j.1 := by
  induction is generalizing lo with
  | nil => apply List.Pairwise.nil
  | cons i is ih =>
      obtain ⟨rfl, hlt, hrest⟩ := h
      apply List.Pairwise.cons _ (ih hrest)
      intro j hj
      apply (hrest.bounds hj).1

/-- Two intervals that follow one another as one. -/
theorem merge {i j : α × α} (h : Consecutive lo (is ++ i :: j :: js) hi) :
  Consecutive lo (is ++ (i.1, j.2) :: js) hi
  := by
  obtain ⟨mid, hpre, rfl, hi, hij, hj, hpost⟩ := consecutive_append.mp h
  rw [consecutive_append]
  exact ⟨i.1, hpre, rfl, hi.trans (hij.trans_lt hj), hpost⟩

/-- An interval cut in two at `x`. -/
theorem split {i : α × α} (h : Consecutive lo (is ++ i :: js) hi) (hx : i.1 < x) (hx' : x < i.2) :
  Consecutive lo (is ++ (i.1, x) :: (x, i.2) :: js) hi
  := by
  obtain ⟨mid, hpre, rfl, -, hpost⟩ := consecutive_append.mp h
  rw [consecutive_append]
  exact ⟨i.1, hpre, rfl, hx, rfl, hx', hpost⟩

/-- Consecutive intervals cover what is between the two ends. -/
theorem mem_iff (h : Consecutive lo is hi) (x : α) :
  x ∈ Set.Ico lo hi ↔ ∃ i ∈ is, x ∈ Set.Ico i.1 i.2
  := by
  induction is generalizing lo with
  | nil =>
      rw [consecutive_nil] at h
      simp [h]
  | cons i is ih =>
      obtain ⟨rfl, hlt, hrest⟩ := h
      rw [← Set.Ico_union_Ico_eq_Ico hlt.le hrest.le, Set.mem_union, ih hrest]
      simp

/-- Consecutive intervals tile the interval between the two ends. -/
theorem tiles (h : Consecutive lo is hi) : Tiles lo hi is where
  disjoint := by
    apply h.pairwise.imp
    intro i j hij
    apply Set.Ico_disjoint_Ico.mpr
    apply (min_le_left _ _).trans (hij.trans (le_max_right _ _))
  cover := h.mem_iff

end Consecutive

end Tiling
