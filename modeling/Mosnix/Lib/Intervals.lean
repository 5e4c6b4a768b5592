import Mathlib

/-!
# Lists of intervals

The half-open intervals of a list cover a set of points.  Two intervals that follow one another
cover the same points as one (`cover_merge`).  Intervals that are not empty are in order, disjoint
and do not touch if and only if each ends before the next one starts (`apart_iff`).
-/

namespace Intervals

variable {α : Type*} [LinearOrder α] {l l₁ l₂ : List (α × α)} {i j : α × α} {a b c : α}

/-- The points of the intervals of a list. -/
def cover (l : List (α × α)) : Set α :=
  {x | ∃ i ∈ l, x ∈ Set.Ico i.1 i.2}

theorem cover_cons : cover (i :: l) = Set.Ico i.1 i.2 ∪ cover l := by
  ext x
  simp [cover]

theorem cover_append : cover (l₁ ++ l₂) = cover l₁ ∪ cover l₂ := by
  ext x
  simp [cover, or_and_right, exists_or]

/-- Two intervals that follow one another cover the points of one. -/
theorem cover_merge (hab : a ≤ b) (hbc : b ≤ c) :
  cover ((a, b) :: (b, c) :: l) = cover ((a, c) :: l)
  := by
  rw [cover_cons, cover_cons, cover_cons, ← Set.union_assoc, Set.Ico_union_Ico_eq_Ico hab hbc]

/-- The points of an interval between others. -/
theorem cover_middle : cover (l₁ ++ i :: l₂) = cover (l₁ ++ l₂) ∪ Set.Ico i.1 i.2 := by
  rw [cover_append, cover_append, cover_cons, Set.union_assoc, Set.union_comm (cover l₂)]

/-- An interval ends before another one starts. -/
theorem apart_iff (hi : i.1 < i.2) (hj : j.1 < j.2) :
  i.2 < j.1 ↔ i.1 < j.1 ∧ Disjoint (Set.Ico i.1 i.2) (Set.Ico j.1 j.2) ∧ i.2 ≠ j.1
  := by
  constructor
  · intro h
    refine ⟨hi.trans h, ?_, h.ne⟩
    rw [Set.disjoint_left]
    intro x hx hx'
    apply lt_irrefl x (hx.2.trans (h.trans_le hx'.1))
  · rintro ⟨hlt, hdisjoint, hne⟩
    apply lt_of_le_of_ne _ hne
    by_contra hle
    rw [not_le] at hle
    have hmem : j.1 ∈ Set.Ico i.1 i.2 := ⟨hlt.le, hle⟩
    apply Set.disjoint_left.mp hdisjoint hmem ⟨le_rfl, hj⟩

end Intervals
