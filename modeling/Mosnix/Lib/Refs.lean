import Mathlib.Algebra.BigOperators.Group.Finset.Basic
import Mathlib.Data.Fintype.Card
import Mathlib.Tactic

/-!
# References

A family `x` of slots, each of which may refer to an object.  `refs x a` is the number of slots
that refer to `a`, and `held x` is the list of the objects that the slots of a finite family refer
to.  A store to one slot changes them by the old and by the new contents of the slot.
-/

namespace Refs

variable {ι α : Type*} [Fintype ι] [DecidableEq α]

/-- The number of slots that refer to `a`. -/
def refs (x : ι → Option α) (a : α) : ℕ :=
  ∑ i, if x i = some a then 1 else 0

/-- The number of references after an update. -/
theorem refs_update [DecidableEq ι] (x : ι → Option α) (i : ι) (v : Option α) (a : α) :
  refs (Function.update x i v) a + (if x i = some a then 1 else 0)
    = refs x a + (if v = some a then 1 else 0)
  := by
  have hrest : ∑ j ∈ Finset.univ.erase i, (if Function.update x i v j = some a then 1 else 0)
      = ∑ j ∈ Finset.univ.erase i, (if x j = some a then 1 else 0) := by
    apply Finset.sum_congr rfl
    intro j hj
    rw [Function.update_of_ne (Finset.ne_of_mem_erase hj)]
  rw [refs, refs, ← Finset.add_sum_erase _ _ (Finset.mem_univ i),
    ← Finset.add_sum_erase _ _ (Finset.mem_univ i), hrest, Function.update_self]
  ring

/-- There are at most as many references as indices. -/
theorem refs_le_card (x : ι → Option α) (a : α) : refs x a ≤ Fintype.card ι := by
  rw [refs, ← Finset.card_filter]
  apply Finset.card_le_univ

theorem refs_pos {x : ι → Option α} {i : ι} {a : α} (h : x i = some a) : 0 < refs x a := by
  rw [refs]
  apply Finset.sum_pos'
  · simp
  · exact ⟨i, Finset.mem_univ i, by simp [h]⟩

section Held

variable {n : ℕ}

/-- The objects that the slots refer to, in the order of the slots. -/
def held (x : Fin n → Option α) : List α :=
  (List.finRange n).filterMap x

/-- An object is held as often as it is referred to. -/
theorem count_held (x : Fin n → Option α) (a : α) : (held x).count a = refs x a := by
  rw [held, refs, Fin.sum_univ_def, List.count_filterMap]
  induction List.finRange n with
  | nil => rfl
  | cons i l ih =>
      rw [List.countP_cons, ih, List.map_cons, List.sum_cons, add_comm]
      simp

theorem mem_held {x : Fin n → Option α} {i : Fin n} {a : α} (h : x i = some a) : a ∈ held x := by
  rw [← List.count_pos_iff, count_held]
  apply refs_pos h

omit [DecidableEq α] in
theorem held_none : held (fun _ : Fin n => (none : Option α)) = [] := by
  simp [held]

/-- What is held after an update. -/
theorem held_update (x : Fin n → Option α) (i : Fin n) (v : Option α) :
  (held (Function.update x i v) ++ (x i).toList).Perm (held x ++ v.toList)
  := by
  have hcount (w : Option α) (a : α) : w.toList.count a = if w = some a then 1 else 0 := by
    cases w with
    | none => simp
    | some b => simp [List.count_singleton]
  rw [List.perm_iff_count]
  intro a
  rw [List.count_append, List.count_append, count_held, count_held, hcount, hcount, refs_update]

/-- The objects that the slots refer to, with those of one slot first. -/
theorem held_perm (x : Fin n → Option α) (i : Fin n) :
  (held x).Perm ((x i).toList ++ held (Function.update x i none))
  := by
  have hperm := held_update x i none
  rw [Option.toList_none, List.append_nil] at hperm
  apply hperm.symm.trans List.perm_append_comm

end Held

end Refs
