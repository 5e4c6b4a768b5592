import Mathlib.Logic.Relation

/-!
# What every run comes to

A relation `step` may have several steps from a state, or none.  `Inevitably step Q a` says that every
run from `a` comes to a state with the property `Q`, and that no run stops before it: as long as it
has not come to such a state there is a step, and every step is towards one.
-/

variable {α : Type*} {step : α → α → Prop} {P Q : α → Prop} {a b : α}

/-- Every run from a state comes to a state with the property `Q`. -/
inductive Inevitably (step : α → α → Prop) (Q : α → Prop) : α → Prop where
  | done {a : α} : Q a → Inevitably step Q a
  | later {a : α} : (∃ b, step a b) → (∀ b, step a b → Inevitably step Q b) → Inevitably step Q a

namespace Inevitably

/-- Runs in sequence. -/
theorem trans (h : Inevitably step P a) (hPQ : ∀ b, P b → Inevitably step Q b) :
  Inevitably step Q a
  := by
  induction h with
  | done hP => apply hPQ _ hP
  | later hstep _ ih => apply later hstep ih

/-- The only step from a state. -/
theorem next (hstep : step a b) (hunique : ∀ c, step a c → c = b) (h : Inevitably step Q b) :
  Inevitably step Q a
  := by
  apply later ⟨b, hstep⟩
  intro c hc
  rw [hunique c hc]
  exact h

/-- There is a run to a state with the property. -/
theorem exists_run (h : Inevitably step Q a) : ∃ b, Relation.ReflTransGen step a b ∧ Q b := by
  induction h with
  | done hQ => exact ⟨_, .refl, hQ⟩
  | later hstep _ ih =>
      obtain ⟨b, hb⟩ := hstep
      obtain ⟨c, hc, hQ⟩ := ih b hb
      exact ⟨c, .head hb hc, hQ⟩

/-- A run that has come to an end has come to a state with the property, if it ends there. -/
theorem of_end (h : Inevitably step Q a) (hQ : ∀ b c, Q b → ¬ step b c)
    (hrun : Relation.ReflTransGen step a b) (hend : ∀ c, ¬ step b c) :
  Q b
  := by
  induction h with
  | done hQa =>
      obtain rfl | ⟨c, hc, -⟩ := hrun.cases_head
      · exact hQa
      · exact absurd hc (hQ _ _ hQa)
  | later hstep _ ih =>
      obtain rfl | ⟨c, hc, hcb⟩ := hrun.cases_head
      · obtain ⟨c, hc⟩ := hstep
        exact absurd hc (hend c)
      · apply ih c hc hcb

/-- A loop that every run leaves by a state with the property `P`, or stays in: a run that has come to
an end has left it. -/
theorem loop {I : α → Prop} (hround : ∀ a, I a → (∃ b, step a b)
      ∧ ∀ b, step a b → Inevitably step (fun c => I c ∨ P c) b)
    (hI : I a) (hrun : Relation.ReflTransGen step a b) (hend : ∀ c, ¬ step b c) :
  ∃ c, P c ∧ Relation.ReflTransGen step c b
  := by
  have hstuck (hIb : I b) : False := by
    obtain ⟨c, hc⟩ := (hround b hIb).1
    exact hend c hc
  suffices hrun' : ∀ a, Relation.ReflTransGen step a b → Inevitably step (fun c => I c ∨ P c) a →
      ∃ c, P c ∧ Relation.ReflTransGen step c b from hrun' a hrun (done (.inl hI))
  intro a hrun
  induction hrun using Relation.ReflTransGen.head_induction_on with
  | refl =>
      intro hinev
      cases hinev with
      | done h =>
          obtain hIb | hPb := h
          · exact (hstuck hIb).elim
          · exact ⟨b, hPb, .refl⟩
      | later hstep _ =>
          obtain ⟨c, hc⟩ := hstep
          exact absurd hc (hend c)
  | @head a a' hstep hrest ih =>
      intro hinev
      cases hinev with
      | done h =>
          obtain hIa | hPa := h
          · exact ih ((hround a hIa).2 a' hstep)
          · exact ⟨a, hPa, .head hstep hrest⟩
      | later _ hlater => exact ih (hlater a' hstep)

end Inevitably
