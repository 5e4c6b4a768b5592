import Mathlib.Logic.Basic

/-!
# Transition systems

A transition system has start states and steps labelled by actions.  `T.Reachable ok s`
says that `s` is reached from a start state by steps each of which the condition `ok`
allows in the state it is taken from; `T.Reachable (fun _ _ => True)` is plain
reachability.  A predicate that holds of the start states and is kept by the allowed
steps holds of every state so reached (`Reachable.invariant`).  A system whose steps another
system follows has no more runs than the other (`Reachable.simulation`).  `T.startAt s₀` is the system
`T` from the state `s₀` on.
-/

/-- A transition system on the states `σ` with actions `α`. -/
structure System (σ : Type*) (α : Type*) where
  /-- The start states. -/
  start : σ → Prop
  /-- `step s a s'`: the action `a` leads from `s` to `s'`. -/
  step : σ → α → σ → Prop

namespace System

variable {σ α : Type*} {T : System σ α} {ok ok' : σ → α → Prop} {s s' : σ}

/-- `T.Reachable ok s`: the state `s` is reached from a start state by steps allowed by
`ok`. -/
inductive Reachable (T : System σ α) (ok : σ → α → Prop) : σ → Prop where
  | start {s : σ} : T.start s → Reachable T ok s
  | step {s s' : σ} {a : α} : Reachable T ok s → ok s a → T.step s a s' → Reachable T ok s'

/-- A predicate that holds of the start states and is kept by the allowed steps holds of
every state reached by allowed steps. -/
theorem Reachable.invariant {I : σ → Prop} (h : T.Reachable ok s)
    (hstart : ∀ s, T.start s → I s)
    (hstep : ∀ s a s', I s → ok s a → T.step s a s' → I s') :
  I s
  := by
  induction h with
  | start h => apply hstart _ h
  | step _ hok hs ih => apply hstep _ _ _ ih hok hs

/-- A weaker condition on the steps allows more runs. -/
theorem Reachable.mono (h : T.Reachable ok s) (hok : ∀ s a, ok s a → ok' s a) :
  T.Reachable ok' s
  := by
  induction h with
  | start h => apply Reachable.start h
  | step _ hs hst ih => apply Reachable.step ih (hok _ _ hs) hst

/-- The runs of a system from the state `s₀` on. -/
def startAt (T : System σ α) (s₀ : σ) : System σ α := { T with start := fun s => s = s₀ }

/-- A run goes on from a state that is reached. -/
theorem Reachable.startAt {s₀ : σ} (h₀ : T.Reachable ok s₀) (h : (T.startAt s₀).Reachable ok' s)
    (hok : ∀ s a, ok' s a → ok s a) :
  T.Reachable ok s
  := by
  induction h with
  | start h =>
      cases h
      apply h₀
  | step _ hs hst ih => apply Reachable.step ih (hok _ _ hs) hst

/-- A relation to the states of another system that is kept by the steps of the two: every run of
the one has a run of the other. -/
theorem Reachable.simulation {τ : Type*} {U : System τ α} {R : σ → τ → Prop}
    {okU : τ → α → Prop} (h : T.Reachable ok s)
    (hstart : ∀ s, T.start s → ∃ t, U.start t ∧ R s t)
    (hstep : ∀ s a s' t, R s t → ok s a → T.step s a s' → okU t a ∧ ∃ t', U.step t a t' ∧ R s' t') :
  ∃ t, U.Reachable okU t ∧ R s t
  := by
  induction h with
  | start h =>
      obtain ⟨t, ht, hR⟩ := hstart _ h
      exact ⟨t, Reachable.start ht, hR⟩
  | step _ hok hs ih =>
      obtain ⟨t, ht, hR⟩ := ih
      obtain ⟨hokU, t', ht', hR'⟩ := hstep _ _ _ t hR hok hs
      exact ⟨t', Reachable.step ht hokU ht', hR'⟩

end System
