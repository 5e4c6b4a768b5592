import Mathlib.Control.Monad.Basic
import Mathlib.Tactic

/-!
# Stateful programs that can fault

A program on the states `σ` with results in `α` takes a state to a result and a new state, or
faults.  `Ends m s Q` says that the program `m` does not fault in the state `s`, and ends with a
result and a state that satisfy `Q`; `Ensures m s Q` says that it faults or ends so; `Comes m s P` says
that it goes on with a program and a state that satisfy `P`; `Keeps f m` says that `m` changes nothing
that `f` reads off the state.  `Leads stuck P m Q` says that `m` leads from
the states with `P` to states with `Q`, and faults only if `stuck`: it is partial correctness if
`stuck` is true, and total correctness if it is false.  The rules of this module cover the
constructions that programs are made of.
-/

/-- A program on the states `σ` with results in `α`. -/
abbrev Program (σ α : Type) := StateT σ Option α

namespace Program

variable {σ τ α β : Type} {m : Program σ α} {f : α → Program σ β} {s : σ} {P : α → σ → Prop}
  {Q : β → σ → Prop}

/-- A program that faults. -/
def fault : Program σ α := fun _ => none

/-- A program on a part of the state that does not fault. -/
def onPart (part : σ → τ) (put : σ → τ → σ) (g : τ → α × τ) : Program σ α := fun s =>
  some ((g (part s)).1, put s (g (part s)).2)

/-- A program on a part of the state. -/
def zoom (part : σ → τ) (put : σ → τ → σ) (m : Program τ α) : Program σ α := fun s =>
  (m (part s)).map fun r => (r.1, put s r.2)

variable {a : α} {s' : σ} {g : Unit → Program σ β}

/-- A sequence of two programs, of which the first is known to end in one way. -/
theorem bind_eq (hm : m s = some (a, s')) : (m >>= f) s = f a s' := by
  change (m s).bind (fun p => f p.1 p.2) = _
  rw [hm]
  rfl

/-- A program whose result is not used. -/
theorem discard_eq (hm : m s = some (a, s')) :
  (Functor.discard m) s = some ((), s')
  := by
  change (m s).bind (fun p => some ((), p.2)) = _
  rw [hm]
  rfl

/-- The state in which a program ends. -/
def endState (m : Program σ α) (s : σ) : σ := (m s).elim s Prod.snd

/-- The end of a program with a known result. -/
theorem eq_of_result (h : (m s).map Prod.fst = some a) : m s = some (a, m.endState s) := by
  obtain ⟨r, hr, rfl⟩ := Option.map_eq_some_iff.mp h
  rw [endState, hr]
  rfl

/-- The program `m` does not fault in the state `s`, and ends with `Q`. -/
def Ends (m : Program σ α) (s : σ) (Q : α → σ → Prop) : Prop :=
  ∃ a s', m s = some (a, s') ∧ Q a s'

namespace Ends

theorem pure (h : P a s) : Ends (Pure.pure a) s P :=
  ⟨a, s, rfl, h⟩

/-- A sequence of two programs. -/
theorem bind (h : Ends m s P) (hf : ∀ a s', P a s' → Ends (f a) s' Q) : Ends (m >>= f) s Q := by
  obtain ⟨a, s', hm, hP⟩ := h
  obtain ⟨b, s'', hfa, hQ⟩ := hf a s' hP
  refine ⟨b, s'', ?_, hQ⟩
  rw [bind_eq hm, hfa]

/-- A sequence of two programs, of which the first is known to end in one way. -/
theorem bind_of_eq (hm : m s = some (a, s')) (h : Ends (f a) s' Q) :
  Ends (m >>= f) s Q
  := by
  apply bind (P := fun a' s'' => a' = a ∧ s'' = s') ⟨a, s', hm, rfl, rfl⟩
  rintro _ _ ⟨rfl, rfl⟩
  apply h

/-- The postcondition is weakened. -/
theorem mono {Q : α → σ → Prop} (h : Ends m s P) (hPQ : ∀ a s', P a s' → Q a s') :
  Ends m s Q
  := by
  obtain ⟨a, s', hm, hP⟩ := h
  exact ⟨a, s', hm, hPQ a s' hP⟩

/-- A program whose result is not used. -/
theorem discard {Q : Unit → σ → Prop} (h : Ends m s fun _ s' => Q () s') :
  Ends (Functor.discard m) s Q
  := by
  obtain ⟨a, s', hm, hQ⟩ := h
  exact ⟨(), s', discard_eq hm, hQ⟩

/-- A program whose result is not used. -/
theorem bind_discard (h : Ends m s P) (hg : ∀ a s', P a s' → Ends (g ()) s' Q) :
  Ends (Functor.discard m >>= g) s Q
  := by
  apply bind (P := fun _ s' => ∃ a, P a s')
  · apply discard
    apply h.mono
    intro a s' hP
    exact ⟨a, hP⟩
  · rintro ⟨⟩ s' ⟨a, hP⟩
    apply hg a s' hP

theorem bind_discard_of_eq (hm : m s = some (a, s')) (h : Ends (g ()) s' Q) :
  Ends (Functor.discard m >>= g) s Q
  := by
  apply bind_discard (P := fun _ s'' => s'' = s') ⟨a, s', hm, rfl⟩
  rintro _ _ rfl
  apply h

/-- A sequence of two programs, of which the second faults. -/
theorem bind_fault (h : Ends m s P) (hf : ∀ a s', P a s' → f a s' = none) : (m >>= f) s = none := by
  obtain ⟨a, s', hm, hP⟩ := h
  rw [bind_eq hm, hf a s' hP]

theorem bind_fault_of_eq (hm : m s = some (a, s')) (h : f a s' = none) :
  (m >>= f) s = none
  := by
  rw [bind_eq hm, h]

theorem modify {g : σ → σ} {P : Unit → σ → Prop} (h : P () (g s)) :
  Ends (modifyThe σ g) s P
  :=
  ⟨(), g s, rfl, h⟩

/-- A program that runs on a part of the state. -/
theorem zoom {part : σ → τ} {put : σ → τ → σ} {m : Program τ α}
    (h : Ends m (part s) fun a t => P a (put s t)) :
  Ends (Program.zoom part put m) s P
  := by
  obtain ⟨a, t, hm, hP⟩ := h
  refine ⟨a, put s t, ?_, hP⟩
  rw [Program.zoom, hm]
  rfl

end Ends

/-- A sequence of two programs, of which the first faults. -/
theorem bind_discard_fault (h : m s = none) :
  (Functor.discard m >>= g) s = none
  := by
  change ((m s).bind fun p => some ((), p.2)).bind (fun p => g p.1 p.2) = _
  rw [h]
  rfl

/-- If the program `m` does not fault in the state `s` then it ends with `Q`. -/
def Ensures (m : Program σ α) (s : σ) (Q : α → σ → Prop) : Prop :=
  m s = none ∨ Ends m s Q

/-- A program that ends ensures its postcondition. -/
theorem Ends.ensures (h : Ends m s P) : Ensures m s P := Or.inr h

/-- A program that does not fault ends as it ensures. -/
theorem Ends.and {P' : α → σ → Prop} (h : Ends m s P) (h' : Ensures m s P') :
  Ends m s fun a s' => P a s' ∧ P' a s'
  := by
  obtain ⟨a, s', hm, hP⟩ := h
  obtain hnone | ⟨a', s'', hm', hP'⟩ := h'
  · rw [hm] at hnone
    cases hnone
  · rw [hm] at hm'
    cases hm'
    exact ⟨a, s', hm, hP, hP'⟩

namespace Ensures

/-- The postcondition holds if the program ends. -/
theorem of_eq (h : Ensures m s P) (heq : m s = some (a, s')) : P a s' := by
  obtain hm | ⟨a', s'', hm, hP⟩ := h
  · rw [heq] at hm
    cases hm
  · rw [heq] at hm
    cases hm
    apply hP

/-- What holds of every result is ensured. -/
theorem of_forall (h : ∀ a s', m s = some (a, s') → P a s') : Ensures m s P := by
  cases hm : m s with
  | none =>
      left
      apply hm
  | some r =>
      right
      exact ⟨r.1, r.2, hm, h _ _ hm⟩

theorem pure (h : P a s) : Ensures (Pure.pure a) s P := (Ends.pure h).ensures

/-- A fault ensures everything. -/
theorem fault : Ensures (Program.fault : Program σ α) s P := Or.inl rfl

/-- A sequence of two programs. -/
theorem bind (h : Ensures m s P) (hf : ∀ a s', P a s' → Ensures (f a) s' Q) :
  Ensures (m >>= f) s Q
  := by
  obtain hm | ⟨a, s', hm, hP⟩ := h
  · left
    change (m s).bind (fun p => f p.1 p.2) = _
    rw [hm]
    rfl
  · obtain hfa | hends := hf a s' hP
    · left
      rw [bind_eq hm, hfa]
    · right
      apply Ends.bind_of_eq hm hends

/-- A sequence of two programs, of which the first may end in any way. -/
theorem bind_of_forall (h : ∀ a s', m s = some (a, s') → Ensures (f a) s' Q) :
  Ensures (m >>= f) s Q
  := by
  apply bind (P := fun a s' => m s = some (a, s')) _ h
  apply of_forall
  intro a s' hm
  apply hm

/-- A sequence of two programs, of which the first is known to end in one way. -/
theorem bind_of_eq (hm : m s = some (a, s')) (h : Ensures (f a) s' Q) :
  Ensures (m >>= f) s Q
  := by
  apply bind (P := fun a' s'' => a' = a ∧ s'' = s')
  · right
    exact ⟨a, s', hm, rfl, rfl⟩
  · rintro _ _ ⟨rfl, rfl⟩
    apply h

/-- A program that reads the state. -/
theorem get_bind {g : σ → Program σ α} (h : Ensures (g s) s P) :
  Ensures ((get : Program σ σ) >>= g) s P
  := h

theorem mono {Q : α → σ → Prop} (h : Ensures m s P) (hPQ : ∀ a s', P a s' → Q a s') :
  Ensures m s Q
  :=
  h.imp_right fun hends => hends.mono hPQ

theorem discard {Q : Unit → σ → Prop} (h : Ensures m s fun _ s' => Q () s') :
  Ensures (Functor.discard m) s Q
  := by
  obtain hm | hends := h
  · left
    change (m s).bind (fun p => some ((), p.2)) = _
    rw [hm]
    rfl
  · right
    apply hends.discard

theorem bind_discard (h : Ensures m s P) (hg : ∀ a s', P a s' → Ensures (g ()) s' Q) :
  Ensures (Functor.discard m >>= g) s Q
  := by
  apply bind (P := fun _ s' => ∃ a, P a s')
  · apply discard
    apply h.mono
    intro a s' hP
    exact ⟨a, hP⟩
  · rintro ⟨⟩ s' ⟨a, hP⟩
    apply hg a s' hP

theorem zoom {part : σ → τ} {put : σ → τ → σ} {m : Program τ α}
    (h : Ensures m (part s) fun a t => P a (put s t)) :
  Ensures (Program.zoom part put m) s P
  := by
  obtain hm | hends := h
  · left
    rw [Program.zoom, hm]
    rfl
  · right
    apply hends.zoom

end Ensures

/-- The program `m` comes from the state `s` to a program and a state with `P`, which then end as it
does. -/
def Comes (m : Program σ α) (s : σ) (P : Program σ α → σ → Prop) : Prop :=
  ∃ m' s', P m' s' ∧ m s = m' s'

namespace Comes

variable {R : Program σ β → σ → Prop} {S : Program σ α → σ → Prop}

theorem refl (h : S m s) : Comes m s S := ⟨m, s, h, rfl⟩

/-- A sequence of two programs, of which the first is known to end in one way. -/
theorem bind_of_eq (hm : m s = some (a, s')) (h : Comes (f a) s' R) :
  Comes (m >>= f) s R
  := by
  obtain ⟨m', s'', hR, heq⟩ := h
  exact ⟨m', s'', hR, (bind_eq hm).trans heq⟩

theorem ends (h : Comes m s S) (hP : ∀ m' s', S m' s' → Ends m' s' P) : Ends m s P := by
  obtain ⟨m', s', hS, heq⟩ := h
  obtain ⟨a, s'', hm, ha⟩ := hP m' s' hS
  exact ⟨a, s'', heq.trans hm, ha⟩

/-- What holds of the parts that remain holds of the program. -/
theorem ensures (h : Comes m s S) (hP : ∀ m' s', S m' s' → Ensures m' s' P) : Ensures m s P := by
  obtain ⟨m', s', hS, heq⟩ := h
  rw [Ensures, heq]
  apply (hP m' s' hS).imp_right
  rintro ⟨a, s'', hm, ha⟩
  exact ⟨a, s'', heq.trans hm, ha⟩

end Comes

/-- The program `m` changes nothing that `f` reads off the state. -/
def Keeps {γ : Type*} (f : σ → γ) (m : Program σ α) : Prop :=
  ∀ s, Ensures m s fun _ s' => f s' = f s

namespace Keeps

variable {γ δ : Type*} {k : σ → γ}

theorem of_eq (h : Keeps k m) (hm : m s = some (a, s')) : k s' = k s :=
  (h s).of_eq hm

/-- What is read off the part that is kept is kept. -/
theorem comp (h : Keeps k m) (g : γ → δ) : Keeps (fun s => g (k s)) m := by
  intro s
  apply (h s).mono
  intro _ _ hs
  apply congrArg g hs

end Keeps

/-- The program `m` leads from states with `A` to states with `B`, and faults only if `stuck`. -/
def Leads (stuck : Prop) (A : σ → Prop) (m : Program σ α) (B : σ → Prop) : Prop :=
  ∀ s, A s → Ends m s (fun _ s' => B s') ∨ stuck ∧ m s = none

namespace Leads

variable {stuck : Prop} {A B C : σ → Prop}

theorem ensures (h : Leads stuck A m B) (hA : A s) : Ensures m s fun _ s' => B s' := by
  obtain hends | ⟨-, hm⟩ := h s hA
  · right
    apply hends
  · left
    apply hm

theorem ends (h : Leads stuck A m B) (hstuck : ¬ stuck) (hA : A s) : Ends m s fun _ s' => B s' :=
  (h s hA).resolve_right fun hs => hstuck hs.1

theorem pure : Leads stuck A (Pure.pure a : Program σ α) A :=
  fun _ hA => Or.inl (Ends.pure hA)

theorem modify {g : σ → σ} (h : ∀ s, A s → B (g s)) : Leads stuck A (modifyThe σ g) B :=
  fun s hA => Or.inl (Ends.modify (h s hA))

/-- A sequence of two programs. -/
theorem bind (h : Leads stuck A m B) (hf : ∀ a, Leads stuck B (f a) C) :
  Leads stuck A (m >>= f) C
  := by
  intro s hA
  obtain ⟨a, s', hm, hB⟩ | ⟨hstuck, hm⟩ := h s hA
  · have heq : (m >>= f) s = f a s' := bind_eq hm
    obtain ⟨b, s'', hfa, hC⟩ | ⟨hstuck, hfa⟩ := hf a s' hB
    · left
      exact ⟨b, s'', heq.trans hfa, hC⟩
    · right
      exact ⟨hstuck, heq.trans hfa⟩
  · right
    refine ⟨hstuck, ?_⟩
    change (m s).bind (fun p => f p.1 p.2) = _
    rw [hm]
    rfl

/-- A program that reads the state. -/
theorem get_bind {g : σ → Program σ α} (h : ∀ s, Leads stuck A (g s) B) :
  Leads stuck A ((get : Program σ σ) >>= g) B
  := fun s => h s s

theorem ite {c : Prop} [Decidable c] {m' : Program σ α} (h : Leads stuck A m B)
    (h' : Leads stuck A m' B) :
  Leads stuck A (if c then m else m') B
  := by
  split_ifs
  · apply h
  · apply h'

theorem mono {A' B' : σ → Prop} (h : Leads stuck A m B) (hA : ∀ s, A' s → A s)
    (hB : ∀ s, B s → B' s) :
  Leads stuck A' m B'
  := by
  intro s hs
  apply (h s (hA s hs)).imp_left
  intro hends
  apply hends.mono
  intro _ s' hs'
  apply hB s' hs'

/-- A program that is not stuck does not fault. -/
theorem of_total (h : Leads False A m B) : Leads stuck A m B :=
  fun _ hA => Or.inl (h.ends not_false hA)

/-- A program that may fault. -/
theorem weaken (h : Leads stuck A m B) : Leads True A m B :=
  fun s hA => (h s hA).imp_right fun hm => ⟨trivial, hm.2⟩

end Leads

/-- A program that leads from each value of `k` to the same one. -/
theorem Keeps.of_leads {γ : Type*} {k : σ → γ} (h : ∀ c, Leads True (k · = c) m (k · = c)) :
  Keeps k m
  := fun s => (h (k s)).ensures rfl

end Program
