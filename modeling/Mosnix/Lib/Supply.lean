import Mathlib.Data.List.Basic
import Mathlib.Tactic

/-!
# Supplies of items

A supply in the state `t` has a next item, and is in another state once that item was taken.  The
search `poll` takes items until one passes a test, but not more than a given number; `Finds` says the
same of the items themselves.
-/

namespace Supply

variable {α τ : Type} (next : τ → α × τ)

/-- The next `n` items. -/
def items : ℕ → τ → List α
  | 0, _ => []
  | n + 1, t => (next t).1 :: items n (next t).2

/-- The state after `n` items were taken. -/
def skip : ℕ → τ → τ
  | 0, t => t
  | n + 1, t => skip n (next t).2

theorem length_items (n : ℕ) (t : τ) : (items next n t).length = n := by
  induction n generalizing t with
  | zero => rfl
  | succ n ih => rw [items, List.length_cons, ih]

/-- Take items until one passes a test, at most `n` many: that item. -/
def poll (test : α → Bool) : ℕ → τ → Option α × τ
  | 0, t => (none, t)
  | n + 1, t => if test (next t).1 then (some (next t).1, (next t).2) else poll test n (next t).2

/-- Among the next `n` items, `a` is the first one that passes a test, and the state after it is
`t'`. -/
def Finds (test : α → Bool) (n : ℕ) (t : τ) (a : α) (t' : τ) : Prop :=
  ∃ before : List α, before.length < n ∧ (∀ b ∈ before, test b = false) ∧ test a = true ∧
    items next (before.length + 1) t = before ++ [a] ∧ t' = skip next (before.length + 1) t

variable {next} {test : α → Bool} {n : ℕ} {t t' : τ} {a : α}

theorem not_finds_zero : ¬ Finds next test 0 t a t' := by
  rintro ⟨before, hlt, -⟩
  omega

/-- The first item passes the test, or it does not and a later one is the first to pass it. -/
theorem finds_succ :
  Finds next test (n + 1) t a t' ↔
    test (next t).1 = true ∧ a = (next t).1 ∧ t' = (next t).2 ∨
    test (next t).1 = false ∧ Finds next test n (next t).2 a t'
  := by
  constructor
  · rintro ⟨before, hlt, hbefore, ha, hitems, hskip⟩
    cases before with
    | nil =>
        have ha' : (next t).1 = a := (List.cons.inj hitems).1
        left
        exact ⟨ha' ▸ ha, ha'.symm, hskip⟩
    | cons b before =>
        obtain ⟨hb, hitems⟩ := List.cons.inj hitems
        right
        refine ⟨hb ▸ hbefore b List.mem_cons_self, before, ?_, ?_, ha, hitems, hskip⟩
        · apply Nat.lt_of_succ_lt_succ hlt
        · intro c hc
          apply hbefore c (List.mem_cons_of_mem b hc)
  · rintro (⟨htest, rfl, rfl⟩ | ⟨htest, before, hlt, hbefore, ha, hitems, hskip⟩)
    · exact ⟨[], Nat.succ_pos n, by simp, htest, rfl, rfl⟩
    · refine ⟨(next t).1 :: before, Nat.succ_lt_succ hlt, ?_, ha, ?_, hskip⟩
      · intro c hc
        obtain rfl | hc := List.mem_cons.mp hc
        · apply htest
        · apply hbefore c hc
      · apply congrArg ((next t).1 :: ·) hitems

/-- The search finds the first item that passes the test. -/
theorem poll_eq_some_iff : poll next test n t = (some a, t') ↔ Finds next test n t a t' := by
  induction n generalizing t with
  | zero =>
      apply iff_of_false _ not_finds_zero
      rintro ⟨⟩
  | succ n ih =>
      rw [finds_succ, poll]
      cases htest : test (next t).1 with
      | false => simp [ih]
      | true => simp [Prod.ext_iff, eq_comm]

/-- The first item that passes the test is unique. -/
theorem Finds.unique {b : α} {t'' : τ} (h : Finds next test n t a t')
    (h' : Finds next test n t b t'') :
  a = b ∧ t' = t''
  := by
  have heq : (some a, t') = (some b, t'') :=
    (poll_eq_some_iff.mpr h).symm.trans (poll_eq_some_iff.mpr h')
  exact ⟨Option.some.inj (congrArg Prod.fst heq), congrArg Prod.snd heq⟩

/-- What the search finds, if it finds anything. -/
theorem poll_cases (next : τ → α × τ) (test : α → Bool) (n : ℕ) (t : τ) :
  (∃ a, (poll next test n t).1 = some a ∧ Finds next test n t a (poll next test n t).2) ∨
  (poll next test n t).1 = none ∧ ∀ a t', ¬ Finds next test n t a t'
  := by
  cases hpoll : (poll next test n t).1 with
  | none =>
      right
      refine ⟨rfl, ?_⟩
      intro a t' h
      rw [poll_eq_some_iff.mpr h] at hpoll
      cases hpoll
  | some a =>
      left
      refine ⟨a, rfl, ?_⟩
      rw [← poll_eq_some_iff, ← hpoll]

end Supply
