import Mosnix.Sched.Sem

/-!
# The queue invariant of the scheduler

In every reachable state of the scheduler a process is running exactly when it is on the
run queue, and asleep exactly when it is on the waiting list of the semaphore it waits
for; no process is on two queues, and a semaphore with a waiting process has the value
`0`.  `ProcOk` is what the invariant says of one process, and `Inv` is the invariant.
-/

open TailQueue

namespace Mosnix.Sched

variable {P S : Type*}

variable {m : S} {p : P} {s' : State P S} {r : Proc S}

namespace State

variable [DecidableEq P]

@[simp]
theorem setProc_proc_self (s : State P S) (p : P) (f : Proc S → Proc S) :
  (s.setProc p f).proc p = f (s.proc p)
  := by
  simp [setProc]

theorem setProc_proc_of_ne (s : State P S) {p' : P} (h : p' ≠ p) (f : Proc S → Proc S) :
  (s.setProc p f).proc p' = s.proc p'
  := by
  simp [setProc, Function.update_of_ne h]

@[simp]
theorem setProc_halted (s : State P S) (p : P) (f : Proc S → Proc S) :
  (s.setProc p f).halted = s.halted
  := rfl

end State

/-- The fields `r` of the process `p` agree with the queues it is on. -/
structure ProcOk (q : Queue S → List P) (p : P) (r : Proc S) : Prop where
  running : r.state = .running ↔ p ∈ q .runnable
  sleep : r.state = .sleep ↔ ∃ m, p ∈ q (.waiters m)
  waiting : ∀ m, p ∈ q (.waiters m) → r.waitSem = some m
  awake : r.state ≠ .sleep → r.waitSem = none

/-- The queue invariant, for the queues `q` that the store holds. -/
structure Inv (s : State P S) (q : Queue S → List P) : Prop where
  holds : Holds s.queues q
  proc : ∀ p, ProcOk q p (s.proc p)
  value : ∀ m, q (.waiters m) ≠ [] → s.value m = 0
  current : s.halted = false → ∀ p, s.currentProc = some p → (s.proc p).state = .running

/-- The fields of a process agree with any queues that hold it as before. -/
theorem ProcOk.congr {q q' : Queue S → List P} (h : ProcOk q p r) (hq : ∀ k, p ∈ q' k ↔ p ∈ q k) :
  ProcOk q' p r
  := by
  constructor
  · rw [hq]
    apply h.running
  · simp only [hq]
    apply h.sleep
  · intro m hm
    apply h.waiting m ((hq _).mp hm)
  · apply h.awake

/-- The fields of a process that is only on the run queue. -/
theorem ProcOk.of_runnable {q : Queue S → List P} (hq : ∀ k, p ∈ q k ↔ k = .runnable)
    (hr : r.state = .running) (hw : r.waitSem = none) :
  ProcOk q p r
  := by
  constructor
  · simp [hr, hq]
  · simp [hr, hq]
  · simp [hq]
  · simp [hw]

/-- The fields of a process that is only on the waiting list of `m`. -/
theorem ProcOk.of_waiters {q : Queue S → List P} (hq : ∀ k, p ∈ q k ↔ k = .waiters m)
    (hr : r.state = .sleep) (hw : r.waitSem = some m) :
  ProcOk q p r
  := by
  constructor
  · simp [hr, hq]
  · simp [hr, hq]
  · intro m' hm'
    rw [hq, Queue.waiters.injEq] at hm'
    rw [hw, hm']
  · simp [hr]

/-! ### The operations keep the invariant -/

namespace Inv

variable {s : State P S} {q : Queue S → List P}

variable (h : Inv s q)

include h

/-- An unused process is on no queue. -/
theorem notMem_of_unused (hp : (s.proc p).state = .unused) (k : Queue S) :
  p ∉ q k
  := by
  intro hk
  cases k with
  | runnable =>
      have := (h.proc p).running.mpr hk
      rw [hp] at this
      cases this
  | waiters m =>
      have := (h.proc p).sleep.mpr ⟨m, hk⟩
      rw [hp] at this
      cases this

/-- No process waits for a semaphore with a non-zero value. -/
theorem waiters_eq_nil (hm : s.value m ≠ 0) :
  q (.waiters m) = []
  := by
  by_contra hne
  apply hm (h.value m hne)

omit h in
/-- `schedule` keeps the invariant up to the demand that the current process is running,
which it establishes. -/
theorem schedule_of_running {s : State P S} (holds : Holds s.queues q)
    (proc : ∀ p, ProcOk q p (s.proc p))
    (value : ∀ m, q (.waiters m) ≠ [] → s.value m = 0) :
  Inv (schedule s) q
  := by
  rw [schedule, holds.first_eq]
  cases hq : q .runnable with
  | nil => exact ⟨holds, proc, value, by simp⟩
  | cons p l =>
      refine ⟨holds, proc, value, ?_⟩
      intro _ p' hp'
      obtain rfl : p = p' := Option.some.inj hp'
      apply (proc p).running.mpr
      simp [hq]

variable [DecidableEq S]

/-- Changing the value of a semaphore for which no process waits. -/
theorem setValue (hm : q (.waiters m) = []) (v : Byte) :
  Inv { s with value := Function.update s.value m v } q
  := by
  constructor
  · apply h.holds
  · apply h.proc
  · intro m' hm'
    have hmm : m' ≠ m := by
      rintro rfl
      apply hm' hm
    simp only [Function.update_of_ne hmm]
    apply h.value m' hm'
  · apply h.current

variable [DecidableEq P]

/-- Making a newly created process runnable. -/
theorem setRunnable (hp : (s.proc p).state = .unused) (hw : (s.proc p).waitSem = none) :
  Inv (schedSetRunnable s p) (Function.update q .runnable (q .runnable ++ [p]))
  := by
  have hnot := h.notMem_of_unused hp
  rw [schedSetRunnable, if_pos (by simp [hp])]
  constructor
  · apply h.holds.insertTail hnot
  · intro p'
    by_cases hpp : p' = p
    · subst hpp
      apply ProcOk.of_runnable
      · intro k
        cases k with
        | runnable => simp
        | waiters m => simp [hnot]
      · simp
      · simpa using hw
    · simp only [State.setProc_proc_of_ne _ hpp]
      apply (h.proc p').congr
      intro k
      cases k with
      | runnable => simp [hpp]
      | waiters m => simp
  · intro m hm
    apply h.value m
    simpa using hm
  · intro hh p' hp'
    by_cases hpp : p' = p
    · subst hpp
      simp
    · simp only [State.setProc_proc_of_ne _ hpp]
      apply h.current hh p' hp'

/-- Waking a process that waits for `m`. -/
theorem wake (hp : p ∈ q (.waiters m)) (ax : ℤ) :
  Inv (wake s m p ax) (move q (.waiters m) .runnable p)
  := by
  have hsleep : (s.proc p).state = .sleep := (h.proc p).sleep.mpr ⟨m, hp⟩
  rw [Sched.wake, schedSetRunnable, if_pos (by simp [hsleep])]
  constructor
  · apply h.holds.move hp
    simp
  · intro p'
    by_cases hpp : p' = p
    · subst hpp
      apply ProcOk.of_runnable (h.holds.mem_move_self hp)
      · simp
      · simp
    · simp only [State.setProc_proc_of_ne _ hpp]
      apply (h.proc p').congr
      intro k
      apply mem_move_of_ne q hpp
  · intro m' hm'
    apply h.value m'
    rintro he
    apply hm'
    by_cases hmm : m' = m
    · subst hmm
      rw [he] at hp
      cases hp
    · simp [move, he, hmm]
  · intro hh p' hp'
    by_cases hpp : p' = p
    · subst hpp
      simp
    · simp only [State.setProc_proc_of_ne _ hpp]
      apply h.current hh p' hp'

/-- What `sem_wakeup` does: it wakes the first process that waits, or sets the value to `1`. -/
theorem semWakeup_cases (m : S) :
  q (.waiters m) = [] ∧ semWakeup s m = { s with value := Function.update s.value m 1 }
    ∨ ∃ p l, q (.waiters m) = p :: l ∧ semWakeup s m = Sched.wake s m p 0
  := by
  rw [semWakeup, h.holds.first_eq]
  cases q (.waiters m) with
  | nil => exact Or.inl ⟨rfl, rfl⟩
  | cons p l => exact Or.inr ⟨p, l, rfl, rfl⟩

/-- `sem_wakeup` keeps the invariant. -/
theorem wakeup (m : S) :
  ∃ q', Inv (semWakeup s m) q'
  := by
  obtain ⟨hq, heq⟩ | ⟨p, l, hq, heq⟩ := h.semWakeup_cases m
  · rw [heq]
    use q
    apply h.setValue hq
  · rw [heq]
    use move q (.waiters m) .runnable p
    apply h.wake
    simp [hq]

/-- `sem_signal` keeps the invariant. -/
theorem signal (m : S) :
  ∃ q', Inv (semSignal s m) q'
  := by
  rw [semSignal]
  split
  case isTrue => apply h.wakeup
  case isFalse hv =>
    use q
    apply h.setValue (h.waiters_eq_nil hv)

/-- `sem_signal_monitor` keeps the invariant. -/
theorem signalMonitor (m : S) :
  ∃ q', Inv (semSignalMonitor s m) q'
  := by
  rw [semSignalMonitor]
  split
  case isTrue => apply h.wakeup
  case isFalse => use q

/-- What `sem_wait` does: it takes a unit, or the current process joins the waiting list. -/
theorem semWait_cases (hh : s.halted = false) {r : Option ℤ} (hs : semWait s m = some (r, s')) :
  s.value m ≠ 0 ∧ r = some 0
      ∧ s' = { s with value := Function.update s.value m (s.value m - 1) }
    ∨ s.value m = 0 ∧ r = none ∧ s'.value = s.value
      ∧ ∃ p, s.currentProc = some p ∧ Inv s' (move q .runnable (.waiters m) p)
  := by
  rw [semWait] at hs
  split at hs
  case isTrue hv =>
    cases hs
    exact Or.inl ⟨hv, rfl, rfl⟩
  case isFalse hv =>
    obtain ⟨p, hp, hs⟩ := Option.map_eq_some_iff.mp hs
    cases hs
    have hrun := h.current hh p hp
    have hmem := (h.proc p).running.mp hrun
    have hvalue (s : State P S) : (schedule s).value = s.value := by
      rw [schedule]
      split <;> rfl
    rw [schedRemoveRunnable, if_pos hrun, hvalue]
    refine Or.inr ⟨not_not.mp hv, rfl, rfl, p, hp, ?_⟩
    apply schedule_of_running
    · apply h.holds.move hmem
      simp
    · intro p'
      by_cases hpp : p' = p
      · subst hpp
        apply ProcOk.of_waiters (h.holds.mem_move_self hmem)
        · simp
        · simp
      · simp only [State.setProc_proc_of_ne _ hpp]
        apply (h.proc p').congr
        intro k
        apply mem_move_of_ne q hpp
    · intro m' hm'
      by_cases hmm : m' = m
      · subst hmm
        exact not_not.mp hv
      · apply h.value m'
        simpa [move, hmm] using hm'

/-- `sem_wait` by the current process keeps the invariant. -/
theorem wait (hh : s.halted = false) {r : Option ℤ} (hs : semWait s m = some (r, s')) :
  ∃ q', Inv s' q'
  := by
  obtain ⟨hv, -, rfl⟩ | ⟨-, -, -, p, -, h'⟩ := h.semWait_cases hh hs
  · use q
    apply h.setValue (h.waiters_eq_nil hv)
  · exact ⟨_, h'⟩

omit h in
/-- `sem_interrupt` keeps the invariant. -/
theorem interrupt (n : ℕ) :
  ∀ {s : State P S} {q : Queue S → List P}, Inv s q → semInterrupt n s m = some s' →
    ∃ q', Inv s' q'
  := by
  induction n with
  | zero =>
      intro s q h hs
      cases hs
  | succ n ih =>
      intro s q h hs
      rw [semInterrupt, h.holds.first_eq] at hs
      cases hq : q (.waiters m) with
      | nil =>
          rw [hq] at hs
          cases hs
          use q
      | cons p l =>
          rw [hq] at hs
          apply ih _ hs
          · apply move q (.waiters m) .runnable p
          · apply h.wake
            simp [hq]

omit h in
/-- `sem_interrupt` returns, after one turn of its loop for each waiting process. -/
theorem interrupt_returns (n : ℕ) :
  ∀ {s : State P S} {q : Queue S → List P}, Inv s q → (q (.waiters m)).length = n →
    ∃ s', semInterrupt (n + 1) s m = some s'
  := by
  induction n with
  | zero =>
      intro s q h hn
      rw [semInterrupt, h.holds.first_eq, List.length_eq_zero_iff.mp hn]
      use s
      rfl
  | succ n ih =>
      intro s q h hn
      obtain ⟨p, l, hq⟩ := List.exists_cons_of_length_eq_add_one hn
      rw [semInterrupt, h.holds.first_eq, hq]
      apply ih (h.wake (by simp [hq]) _)
      simp [move, hq] at hn ⊢
      apply hn

end Inv

variable [DecidableEq P] [DecidableEq S]

/-! ### Reachable states -/

/-- The start states satisfy the invariant, with empty queues. -/
theorem inv_start {s : State P S} (h : (system P S).start s) :
  Inv s (fun _ => [])
  := by
  obtain ⟨hq, hp, hc, -⟩ := h
  constructor
  · apply Holds.empty_iff.mpr hq
  · intro p
    obtain ⟨hs, hw⟩ := hp p
    constructor
    · simp [hs]
    · simp [hs]
    · simp
    · simp [hw]
  · simp
  · simp [hc]

/-- Every step keeps the invariant. -/
theorem inv_step {s : State P S} {a : Action P S} (h : ∃ q, Inv s q) (hs : (system P S).step s a s') :
  ∃ q, Inv s' q
  := by
  obtain ⟨q, h⟩ := h
  obtain ⟨hh, hs⟩ := hs
  cases a with
  | setRunnable p =>
      obtain ⟨hp, hw, rfl⟩ := hs
      exact ⟨_, h.setRunnable hp hw⟩
  | schedule =>
      obtain rfl := hs
      use q
      apply Inv.schedule_of_running h.holds h.proc h.value
  | wait m =>
      obtain ⟨r, hs⟩ := hs
      apply h.wait hh hs
  | signal m =>
      obtain rfl := hs
      apply h.signal
  | signalMonitor m =>
      obtain rfl := hs
      apply h.signalMonitor
  | interrupt m =>
      obtain ⟨n, hs⟩ := hs
      apply Inv.interrupt n h hs

/-- Every reachable state satisfies the invariant. -/
theorem inv_reachable {s : State P S} (h : (system P S).Reachable (fun _ _ => True) s) :
  ∃ q, Inv s q
  := by
  apply h.invariant
  · intro s hs
    use fun _ => []
    apply inv_start hs
  · intro s a s' hi _ hs
    apply inv_step hi hs

/-- In every reachable state there is, for each head, one queue that the links spell out,
such that a process is running exactly when it is on the run queue, once, and on no
waiting list; it is asleep exactly when it is on one waiting list, once, that of the
semaphore it waits for, and not on the run queue; it waits for no semaphore unless it is
asleep; and a semaphore with a waiting process has the value `0`. -/
theorem queues_of_reachable {s : State P S} (h : (system P S).Reachable (fun _ _ => True) s) :
  ∃ q : Queue S → List P,
    (∀ k l, IsQueue s.queues k l ↔ l = q k)
      ∧ (∀ p, (s.proc p).state = .running ↔
          (q .runnable).count p = 1 ∧ ∀ m, p ∉ q (.waiters m))
      ∧ (∀ p, (s.proc p).state = .sleep ↔
          ∃ m, (s.proc p).waitSem = some m ∧ (q (.waiters m)).count p = 1
            ∧ (∀ m', m' ≠ m → p ∉ q (.waiters m')) ∧ p ∉ q .runnable)
      ∧ (∀ p, (s.proc p).state ≠ .sleep → (s.proc p).waitSem = none)
      ∧ (∀ m, q (.waiters m) ≠ [] → s.value m = 0)
  := by
  obtain ⟨q, h⟩ := inv_reachable h
  use q
  and_intros
  · intro k l
    obtain ⟨hseg, hnone⟩ := h.holds.queue k
    constructor
    · rintro ⟨hl, hl'⟩
      apply Seg.unique hl hl' hseg hnone
    · rintro rfl
      exact ⟨hseg, hnone⟩
  · intro p
    rw [(h.proc p).running]
    constructor
    · intro hp
      use List.count_eq_one_of_mem (h.holds.nodup _) hp
      intro m hm
      cases h.holds.disjoint hp hm
    · rintro ⟨hp, -⟩
      apply List.one_le_count_iff.mp hp.ge
  · intro p
    rw [(h.proc p).sleep]
    constructor
    · rintro ⟨m, hm⟩
      use m, (h.proc p).waiting m hm, List.count_eq_one_of_mem (h.holds.nodup _) hm
      constructor
      · intro m' hne hm'
        cases h.holds.disjoint hm hm'
        apply hne rfl
      · intro hp
        cases h.holds.disjoint hp hm
    · rintro ⟨m, -, hm, -⟩
      use m
      apply List.one_le_count_iff.mp hm.ge
  · intro p
    apply (h.proc p).awake
  · apply h.value

/-- Two processes and a semaphore of value `0`, before any process has been created. -/
def twoProcs : State Bool Unit where
  proc _ := { state := .unused, waitSem := none, ax := 0 }
  value _ := 0
  queues := { cell := fun _ => none, prev := fun p => .next p, last := fun k => .first k }
  currentProc := none
  halted := false

/-- The two processes are created, and the first one waits for the semaphore. -/
def twoProcsBlocked : Option (State Bool Unit) :=
  (semWait (schedule (schedSetRunnable (schedSetRunnable twoProcs false) true)) ()).map Prod.snd

/-- The queues after a process blocks. -/
theorem queues_of_reachable_twoProcsBlocked :
  ∃ s, twoProcsBlocked = some s ∧ s.currentProc = some true
    ∧ ∃ q : Queue Unit → List Bool,
      (∀ k l, IsQueue s.queues k l ↔ l = q k)
        ∧ (∀ p, (s.proc p).state = .running ↔
            (q .runnable).count p = 1 ∧ ∀ m, p ∉ q (.waiters m))
        ∧ (∀ p, (s.proc p).state = .sleep ↔
            ∃ m, (s.proc p).waitSem = some m ∧ (q (.waiters m)).count p = 1
              ∧ (∀ m', m' ≠ m → p ∉ q (.waiters m')) ∧ p ∉ q .runnable)
        ∧ (∀ p, (s.proc p).state ≠ .sleep → (s.proc p).waitSem = none)
        ∧ (∀ m, q (.waiters m) ≠ [] → s.value m = 0)
  := by
  let s₁ := schedSetRunnable twoProcs false
  let s₂ := schedSetRunnable s₁ true
  have h₀ : (system Bool Unit).Reachable (fun _ _ => True) twoProcs :=
    .start ⟨fun _ => ⟨rfl, rfl⟩, fun _ => ⟨rfl, rfl⟩, rfl, rfl⟩
  have h₁ : (system Bool Unit).Reachable (fun _ _ => True) s₁ :=
    h₀.step (a := .setRunnable false) trivial ⟨rfl, rfl, rfl, rfl⟩
  have h₂ : (system Bool Unit).Reachable (fun _ _ => True) s₂ :=
    h₁.step (a := .setRunnable true) trivial ⟨rfl, rfl, rfl, rfl⟩
  have h₃ : (system Bool Unit).Reachable (fun _ _ => True) (schedule s₂) :=
    h₂.step (a := .schedule) trivial ⟨rfl, rfl⟩
  exact ⟨_, rfl, rfl,
    queues_of_reachable (h₃.step (a := .wait ()) trivial ⟨rfl, none, rfl⟩)⟩

end Mosnix.Sched
