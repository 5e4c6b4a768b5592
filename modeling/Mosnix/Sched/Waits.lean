import Mosnix.Sched.Invariant

/-!
# Calls of `sem_wait`

The processes that use the semaphores, under any scheduling: whenever a process is runnable and is
not in a call of `sem_wait`, it may wait, signal or interrupt.  A process that blocks stays in its
call until it is woken, and returns from it when it is switched to.  The trace records what happens
to the calls.

`Sems` is what the semaphores are for: values and waiting lists, without the links of the queues
and the states of the processes.  Every run of the processes is a run of `sems`.
-/

open TailQueue

namespace Mosnix.Sched

variable {P S : Type*} [DecidableEq P] [DecidableEq S]

/-- How a call of `sem_wait` ends: the value was decremented, or the process was blocked and a signal
woke it, or `sem_interrupt` did. -/
inductive Outcome where
  | taken
  | woken
  | interrupted
  deriving DecidableEq

/-- What happens to the calls on a semaphore. -/
inductive Event (P S : Type*) where
  | blocked (p : P) (m : S)
  | ended (p : P) (m : S) (o : Outcome)
  | returned (p : P) (m : S) (o : Outcome) (result : Int)
  | signalled (p : P) (m : S)

/-- What the process `p` does. -/
inductive ProcAction (P S : Type*) where
  /-- It is created. -/
  | create (p : P)
  /-- It calls `sem_wait`. -/
  | wait (p : P) (m : S)
  /-- It is switched to, after it was woken, and returns from `sem_wait`. -/
  | resume (p : P)
  | signal (p : P) (m : S)
  | signalMonitor (p : P) (m : S)
  | interrupt (p : P) (m : S)

/-- The scheduler, the calls of `sem_wait` that have not returned, and the trace.  The call of a
process has an outcome once the process is off the waiting list. -/
structure World (P S : Type*) where
  state : State P S
  call : P → Option (S × Option Outcome) := fun _ => none
  trace : List (Event P S) := []

/-- What `schedule` returns to a process that `proc_switch_to` resumes with the result `ax`: the
result is discarded. -/
def scheduleResult (_ax : Int) : Int := 0

/-- The process that `sem_signal` and `sem_signal_monitor` wake. -/
def State.woken (s : State P S) (m : S) : Option P :=
  if s.value m = 0 then s.queues.first (.waiters m) else none

omit [DecidableEq P] [DecidableEq S] in
/-- No process waits for a semaphore with a value. -/
theorem State.woken_eq_none {s : State P S} {m : S} (hv : s.value m ≠ 0) : s.woken m = none :=
  if_neg hv

namespace World

/-- The process `p` may make a call. -/
def Ready (w : World P S) (p : P) : Prop :=
  (w.state.proc p).state = .running ∧ w.call p = none

/-- The signal of the process `p` leads to the state `s` of the scheduler. -/
def signal (w : World P S) (p : P) (m : S) (s : State P S) : World P S :=
  match w.state.woken m with
  | none => { w with state := s, trace := w.trace ++ [.signalled p m] }
  | some p' =>
      { state := s
        call := Function.update w.call p' (some (m, some .woken))
        trace := w.trace ++ [.signalled p m, .ended p' m .woken] }

/-- The processes that `sem_interrupt` wakes, with a bound on the number of turns of its loop. -/
def interrupts : ℕ → State P S → S → List P
  | 0, _, _ => []
  | n + 1, s, m =>
      match s.queues.first (.waiters m) with
      | some p => p :: interrupts n (Sched.wake s m p (-EINTR)) m
      | none => []

/-- The processes `l` are interrupted, which leads to the state `s` of the scheduler. -/
def interrupt (w : World P S) (m : S) (l : List P) (s : State P S) : World P S :=
  { state := s
    call := fun p => if p ∈ l then some (m, some .interrupted) else w.call p
    trace := w.trace ++ l.map fun p => .ended p m .interrupted }

/-- The call of `sem_wait` of the process `p` returns at once, or blocks. -/
def wait (w : World P S) (p : P) (m : S) : Option Int → State P S → World P S
  | some r, s =>
      { w with state := s, trace := w.trace ++ [.ended p m .taken, .returned p m .taken r] }
  | none, s =>
      { state := s
        call := Function.update w.call p (some (m, none))
        trace := w.trace ++ [.blocked p m] }

/-- The steps of the processes.  A process that makes a call is the current one. -/
def Step (w : World P S) : ProcAction P S → World P S → Prop
  | .create p, w' =>
      (w.state.proc p).state = .unused ∧ (w.state.proc p).waitSem = none
        ∧ w' = { w with state := schedSetRunnable w.state p }
  | .wait p m, w' =>
      w.Ready p ∧ ∃ r s, semWait (procSwitchTo w.state p) m = some (r, s) ∧ w' = w.wait p m r s
  | .resume p, w' =>
      (w.state.proc p).state = .running ∧ ∃ m o, w.call p = some (m, some o)
        ∧ w' = { state := procSwitchTo w.state p
                 call := Function.update w.call p none
                 trace := w.trace ++ [.returned p m o (scheduleResult (w.state.proc p).ax)] }
  | .signal p m, w' =>
      w.Ready p ∧ w' = w.signal p m (semSignal (procSwitchTo w.state p) m)
  | .signalMonitor p m, w' =>
      w.Ready p ∧ w' = w.signal p m (semSignalMonitor (procSwitchTo w.state p) m)
  | .interrupt p m, w' =>
      w.Ready p ∧ ∃ n s, semInterrupt n (procSwitchTo w.state p) m = some s
        ∧ w' = w.interrupt m (interrupts n (procSwitchTo w.state p) m) s

end World

/-- The processes that use semaphores with the initial values `v₀`. -/
def waits (v₀ : S → Byte) : System (World P S) (ProcAction P S) where
  start w := (system P S).start w.state ∧ w.state.value = v₀ ∧ w.call = (fun _ => none)
    ∧ w.trace = []
  step w a w' := w.state.halted = false ∧ w.Step a w'

/-! ### The semaphores alone -/

/-- The values of the semaphores and the processes that wait for them, the calls that have not
returned, and the trace. -/
@[ext]
structure Sems (P S : Type*) where
  value : S → Byte
  waiters : S → List P
  call : P → Option (S × Option Outcome)
  trace : List (Event P S)

/-- The steps of the semaphores. -/
inductive Sems.Step (x : Sems P S) : ProcAction P S → Sems P S → Prop where
  | create (p : P) : Step x (.create p) x
  | resume {p : P} {m : S} {o : Outcome} (hcall : x.call p = some (m, some o)) (ax : Int) :
      Step x (.resume p)
        { x with
          call := Function.update x.call p none
          trace := x.trace ++ [.returned p m o (scheduleResult ax)] }
  | take {p : P} {m : S} (hv : x.value m ≠ 0) :
      Step x (.wait p m)
        { x with
          value := Function.update x.value m (x.value m - 1)
          trace := x.trace ++ [.ended p m .taken, .returned p m .taken 0] }
  | block {p : P} {m : S} (hv : x.value m = 0) :
      Step x (.wait p m)
        { x with
          waiters := Function.update x.waiters m (x.waiters m ++ [p])
          call := Function.update x.call p (some (m, none))
          trace := x.trace ++ [.blocked p m] }
  | increment {p : P} {m : S} (hv : x.value m ≠ 0) :
      Step x (.signal p m)
        { x with
          value := Function.update x.value m (x.value m + 1)
          trace := x.trace ++ [.signalled p m] }
  | monitor {p : P} {m : S} (hv : x.value m ≠ 0) :
      Step x (.signalMonitor p m) { x with trace := x.trace ++ [.signalled p m] }
  | release {p : P} {m : S} {a : ProcAction P S} (ha : a = .signal p m ∨ a = .signalMonitor p m)
      (hv : x.value m = 0) (hwaiters : x.waiters m = []) :
      Step x a
        { x with
          value := Function.update x.value m 1
          trace := x.trace ++ [.signalled p m] }
  | wake {p p' : P} {m : S} {l : List P} {a : ProcAction P S}
      (ha : a = .signal p m ∨ a = .signalMonitor p m) (hv : x.value m = 0)
      (hwaiters : x.waiters m = p' :: l) :
      Step x a
        { x with
          waiters := Function.update x.waiters m l
          call := Function.update x.call p' (some (m, some .woken))
          trace := x.trace ++ [.signalled p m, .ended p' m .woken] }
  | interrupt {p : P} {m : S} :
      Step x (.interrupt p m)
        { x with
          waiters := Function.update x.waiters m []
          call := fun p' => if p' ∈ x.waiters m then some (m, some .interrupted) else x.call p'
          trace := x.trace ++ (x.waiters m).map fun p' => .ended p' m .interrupted }

/-- The semaphores with the initial values `v₀`. -/
def sems (v₀ : S → Byte) : System (Sems P S) (ProcAction P S) where
  start x := x = ⟨v₀, fun _ => [], fun _ => none, []⟩
  step := Sems.Step

/-! ### Every run of the processes is a run of the semaphores -/

/-- The semaphores of the processes `w`, whose queues are `q`. -/
def World.sems (w : World P S) (q : Queue S → List P) : Sems P S :=
  ⟨w.state.value, fun m => q (.waiters m), w.call, w.trace⟩

section Simulation

variable {s s' : State P S} {q : Queue S → List P} {w w' : World P S} {x : Sems P S} {p : P} {m : S}
  {a : ProcAction P S} {v₀ : S → Byte}

omit [DecidableEq P] [DecidableEq S] in
/-- A switch to another process. -/
theorem Inv.switch (h : Inv s q) (hp : (s.proc p).state = .running) : Inv (procSwitchTo s p) q := by
  refine ⟨h.holds, h.proc, h.value, ?_⟩
  rintro - _ ⟨⟩
  apply hp

theorem schedSetRunnable_value (s : State P S) (p : P) : (schedSetRunnable s p).value = s.value := by
  rw [schedSetRunnable]
  split <;> rfl

theorem wake_value (s : State P S) (m : S) (p : P) (ax : ℤ) : (wake s m p ax).value = s.value :=
  schedSetRunnable_value _ p

/-- The waiting lists after the first process of one of them is woken. -/
theorem move_waiters {l : List P} (hq : q (.waiters m) = p :: l) :
  (fun m' => move q (.waiters m) .runnable p (.waiters m'))
    = Function.update (fun m' => q (.waiters m')) m l
  := by
  funext m'
  by_cases hm : m' = m
  · subst hm
    simp [move, hq]
  · simp [move, hm]

/-- The waiting lists after a process blocks. -/
theorem move_runnable :
  (fun m' => move q .runnable (.waiters m) p (.waiters m'))
    = Function.update (fun m' => q (.waiters m')) m (q (.waiters m) ++ [p])
  := by
  funext m'
  by_cases hm : m' = m
  · subst hm
    simp [move]
  · simp [move, hm]

/-- What `sem_interrupt` does: it wakes all processes that wait. -/
theorem Inv.semInterrupt_cases {n : ℕ} (h : Inv s q) (hs : semInterrupt n s m = some s') :
  World.interrupts n s m = q (.waiters m) ∧ s'.value = s.value
    ∧ ∃ q', Inv s' q' ∧ (fun m' => q' (.waiters m'))
      = Function.update (fun m' => q (.waiters m')) m []
  := by
  induction n generalizing s q with
  | zero => cases hs
  | succ n ih =>
      rw [semInterrupt, h.holds.first_eq] at hs
      rw [World.interrupts, h.holds.first_eq]
      cases hq : q (.waiters m) with
      | nil =>
          rw [hq] at hs
          cases hs
          refine ⟨rfl, rfl, q, h, ?_⟩
          rw [eq_comm, Function.update_eq_self_iff, hq]
      | cons p l =>
          rw [hq] at hs
          have hwake := h.wake (p := p) (m := m) (by simp [hq]) (-EINTR)
          obtain ⟨hl, hvalue, q', h', hq'⟩ := ih hwake hs
          have hmove := congrFun (move_waiters hq) m
          rw [Function.update_self] at hmove
          refine ⟨?_, hvalue.trans (wake_value s m p (-EINTR)), q', h', ?_⟩
          · rw [List.head?_cons]
            dsimp only
            rw [hl, hmove]
          · rw [hq', move_waiters hq, Function.update_idem]

/-- What the part of a signal after the test of the value does. -/
theorem Inv.signal_step (h : Inv w.state q) (hp : (w.state.proc p).state = .running)
    (hv : w.state.value m = 0) (ha : a = .signal p m ∨ a = .signalMonitor p m)
    (hw' : w' = w.signal p m (semWakeup (procSwitchTo w.state p) m)) :
  ∃ q', Inv w'.state q' ∧ (w.sems q).Step a (w'.sems q')
  := by
  have hwoken : w.state.woken m = (q (.waiters m)).head? := by
    rw [State.woken, if_pos hv, h.holds.first_eq]
  rw [World.signal, hwoken] at hw'
  obtain ⟨hq, heq⟩ | ⟨p', l, hq, heq⟩ := (h.switch hp).semWakeup_cases m
  · rw [hq, heq] at hw'
    subst hw'
    exact ⟨q, (h.switch hp).setValue hq 1, Sems.Step.release ha hv hq⟩
  · rw [hq, heq] at hw'
    subst hw'
    refine ⟨_, (h.switch hp).wake (by simp [hq]) 0, ?_⟩
    have hstep : (w.sems q).Step a _ := Sems.Step.wake ha hv hq
    convert hstep using 1
    apply Sems.ext
    · apply wake_value
    · apply move_waiters hq
    · rfl
    · rfl

/-- Every step of the processes is a step of the semaphores. -/
theorem Inv.sems_step (h : Inv w.state q) (hs : (waits v₀).step w a w') :
  ∃ q', Inv w'.state q' ∧ (w.sems q).Step a (w'.sems q')
  := by
  obtain ⟨hh, hs⟩ := hs
  cases a with
  | create p =>
      obtain ⟨hp, hwait, rfl⟩ := hs
      refine ⟨_, h.setRunnable hp hwait, ?_⟩
      convert Sems.Step.create (x := w.sems q) p using 1
      apply Sems.ext
      · apply schedSetRunnable_value
      · funext m
        simp [World.sems]
      · rfl
      · rfl
  | wait p m =>
      obtain ⟨⟨hp, hnone⟩, r, s, heq, rfl⟩ := hs
      obtain ⟨hv, rfl, rfl⟩ | ⟨hv, rfl, hvalue, p', hp', hinv⟩ := (h.switch hp).semWait_cases hh heq
      · exact ⟨q, (h.switch hp).setValue (h.waiters_eq_nil hv) _, Sems.Step.take hv⟩
      · cases hp'
        refine ⟨_, hinv, ?_⟩
        have hstep : (w.sems q).Step (.wait p m) _ := Sems.Step.block hv
        convert hstep using 1
        apply Sems.ext
        · apply hvalue
        · apply move_runnable
        · rfl
        · rfl
  | resume p =>
      obtain ⟨hp, m, o, hcall, rfl⟩ := hs
      exact ⟨q, h.switch hp, Sems.Step.resume hcall (w.state.proc p).ax⟩
  | signal p m =>
      obtain ⟨⟨hp, -⟩, hw'⟩ := hs
      rw [semSignal] at hw'
      split at hw'
      case isTrue hv => apply h.signal_step hp hv (Or.inl rfl) hw'
      case isFalse hv =>
        rw [World.signal, State.woken_eq_none (s := w.state) hv] at hw'
        subst hw'
        exact ⟨q, (h.switch hp).setValue (h.waiters_eq_nil hv) _, Sems.Step.increment hv⟩
  | signalMonitor p m =>
      obtain ⟨⟨hp, -⟩, hw'⟩ := hs
      rw [semSignalMonitor] at hw'
      split at hw'
      case isTrue hv => apply h.signal_step hp hv (Or.inr rfl) hw'
      case isFalse hv =>
        rw [World.signal, State.woken_eq_none (s := w.state) hv] at hw'
        subst hw'
        exact ⟨q, h.switch hp, Sems.Step.monitor hv⟩
  | interrupt p m =>
      obtain ⟨⟨hp, -⟩, n, s, heq, rfl⟩ := hs
      obtain ⟨hl, hvalue, q', hinv, hq'⟩ := (h.switch hp).semInterrupt_cases heq
      refine ⟨q', hinv, ?_⟩
      have hstep : (w.sems q).Step (.interrupt p m) _ := Sems.Step.interrupt
      convert hstep using 1
      rw [hl]
      apply Sems.ext
      · apply hvalue
      · apply hq'
      · rfl
      · rfl

/-- Every run of the processes is a run of the semaphores.  The condition `ok` on the steps of the
one implies the condition `C` on those of the other. -/
theorem sems_of_reachable {ok : World P S → ProcAction P S → Prop}
    {C : Sems P S → ProcAction P S → Prop} (hw : (waits v₀).Reachable ok w)
    (hok : ∀ w q a, Inv w.state q → ok w a → C (w.sems q) a) :
  ∃ q, Inv w.state q ∧ (sems v₀).Reachable C (w.sems q)
  := by
  have hsim : ∃ x, (sems v₀).Reachable C x ∧ ∃ q, Inv w.state q ∧ x = w.sems q := by
    apply hw.simulation
    · rintro w ⟨hstart, hvalue, hcall, htrace⟩
      refine ⟨_, rfl, fun _ => [], inv_start hstart, ?_⟩
      rw [World.sems, hvalue, hcall, htrace]
    · rintro w a w' _ ⟨q, hinv, rfl⟩ hw hs
      obtain ⟨q', hinv', hstep⟩ := hinv.sems_step hs
      exact ⟨hok w q a hinv hw, _, hstep, q', hinv', rfl⟩
  obtain ⟨_, hx, q, hinv, rfl⟩ := hsim
  exact ⟨q, hinv, hx⟩

end Simulation

end Mosnix.Sched
