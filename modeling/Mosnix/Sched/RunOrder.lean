import Mosnix.Sched.Waits

/-!
# The order in which the processes run

`schedule` switches to the first process of the run queue and leaves it there, `sem_wait` takes the
current process off the queue, and a process that becomes runnable is put at the end.  So the
processes run in the order in which they became runnable: each of them runs until it blocks, and
the one that became runnable as number `n` runs exactly while `n` processes have blocked.  The
system halts only if every process waits for a semaphore.

`Logged` is the scheduler with the two sequences that say so, those that became runnable and those
that blocked.
-/

open TailQueue

namespace Mosnix.Sched

variable {P S : Type*} [DecidableEq P] [DecidableEq S]

/-- The scheduler, the processes in the order in which they became runnable, and in the order in which
they blocked. -/
structure Logged (P S : Type*) where
  state : State P S
  joined : List P := []
  blocked : List P := []

namespace Logged

/-- The processes `l` become runnable, in this order, which leads to the state `s`. -/
def join (x : Logged P S) (l : List P) (s : State P S) : Logged P S :=
  { x with state := s, joined := x.joined ++ l }

/-- The current process returns from `sem_wait`, or blocks. -/
def wait (x : Logged P S) : Option Int → State P S → Logged P S
  | some _, s => { x with state := s }
  | none, s => { x with state := s, blocked := x.blocked ++ x.state.currentProc.toList }

/-- The steps of the scheduler, with the processes that become runnable and those that block. -/
def Step (x : Logged P S) : Action P S → Logged P S → Prop
  | .setRunnable p, x' =>
      (x.state.proc p).state = .unused ∧ (x.state.proc p).waitSem = none
        ∧ x' = x.join [p] (schedSetRunnable x.state p)
  | .schedule, x' => x' = { x with state := schedule x.state }
  | .wait m, x' => ∃ r s, semWait x.state m = some (r, s) ∧ x' = x.wait r s
  | .signal m, x' => x' = x.join (x.state.woken m).toList (semSignal x.state m)
  | .signalMonitor m, x' => x' = x.join (x.state.woken m).toList (semSignalMonitor x.state m)
  | .interrupt m, x' =>
      ∃ n s, semInterrupt n x.state m = some s
        ∧ x' = x.join (World.interrupts n x.state m) s

end Logged

/-- The scheduler from `sched_init` on, with its two sequences. -/
def logged (P S : Type*) [DecidableEq P] [DecidableEq S] :
    System (Logged P S) (Action P S) where
  start x := (system P S).start x.state ∧ x.joined = [] ∧ x.blocked = []
  step x a x' := x.state.halted = false ∧ x.Step a x'

variable {s : State P S}

/-- Every step of the scheduler is recorded. -/
theorem Logged.exists_step {x : Logged P S} {a : Action P S} (h : step x.state a s) :
  ∃ x', x.Step a x' ∧ x'.state = s
  := by
  cases a with
  | setRunnable p =>
      obtain ⟨hp, hw, rfl⟩ := h
      exact ⟨_, ⟨hp, hw, rfl⟩, rfl⟩
  | schedule =>
      obtain rfl := h
      exact ⟨_, rfl, rfl⟩
  | wait m =>
      obtain ⟨r, hr⟩ := h
      refine ⟨_, ⟨r, s, hr, rfl⟩, ?_⟩
      cases r with
      | none => rfl
      | some r => rfl
  | signal m =>
      obtain rfl := h
      exact ⟨_, rfl, rfl⟩
  | signalMonitor m =>
      obtain rfl := h
      exact ⟨_, rfl, rfl⟩
  | interrupt m =>
      obtain ⟨n, hn⟩ := h
      exact ⟨_, ⟨n, s, hn, rfl⟩, rfl⟩

/-- Every run of the scheduler has its two sequences. -/
theorem logged_of_reachable (h : (system P S).Reachable (fun _ _ => True) s) :
  ∃ x, (logged P S).Reachable (fun _ _ => True) x ∧ x.state = s
  := by
  have hsim : ∃ x, (logged P S).Reachable (fun _ _ => True) x ∧ s = x.state := by
    apply h.simulation
    · intro s hs
      exact ⟨{ state := s }, ⟨hs, rfl, rfl⟩, rfl⟩
    · rintro _ a s' x rfl - ⟨hh, hs⟩
      obtain ⟨x', hx', rfl⟩ := Logged.exists_step hs
      exact ⟨trivial, x', ⟨hh, hx'⟩, rfl⟩
  obtain ⟨x, hx, rfl⟩ := hsim
  exact ⟨x, hx, rfl⟩

/-! ### The run queue and the two sequences -/

/-- The processes that became runnable are those that blocked, followed by the run queue, and the
current process is the first one on the run queue. -/
structure Ordered (x : Logged P S) (q : Queue S → List P) : Prop where
  inv : Inv x.state q
  order : x.joined = x.blocked ++ q .runnable
  front : x.state.halted = false → ∀ p, x.state.currentProc = some p → (q .runnable).head? = some p
  halted : x.state.halted = true → q .runnable = []
  queued : ∀ p ∈ x.joined, ∃ k, p ∈ q k

/-- Moving a process from one queue to another keeps every process on some queue. -/
theorem exists_mem_move {q : Queue S → List P} {p p' : P} (k k' : Queue S) (h : ∃ i, p' ∈ q i) :
  ∃ i, p' ∈ move q k k' p i
  := by
  by_cases hp : p' = p
  · subst hp
    use k'
    simp [move]
  · obtain ⟨i, hi⟩ := h
    use i
    apply (mem_move_of_ne q hp).mpr hi

theorem schedSetRunnable_currentProc (s : State P S) (p : P) :
  (schedSetRunnable s p).currentProc = s.currentProc
  := by
  rw [schedSetRunnable]
  split <;> rfl

theorem schedSetRunnable_halted (s : State P S) (p : P) :
  (schedSetRunnable s p).halted = s.halted
  := by
  rw [schedSetRunnable]
  split <;> rfl

theorem wake_halted (s : State P S) (m : S) (p : P) (ax : ℤ) :
  (wake s m p ax).halted = s.halted
  := schedSetRunnable_halted _ p

omit [DecidableEq P] [DecidableEq S] in
/-- What `schedule` switches to: the first process of the run queue. -/
theorem schedule_front {q : Queue S → List P} (hq : Holds s.queues q) :
  (q .runnable = [] ∧ (schedule s).halted = true)
    ∨ ∃ p l, q .runnable = p :: l ∧ (schedule s).currentProc = some p
      ∧ (schedule s).halted = s.halted
  := by
  rw [schedule, hq.first_eq]
  cases q .runnable with
  | nil => exact Or.inl ⟨rfl, rfl⟩
  | cons p l => exact Or.inr ⟨p, l, rfl, rfl, rfl⟩

omit [DecidableEq P] [DecidableEq S] in
/-- `schedule` does not change the queues. -/
theorem schedule_queues (s : State P S) : (schedule s).queues = s.queues := by
  rw [schedule]
  split <;> rfl

/-- A call of `sem_wait` that blocks ends in `schedule`. -/
theorem schedule_of_semWait {s' : State P S} {m : S} (h : semWait s m = some (none, s')) :
  ∃ s₁, s₁.halted = s.halted ∧ s' = schedule s₁
  := by
  rw [semWait] at h
  split at h
  case isTrue => cases h
  case isFalse =>
    obtain ⟨p, -, hp⟩ := Option.map_eq_some_iff.mp h
    cases hp
    refine ⟨_, ?_, rfl⟩
    rw [State.setProc_halted, State.setProc_halted, schedRemoveRunnable]
    split <;> rfl

namespace Ordered

variable {x : Logged P S} {q : Queue S → List P} {p : P} {m : S}

variable (h : Ordered x q)

include h

section

variable (hh : x.state.halted = false)

include hh

omit [DecidableEq P] [DecidableEq S] in
/-- A process is put at the end of the run queue. -/
theorem join {q' : Queue S → List P} (hinv : Inv s q') (hrunnable : q' .runnable = q .runnable ++ [p])
    (hcurrent : s.currentProc = x.state.currentProc) (hhalted : s.halted = x.state.halted)
    (hq : ∀ p', (∃ k, p' ∈ q k) → ∃ k, p' ∈ q' k) :
  Ordered (x.join [p] s) q'
  := by
  constructor
  · apply hinv
  · rw [hrunnable, ← List.append_assoc]
    apply congrArg (· ++ [p]) h.order
  · intro _ p' hp'
    have hfront := h.front hh p' (hcurrent.symm.trans hp')
    rw [hrunnable, List.head?_append, hfront]
    rfl
  · intro hnot
    cases (hhalted.trans hh).symm.trans hnot
  · intro p' hp'
    obtain hp' | hp' := List.mem_append.mp hp'
    · apply hq p' (h.queued p' hp')
    · use .runnable
      simp [hrunnable, List.mem_singleton.mp hp']

/-- A newly created process becomes runnable. -/
theorem setRunnable (hp : (x.state.proc p).state = .unused) (hw : (x.state.proc p).waitSem = none) :
  Ordered (x.join [p] (schedSetRunnable x.state p))
    (Function.update q .runnable (q .runnable ++ [p]))
  := by
  apply h.join hh (h.inv.setRunnable hp hw)
  · apply Function.update_self
  · apply schedSetRunnable_currentProc
  · apply schedSetRunnable_halted
  · rintro p' ⟨k, hk⟩
    use k
    cases k with
    | runnable => simp [hk]
    | waiters m => simpa using hk

/-- A process that waits becomes runnable. -/
theorem wake (hp : p ∈ q (.waiters m)) (ax : ℤ) :
  Ordered (x.join [p] (Sched.wake x.state m p ax)) (move q (.waiters m) .runnable p)
  := by
  apply h.join hh (h.inv.wake hp ax)
  · apply Function.update_self
  · apply schedSetRunnable_currentProc
  · apply schedSetRunnable_halted
  · intro p' hp'
    apply exists_mem_move _ _ hp'

omit hh in
omit [DecidableEq P] in
/-- The value of a semaphore for which no process waits changes. -/
theorem setValue (hm : q (.waiters m) = []) (v : Byte) :
  Ordered { x with state := { x.state with value := Function.update x.state.value m v } } q
  := ⟨h.inv.setValue hm v, h.order, h.front, h.halted, h.queued⟩

omit hh in
omit h in
omit [DecidableEq P] [DecidableEq S] in
/-- `schedule` establishes that the current process is the first one on the run queue. -/
theorem schedule (hinv : Inv (schedule s) q) (hh : s.halted = false)
    (horder : x.joined = x.blocked ++ q .runnable) (hqueued : ∀ p ∈ x.joined, ∃ k, p ∈ q k) :
  Ordered { x with state := Sched.schedule s } q
  := by
  have hq := hinv.holds
  rw [schedule_queues] at hq
  obtain ⟨hnil, hhalted⟩ | ⟨p, l, hcons, hcurrent, hhalted⟩ := schedule_front hq
  · refine ⟨hinv, horder, ?_, fun _ => hnil, hqueued⟩
    intro hnot
    rw [hhalted] at hnot
    cases hnot
  · refine ⟨hinv, horder, ?_, ?_, hqueued⟩
    · intro _ p' hp'
      rw [hcons, ← hp', hcurrent]
      rfl
    · intro hnot
      rw [hhalted, hh] at hnot
      cases hnot

/-- `sem_wait` by the current process: if it blocks, it was the first one on the run queue. -/
theorem wait {r : Option ℤ} (hs : semWait x.state m = some (r, s)) :
  ∃ q', Ordered (x.wait r s) q'
  := by
  obtain ⟨hv, rfl, rfl⟩ | ⟨-, rfl, -, p, hp, hinv⟩ := h.inv.semWait_cases hh hs
  · use q
    apply h.setValue (h.inv.waiters_eq_nil hv)
  · obtain ⟨l, hl⟩ := List.head?_eq_some_iff.mp (h.front hh p hp)
    obtain ⟨s₁, hs₁, rfl⟩ := schedule_of_semWait hs
    use move q .runnable (.waiters m) p
    have hrunnable : move q .runnable (.waiters m) p .runnable = l := by
      simp [move, hl]
    have hwait : x.wait none (Sched.schedule s₁)
        = { x with blocked := x.blocked ++ [p], state := Sched.schedule s₁ } := by
      rw [Logged.wait, hp]
      rfl
    rw [hwait]
    apply schedule (x := { x with blocked := x.blocked ++ [p] }) hinv (hs₁.trans hh)
    · rw [hrunnable, List.append_assoc, List.singleton_append, ← hl, ← h.order]
    · intro p' hp'
      apply exists_mem_move _ _ (h.queued p' hp')

/-- `sem_wakeup` makes the process runnable that waits first. -/
theorem wakeup (m : S) :
  ∃ q', Ordered (x.join (x.state.queues.first (.waiters m)).toList (semWakeup x.state m)) q'
  := by
  rw [h.inv.holds.first_eq]
  obtain ⟨hq, heq⟩ | ⟨p, l, hq, heq⟩ := h.inv.semWakeup_cases m
  · rw [hq, heq, Logged.join]
    simp only [List.head?_nil, Option.toList_none, List.append_nil]
    exact ⟨q, h.setValue hq 1⟩
  · rw [hq, heq]
    exact ⟨_, h.wake hh (by simp [hq]) 0⟩

/-- `sem_signal` makes the process runnable that waits first. -/
theorem signal (m : S) :
  ∃ q', Ordered (x.join (x.state.woken m).toList (semSignal x.state m)) q'
  := by
  rw [State.woken, semSignal]
  split
  case isTrue => apply h.wakeup hh
  case isFalse hv =>
    rw [Logged.join, Option.toList_none, List.append_nil]
    exact ⟨q, h.setValue (h.inv.waiters_eq_nil hv) _⟩

/-- `sem_signal_monitor` makes the process runnable that waits first. -/
theorem signalMonitor (m : S) :
  ∃ q', Ordered (x.join (x.state.woken m).toList (semSignalMonitor x.state m)) q'
  := by
  rw [State.woken, semSignalMonitor]
  split
  case isTrue => apply h.wakeup hh
  case isFalse =>
    rw [Logged.join, Option.toList_none, List.append_nil]
    exact ⟨q, h⟩

/-- `sem_interrupt` makes all processes runnable that wait, in the order of the waiting list. -/
theorem interrupt {n : ℕ} (hs : semInterrupt n x.state m = some s) :
  ∃ q', Ordered (x.join (World.interrupts n x.state m) s) q'
  := by
  induction n generalizing x q with
  | zero => cases hs
  | succ n ih =>
      rw [semInterrupt, h.inv.holds.first_eq] at hs
      rw [World.interrupts, h.inv.holds.first_eq]
      cases hq : q (.waiters m) with
      | nil =>
          rw [hq] at hs
          cases hs
          rw [Logged.join]
          simp only [List.head?_nil, List.append_nil]
          exact ⟨q, h⟩
      | cons p l =>
          rw [hq] at hs
          have hwake := h.wake hh (p := p) (m := m) (by simp [hq]) (-EINTR)
          obtain ⟨q', h'⟩ := ih hwake ((wake_halted _ _ _ _).trans hh) hs
          use q'
          have hjoin : x.join (p :: World.interrupts n (Sched.wake x.state m p (-EINTR)) m) s
              = (x.join [p] (Sched.wake x.state m p (-EINTR))).join
                (World.interrupts n (Sched.wake x.state m p (-EINTR)) m) s := by
            simp [Logged.join]
          rw [List.head?_cons]
          dsimp only
          rw [hjoin]
          apply h'

end

/-- Every step keeps the order. -/
theorem step {x' : Logged P S} {a : Action P S} (hs : (logged P S).step x a x') :
  ∃ q', Ordered x' q'
  := by
  obtain ⟨hh, hs⟩ := hs
  cases a with
  | setRunnable p =>
      obtain ⟨hp, hw, rfl⟩ := hs
      exact ⟨_, h.setRunnable hh hp hw⟩
  | schedule =>
      obtain rfl := hs
      use q
      apply schedule _ hh h.order h.queued
      apply Inv.schedule_of_running h.inv.holds h.inv.proc h.inv.value
  | wait m =>
      obtain ⟨r, s, hr, rfl⟩ := hs
      apply h.wait hh hr
  | signal m =>
      obtain rfl := hs
      apply h.signal hh
  | signalMonitor m =>
      obtain rfl := hs
      apply h.signalMonitor hh
  | interrupt m =>
      obtain ⟨n, s, hn, rfl⟩ := hs
      apply h.interrupt hh hn

end Ordered

/-- In every reachable state the run queue holds the processes that became runnable and have not
blocked since. -/
theorem ordered_of_reachable {x : Logged P S}
    (h : (logged P S).Reachable (fun _ _ => True) x) :
  ∃ q, Ordered x q
  := by
  apply h.invariant
  · rintro x ⟨hs, hjoined, hblocked⟩
    refine ⟨fun _ => [], inv_start hs, ?_, ?_, fun _ => rfl, ?_⟩
    · rw [hjoined, hblocked]
      rfl
    · intro _ p hp
      rw [hs.2.2.1] at hp
      cases hp
    · simp [hjoined]
  · rintro x a x' ⟨q, hq⟩ - hs
    apply hq.step hs

/-! ### Every process runs in its turn -/

/-- The processes run in the order in which they became runnable. -/
structure InTurn (x : Logged P S) : Prop where
  /-- The processes block in the order in which they became runnable. -/
  order : x.blocked <+: x.joined
  /-- The process that became runnable as number `n` runs while `n` processes have blocked. -/
  current : x.state.halted = false → ∀ p, x.state.currentProc = some p →
    x.joined[x.blocked.length]? = some p
  /-- The processes that became runnable and have not blocked since are the running ones. -/
  running : ∀ p, (x.state.proc p).state = .running ↔ p ∈ x.joined.drop x.blocked.length
  /-- The system halts only if every process that became runnable sleeps. -/
  halted : x.state.halted = true →
    x.blocked = x.joined ∧ ∀ p ∈ x.joined, (x.state.proc p).state = .sleep

/-- In every run of the scheduler, with any calls of `sem_wait`, `sem_signal`, `sem_signal_monitor`
and `sem_interrupt` and with processes that are created at any time, every process runs in its turn:
the process that became runnable as number `n`, counted from `0`, is the current one exactly while `n`
processes have blocked.  The system halts only if every process waits for a semaphore. -/
theorem inTurn_of_reachable {x : Logged P S} (h : (logged P S).Reachable (fun _ _ => True) x) :
  InTurn x
  := by
  obtain ⟨q, hx⟩ := ordered_of_reachable h
  have hdrop : x.joined.drop x.blocked.length = q .runnable := by
    rw [hx.order, List.drop_left]
  constructor
  · rw [hx.order]
    apply List.prefix_append
  · intro hh p hp
    rw [← List.head?_drop, hdrop]
    apply hx.front hh p hp
  · intro p
    rw [hdrop]
    apply (hx.inv.proc p).running
  · intro hh
    have hnil := hx.halted hh
    constructor
    · rw [hx.order, hnil, List.append_nil]
    · intro p hp
      apply (hx.inv.proc p).sleep.mpr
      obtain ⟨k, hk⟩ := hx.queued p hp
      cases k with
      | runnable =>
          rw [hnil] at hk
          cases hk
      | waiters m => exact ⟨m, hk⟩

/-- Two processes are created, the first one blocks, the second one wakes it and blocks, and the first
one runs again. -/
theorem inTurn_of_reachable_twoProcs :
  ∃ x : Logged Bool Unit, x.joined = [false, true, false] ∧ x.blocked = [false, true]
    ∧ x.state.currentProc = some false ∧ InTurn x
  := by
  have h₀ : (logged Bool Unit).Reachable (fun _ _ => True) { state := twoProcs } :=
    .start ⟨⟨fun _ => ⟨rfl, rfl⟩, fun _ => ⟨rfl, rfl⟩, rfl, rfl⟩, rfl, rfl⟩
  have h₁ := h₀.step (a := Action.setRunnable false) trivial ⟨rfl, rfl, rfl, rfl⟩
  have h₂ := h₁.step (a := Action.setRunnable true) trivial ⟨rfl, rfl, rfl, rfl⟩
  have h₃ := h₂.step (a := Action.schedule) trivial ⟨rfl, rfl⟩
  have h₄ := h₃.step (a := Action.wait ()) trivial ⟨rfl, none, _, rfl, rfl⟩
  have h₅ := h₄.step (a := Action.signal ()) trivial ⟨rfl, rfl⟩
  have h₆ := h₅.step (a := Action.wait ()) trivial ⟨rfl, none, _, rfl, rfl⟩
  exact ⟨_, rfl, rfl, rfl, inTurn_of_reachable h₆⟩

end Mosnix.Sched
