import Mosnix.Machine
import Mosnix.Lib.System
import Mosnix.Lib.TailQueue

/-!
# The scheduler and the semaphores

The run queue of `os/sched.c` and the semaphores of `os/sem.c`.  The run queue and the
waiting list of every semaphore are tail queues threaded through the one `qptrs` field of
a process, so they are one store of tail queues whose elements are the processes.

The kernel is not preempted while it works on semaphores, so each call is one step of
`system`.  Processes and semaphores range over arbitrary types.
-/

open TailQueue

namespace Mosnix.Sched

/-- `enum proc_state`. -/
inductive ProcState where
  | unused
  | running
  | notRunning
  | stoppedJobControl
  | stoppedDebugger
  | sleep
  | unintSleep
  | zombie
  deriving DecidableEq, Repr

/-- The heads of the tail queues: `runnable`, and the `waiters` of each semaphore. -/
inductive Queue (S : Type*) where
  | runnable
  | waiters (m : S)
  deriving DecidableEq

/-- The fields of `struct proc` the scheduler works on, without the queue links. -/
structure Proc (S : Type*) where
  state : ProcState
  waitSem : Option S
  /-- `context.AX`, the value a blocked process is resumed with. -/
  ax : Int

/-- The state of the scheduler: the processes, the values of the semaphores, the queues,
`current_proc`, and whether the system has halted in `_exit`. -/
structure State (P S : Type*) where
  proc : P → Proc S
  value : S → Byte
  queues : Store (Queue S) P
  currentProc : Option P
  halted : Bool

variable {P S : Type*} [DecidableEq P] [DecidableEq S]

/-- Update the fields of a process. -/
def State.setProc (s : State P S) (p : P) (f : Proc S → Proc S) : State P S :=
  { s with proc := Function.update s.proc p (f (s.proc p)) }

/-- `sched_set_runnable`. -/
def schedSetRunnable (s : State P S) (p : P) : State P S :=
  if (s.proc p).state ≠ .running then
    let s := s.setProc p fun r => { r with state := .running }
    { s with queues := s.queues.insertTail .runnable p }
  else s

/-- `sched_remove_runnable`. -/
def schedRemoveRunnable (s : State P S) (p : P) : State P S :=
  if (s.proc p).state = .running then
    let s := s.setProc p fun r => { r with state := .notRunning }
    { s with queues := s.queues.remove .runnable p }
  else s

/-- What `proc_switch_to` does to the scheduler's state. -/
def procSwitchTo (s : State P S) (p : P) : State P S :=
  { s with currentProc := some p }

/-- `schedule`: switch to the first runnable process, or halt if there is none. -/
def schedule (s : State P S) : State P S :=
  match s.queues.first .runnable with
  | some p => procSwitchTo s p
  | none => { s with halted := true }

/-- Take the process `p` off the waiting list of `m` and make it runnable, with the result
`ax` of its wait; the common part of `sem_wakeup` and `sem_interrupt`. -/
def wake (s : State P S) (m : S) (p : P) (ax : Int) : State P S :=
  let s := { s with queues := s.queues.remove (.waiters m) p }
  let s := s.setProc p fun r => { r with ax := ax }
  let s := s.setProc p fun r => { r with waitSem := none }
  schedSetRunnable s p

/-- `sem_wakeup`. -/
def semWakeup (s : State P S) (m : S) : State P S :=
  match s.queues.first (.waiters m) with
  | some p => wake s m p 0
  | none => { s with value := Function.update s.value m 1 }

/-- `sem_signal`. -/
def semSignal (s : State P S) (m : S) : State P S :=
  if s.value m = 0 then semWakeup s m
  else { s with value := Function.update s.value m (s.value m + 1) }

/-- `sem_signal_monitor`. -/
def semSignalMonitor (s : State P S) (m : S) : State P S :=
  if s.value m = 0 then semWakeup s m else s

/-- `sem_wait` by the current process: its result when the semaphore is acquired at once,
and no result when the process blocks.  There is no state if `current_proc` is null. -/
def semWait (s : State P S) (m : S) : Option (Option Int × State P S) :=
  if s.value m ≠ 0 then
    some (some 0, { s with value := Function.update s.value m (s.value m - 1) })
  else
    s.currentProc.map fun p =>
      let s := schedRemoveRunnable s p
      let s := { s with queues := s.queues.insertTail (.waiters m) p }
      let s := s.setProc p fun r => { r with waitSem := some m }
      let s := s.setProc p fun r => { r with state := .sleep }
      (none, schedule s)

/-- `sem_interrupt`, with a bound on the number of turns of its loop. -/
def semInterrupt : ℕ → State P S → S → Option (State P S)
  | 0, _, _ => none
  | n + 1, s, m =>
      match s.queues.first (.waiters m) with
      | some p => semInterrupt n (wake s m p (-EINTR)) m
      | none => some s

/-- The calls that work on the queues. -/
inductive Action (P S : Type*) where
  /-- `sched_set_runnable` on a newly created process. -/
  | setRunnable (p : P)
  /-- `schedule`, called by `sched_start`. -/
  | schedule
  | wait (m : S)
  | signal (m : S)
  | signalMonitor (m : S)
  | interrupt (m : S)

/-- The steps of the scheduler.  A newly created process is one `proc_create` has cleared. -/
def step (s : State P S) : Action P S → State P S → Prop
  | .setRunnable p, s' =>
      (s.proc p).state = .unused ∧ (s.proc p).waitSem = none ∧ s' = schedSetRunnable s p
  | .schedule, s' => s' = schedule s
  | .wait m, s' => ∃ r, semWait s m = some (r, s')
  | .signal m, s' => s' = semSignal s m
  | .signalMonitor m, s' => s' = semSignalMonitor s m
  | .interrupt m, s' => ∃ n, semInterrupt n s m = some s'

/-- The system that starts after `sched_init`, and `sem_init` of every semaphore with some
value, and that does nothing more once it has halted. -/
def system (P S : Type*) [DecidableEq P] [DecidableEq S] : System (State P S) (Action P S) where
  start s :=
    (∀ k, s.queues.last k = .first k ∧ s.queues.cell (.first k) = none)
      ∧ (∀ p, (s.proc p).state = .unused ∧ (s.proc p).waitSem = none)
      ∧ s.currentProc = none ∧ s.halted = false
  step s a s' := s.halted = false ∧ step s a s'

end Mosnix.Sched
