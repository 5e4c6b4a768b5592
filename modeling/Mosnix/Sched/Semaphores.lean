import Mosnix.Sched.Waits

/-!
# What the semaphores guarantee

Properties of every run of the processes that use the semaphores.

* A semaphore that starts at `1`, and is signalled only by a process that holds it, is held by at
  most one process, and is handed on in the order in which the processes blocked.
* The units of a semaphore are neither lost nor made, as long as no signal finds the greatest value
  of its type.
* A call of `sem_wait` returns `0`, also if it was interrupted.  Its result is right as long as no
  process is interrupted.
-/

open TailQueue

namespace Mosnix.Sched

variable {P S : Type*} [DecidableEq P] [DecidableEq S]

/-! ### Other semaphores -/

/-- The semaphore that an action works on. -/
def ProcAction.sem : ProcAction P S → Option S
  | .create _ => none
  | .resume _ => none
  | .wait _ m => some m
  | .signal _ m => some m
  | .signalMonitor _ m => some m
  | .interrupt _ m => some m

variable {a : ProcAction P S} {x x' : Sems P S} {p : P} {r : Int}

omit [DecidableEq P] [DecidableEq S] in
theorem sem_of_signal {m : S} (ha : a = .signal p m ∨ a = .signalMonitor p m) :
  a.sem = some m
  := by
  obtain rfl | rfl := ha
  · rfl
  · rfl

/-- The event changes who waits for the semaphore `m`, or who holds it. -/
@[simp]
def Event.On (m : S) : Event P S → Prop
  | .blocked _ m' => m' = m
  | .ended _ m' _ => m' = m
  | .signalled _ m' => m' = m
  | .returned _ _ _ _ => False

/-- An action leaves the other semaphores as they are. -/
theorem Sems.Step.frame {m : S} (hs : x.Step a x') (ha : a.sem ≠ some m) :
  x'.value m = x.value m ∧ x'.waiters m = x.waiters m
    ∧ ∃ l, x'.trace = x.trace ++ l ∧ ∀ e ∈ l, ¬ e.On m
  := by
  have hne {m' : S} (h : a.sem = some m') : m ≠ m' := by
    rintro rfl
    contradiction
  cases hs with
  | create p => exact ⟨rfl, rfl, [], by simp, by simp⟩
  | resume => exact ⟨rfl, rfl, _, rfl, by simp⟩
  | @take p m' =>
      have hm := hne rfl
      exact ⟨Function.update_of_ne hm _ _, rfl, _, rfl, by simp [hm.symm]⟩
  | @block p m' =>
      have hm := hne rfl
      exact ⟨rfl, Function.update_of_ne hm _ _, _, rfl, by simp [hm.symm]⟩
  | @increment p m' =>
      have hm := hne rfl
      exact ⟨Function.update_of_ne hm _ _, rfl, _, rfl, by simp [hm.symm]⟩
  | @monitor p m' =>
      have hm := hne rfl
      exact ⟨rfl, rfl, _, rfl, by simp [hm.symm]⟩
  | @release p m' _ ha' =>
      have hm := hne (sem_of_signal ha')
      exact ⟨Function.update_of_ne hm _ _, rfl, _, rfl, by simp [hm.symm]⟩
  | @wake p p' m' l _ ha' =>
      have hm := hne (sem_of_signal ha')
      exact ⟨rfl, Function.update_of_ne hm _ _, _, rfl, by simp [hm.symm]⟩
  | @interrupt p m' =>
      have hm := hne rfl
      exact ⟨rfl, Function.update_of_ne hm _ _, _, rfl, by simp [hm.symm]⟩

/-! ### Mutual exclusion -/

/-- The processes that hold the semaphore `m`, after one more event.  A process holds it from the
moment it is granted, also if it has not returned from `sem_wait` yet, to its signal. -/
@[simp]
def Event.holders (m : S) (hs : List P) : Event P S → List P
  | .ended p m' o => if m' = m ∧ o ≠ .interrupted then p :: hs else hs
  | .signalled p m' => if m' = m then hs.erase p else hs
  | _ => hs

/-- The processes that hold the semaphore `m`. -/
def holders (m : S) (trace : List (Event P S)) : List P :=
  trace.foldl (Event.holders m) []

/-- The process that blocks on the semaphore `m`. -/
@[simp]
def Event.blockedOn (m : S) : Event P S → Option P
  | .blocked p m' => if m' = m then some p else none
  | .ended _ _ _ => none
  | .returned _ _ _ _ => none
  | .signalled _ _ => none

/-- The blocked process that is granted the semaphore `m`. -/
@[simp]
def Event.wokenOn (m : S) : Event P S → Option P
  | .ended p m' o => if m' = m ∧ o = .woken then some p else none
  | .blocked _ _ => none
  | .returned _ _ _ _ => none
  | .signalled _ _ => none

/-- The processes that blocked on the semaphore `m`, in order. -/
def blockedOn (m : S) (trace : List (Event P S)) : List P := trace.filterMap (Event.blockedOn m)

/-- The blocked processes that were granted the semaphore `m`, in order. -/
def wokenOn (m : S) (trace : List (Event P S)) : List P := trace.filterMap (Event.wokenOn m)

/-- The processes wait for `m` if they do not hold it, signal it if they do, and do not interrupt
it. -/
def Disciplined (m : S) (trace : List (Event P S)) : ProcAction P S → Prop
  | .wait p m' => m' = m → p ∉ holders m trace
  | .signal p m' => m' = m → p ∈ holders m trace
  | .signalMonitor p m' => m' = m → p ∈ holders m trace
  | .interrupt _ m' => m' ≠ m
  | _ => True

/-- The unit of the semaphore `m` is in its value or with one process, and the processes are granted
it in the order in which they blocked. -/
structure HandedOn (m : S) (x : Sems P S) : Prop where
  unit : (x.value m).toNat + (holders m x.trace).length = 1
  fifo : blockedOn m x.trace = wokenOn m x.trace ++ x.waiters m

section Frame

variable {m : S} {trace l : List (Event P S)}

theorem holders_append (trace l : List (Event P S)) :
  holders m (trace ++ l) = l.foldl (Event.holders m) (holders m trace)
  :=
  List.foldl_append

/-- Events of other semaphores do not count. -/
theorem holders_append_of_not (h : ∀ e ∈ l, ¬ e.On m) : holders m (trace ++ l) = holders m trace := by
  rw [holders_append]
  generalize holders m trace = hs
  induction l with
  | nil => rfl
  | cons e l ih =>
      rw [List.forall_mem_cons] at h
      have he : e.holders m hs = hs := by
        cases e with
        | blocked | returned => rfl
        | ended p m' o => exact if_neg fun hm => h.1 hm.1
        | signalled p m' => exact if_neg h.1
      rw [List.foldl_cons, he, ih h.2]

omit [DecidableEq P]

theorem blockedOn_append (trace l : List (Event P S)) :
  blockedOn m (trace ++ l) = blockedOn m trace ++ blockedOn m l
  :=
  List.filterMap_append

theorem wokenOn_append (trace l : List (Event P S)) :
  wokenOn m (trace ++ l) = wokenOn m trace ++ wokenOn m l
  :=
  List.filterMap_append

theorem blockedOn_eq_nil (h : ∀ e ∈ l, ¬ e.On m) : blockedOn m l = [] := by
  rw [blockedOn, List.filterMap_eq_nil_iff]
  intro e he
  cases e with
  | blocked p m' => exact if_neg (h _ he)
  | ended | returned | signalled => rfl

theorem wokenOn_eq_nil (h : ∀ e ∈ l, ¬ e.On m) : wokenOn m l = [] := by
  rw [wokenOn, List.filterMap_eq_nil_iff]
  intro e he
  cases e with
  | ended p m' o => exact if_neg fun hm => h _ he hm.1
  | blocked | returned | signalled => rfl

end Frame

theorem toNat_sub_one {v : Byte} (hv : v ≠ 0) : (v - 1).toNat + 1 = v.toNat := by
  bv_omega

/-- A process that holds the semaphore leaves no unit in its value, and nothing when it signals. -/
theorem HandedOn.of_mem {m : S} (h : HandedOn m x) (hp : p ∈ holders m x.trace) :
  x.value m = 0 ∧ (holders m x.trace).erase p = []
  := by
  have hunit := h.unit
  have hlen := List.length_erase_of_mem hp
  have hpos := List.length_pos_of_mem hp
  constructor
  · apply BitVec.eq_of_toNat_eq
    show _ = 0
    omega
  · rw [← List.length_eq_zero_iff]
    omega

/-- A step hands the semaphore on. -/
theorem HandedOn.step {m : S} (h : HandedOn m x) (hok : Disciplined m x.trace a) (hs : x.Step a x') :
  HandedOn m x'
  := by
  have hunit := h.unit
  have hfifo := h.fifo
  by_cases ha : a.sem = some m
  · have hholds {p : P} (ha' : a = .signal p m ∨ a = .signalMonitor p m) :
        p ∈ holders m x.trace := by
      obtain rfl | rfl := ha'
      · exact hok rfl
      · exact hok rfl
    cases hs with
    | create | resume => cases ha
    | take hv =>
        cases ha
        have hsub := toNat_sub_one hv
        constructor
        · simp [holders_append]
          omega
        · rw [blockedOn_append, wokenOn_append, hfifo]
          simp [blockedOn, wokenOn, List.filterMap_cons]
    | @block p m' hv =>
        cases ha
        constructor
        · simpa [holders_append] using hunit
        · rw [blockedOn_append, wokenOn_append, hfifo]
          simp [blockedOn, wokenOn, List.filterMap_cons]
    | increment hv =>
        cases ha
        cases hv (h.of_mem (hholds (Or.inl rfl))).1
    | monitor hv =>
        cases ha
        cases hv (h.of_mem (hholds (Or.inr rfl))).1
    | @release p m' a ha' hv hwaiters =>
        obtain rfl : m' = m := Option.some.inj ((sem_of_signal ha').symm.trans ha)
        obtain ⟨-, herase⟩ := h.of_mem (hholds ha')
        constructor
        · simp [holders_append, herase]
        · rw [blockedOn_append, wokenOn_append, hfifo]
          simp [blockedOn, wokenOn, List.filterMap_cons]
    | @wake p p' m' l a ha' hv hwaiters =>
        obtain rfl : m' = m := Option.some.inj ((sem_of_signal ha').symm.trans ha)
        obtain ⟨-, herase⟩ := h.of_mem (hholds ha')
        constructor
        · simp [holders_append, herase, hv]
        · rw [blockedOn_append, wokenOn_append, hfifo, hwaiters]
          simp [blockedOn, wokenOn, List.filterMap_cons]
    | interrupt =>
        cases ha
        cases hok rfl
  · obtain ⟨hvalue, hwaiters, l, htrace, hl⟩ := hs.frame ha
    constructor
    · rw [hvalue, htrace, holders_append_of_not hl, hunit]
    · rw [htrace, blockedOn_append, wokenOn_append, blockedOn_eq_nil hl, wokenOn_eq_nil hl,
        List.append_nil, List.append_nil, hwaiters, hfifo]

/-- A semaphore that starts at `1` is held by at most one process, in every state of a run in which
the processes wait for it, and signal it while they hold it.  The blocked processes are granted it in
the order in which they blocked: those that were granted, followed by those on the waiting list, are
those that blocked. -/
theorem handedOn_of_reachable {v₀ : S → Byte} {m : S} {w : World P S} (hm : v₀ m = 1)
    (h : (waits v₀).Reachable (fun w a => Disciplined m w.trace a) w) :
  (w.state.value m).toNat + (holders m w.trace).length = 1
    ∧ ∃ l, IsQueue w.state.queues (.waiters m) l
      ∧ blockedOn m w.trace = wokenOn m w.trace ++ l
  := by
  obtain ⟨q, hinv, hx⟩ := sems_of_reachable (C := fun x a => Disciplined m x.trace a) h
    fun _ _ _ _ hok => hok
  have hhanded : HandedOn m (w.sems q) := by
    apply hx.invariant
    · rintro _ rfl
      exact ⟨by simp [hm, holders], rfl⟩
    · intro x a x' hi hok hs
      apply hi.step hok hs
  exact ⟨hhanded.unit, _, hinv.holds.queue (.waiters m), hhanded.fifo⟩

/-- Two processes, before they are created, and a semaphore. -/
def twoProcsWorld (v : Byte) : World Bool Unit where
  state := { twoProcs with value := fun _ => v }

/-- The first process is created. -/
def oneProcWorld (v : Byte) : World Bool Unit :=
  { twoProcsWorld v with state := schedSetRunnable (twoProcsWorld v).state false }

/-- Both processes are created. -/
def bothProcsWorld (v : Byte) : World Bool Unit :=
  { oneProcWorld v with state := schedSetRunnable (oneProcWorld v).state true }

section Worlds

variable (v : Byte) (ok : World Bool Unit → ProcAction Bool Unit → Prop)

/-- The state with one process is reached. -/
theorem oneProcWorld_reachable (hok : ok (twoProcsWorld v) (.create false)) :
  (waits fun _ => v).Reachable ok (oneProcWorld v)
  := by
  have hstart : (waits fun _ => v).start (twoProcsWorld v) :=
    ⟨⟨fun _ => ⟨rfl, rfl⟩, fun _ => ⟨rfl, rfl⟩, rfl, rfl⟩, rfl, rfl, rfl⟩
  exact .step (.start hstart) hok ⟨rfl, rfl, rfl, rfl⟩

theorem bothProcsWorld_reachable (hok : ∀ w p, ok w (.create p)) :
  (waits fun _ => v).Reachable ok (bothProcsWorld v)
  := by
  apply (oneProcWorld_reachable v ok (hok _ _)).step (a := ProcAction.create true) (hok _ _)
  exact ⟨rfl, rfl, rfl, rfl⟩

end Worlds

/-- The first process holds the semaphore, the second one blocks, and is granted the semaphore by the
signal of the first. -/
theorem handedOn_of_reachable_twoProcs :
  ∃ w : World Bool Unit, (waits fun _ => 1).Reachable (fun w a => Disciplined () w.trace a) w
    ∧ holders () w.trace = [true] ∧ blockedOn () w.trace = [true] ∧ wokenOn () w.trace = [true]
    ∧ (w.state.value ()).toNat + (holders () w.trace).length = 1
  := by
  have h₂ := bothProcsWorld_reachable 1 (fun w a => Disciplined () w.trace a) fun _ _ => trivial
  have h₃ := h₂.step (a := ProcAction.wait false ()) (fun _ => by decide) ⟨rfl, ⟨rfl, rfl⟩, some 0, _, rfl, rfl⟩
  have h₄ := h₃.step (a := ProcAction.wait true ()) (fun _ => by decide) ⟨rfl, ⟨rfl, rfl⟩, none, _, rfl, rfl⟩
  have h₅ := h₄.step (a := ProcAction.signal false ()) (fun _ => by decide) ⟨rfl, ⟨rfl, rfl⟩, rfl⟩
  have hunit := handedOn_of_reachable (m := ()) rfl h₅
  exact ⟨_, h₅, rfl, rfl, rfl, hunit.1⟩

/-! ### Units -/

/-- The event is a signal for `m`. -/
@[simp]
def Event.isSignal (m : S) : Event P S → Bool
  | .signalled _ m' => m' = m
  | .blocked _ _ => false
  | .ended _ _ _ => false
  | .returned _ _ _ _ => false

/-- The event is a wait for `m` that is granted. -/
@[simp]
def Event.isGrant (m : S) : Event P S → Bool
  | .ended _ m' o => m' = m ∧ o ≠ .interrupted
  | .signalled _ _ => false
  | .blocked _ _ => false
  | .returned _ _ _ _ => false

/-- The number of signals for `m`. -/
def signals (m : S) (trace : List (Event P S)) : ℕ := trace.countP (Event.isSignal m)

/-- The number of waits for `m` that were granted. -/
def grants (m : S) (trace : List (Event P S)) : ℕ := trace.countP (Event.isGrant m)

/-- The value of the semaphore `m`, which started at `v`, accounts for all signals and waits. -/
def Conserved (m : S) (v value : Byte) (trace : List (Event P S)) : Prop :=
  (value.toNat : ℤ) = v.toNat + signals m trace - grants m trace

/-- The action does not signal `m` when it has the greatest value of its type. -/
def NoOverflow (m : S) (value : Byte) : ProcAction P S → Prop
  | .signal _ m' => m' = m → value ≠ 255
  | _ => True

/-- The action is not a call of `sem_signal_monitor` for `m`. -/
def NoMonitor (m : S) : ProcAction P S → Prop
  | .signalMonitor _ m' => m' ≠ m
  | _ => True

section Frame

variable {m : S} {trace l : List (Event P S)}

omit [DecidableEq P]

theorem countP_isSignal (h : ∀ e ∈ l, ¬ e.On m) : l.countP (Event.isSignal m) = 0 := by
  rw [List.countP_eq_zero]
  intro e he
  cases e with
  | signalled p m' => simpa using h _ he
  | blocked | ended | returned => simp

theorem countP_isGrant (h : ∀ e ∈ l, ¬ e.On m) : l.countP (Event.isGrant m) = 0 := by
  rw [List.countP_eq_zero]
  intro e he
  cases e with
  | ended p m' o =>
      have hm : m' ≠ m := h _ he
      simp [hm]
  | blocked | signalled | returned => simp

end Frame

/-- The greatest value does not count one more. -/
theorem toNat_add_one_iff (v : Byte) : (v + 1).toNat = v.toNat + 1 ↔ v ≠ 255 := by
  revert v
  decide

/-- A step accounts for its signals and waits, unless it is a signal that the value cannot count. -/
theorem Conserved.step_iff {v : Byte} {m : S} (h : Conserved m v (x.value m) x.trace)
    (hmonitor : NoMonitor m a) (hs : x.Step a x') :
  Conserved m v (x'.value m) x'.trace ↔ NoOverflow m (x.value m) a
  := by
  rw [Conserved, signals, grants] at h ⊢
  by_cases ha : a.sem = some m
  · cases hs with
    | create | resume => cases ha
    | take hv =>
        cases ha
        have hsub := toNat_sub_one hv
        simp [NoOverflow] at h ⊢
        omega
    | block hv =>
        cases ha
        simpa [NoOverflow] using h
    | increment hv =>
        cases ha
        have hadd := toNat_add_one_iff (x.value m)
        simp [NoOverflow] at h hadd ⊢
        rw [← hadd]
        omega
    | monitor hv =>
        cases ha
        cases hmonitor rfl
    | @release p m' a ha' hv hwaiters =>
        obtain rfl : m' = m := Option.some.inj ((sem_of_signal ha').symm.trans ha)
        have hok : NoOverflow m' (x.value m') a := by
          obtain rfl | rfl := ha'
          · simp [NoOverflow, hv]
          · trivial
        rw [hv] at h
        simp [hok] at h ⊢
        omega
    | @wake p p' m' l a ha' hv hwaiters =>
        obtain rfl : m' = m := Option.some.inj ((sem_of_signal ha').symm.trans ha)
        have hok : NoOverflow m' (x.value m') a := by
          obtain rfl | rfl := ha'
          · simp [NoOverflow, hv]
          · trivial
        simp [hok] at h ⊢
        omega
    | interrupt =>
        cases ha
        simpa [NoOverflow, Function.comp_def] using h
  · obtain ⟨hvalue, -, l, htrace, hl⟩ := hs.frame ha
    have hok : NoOverflow m (x.value m) a := by
      cases a with
      | signal p m' =>
          rintro rfl
          cases ha rfl
      | create | wait | resume | signalMonitor | interrupt => trivial
    rw [hvalue, htrace, List.countP_append, List.countP_append, countP_isSignal hl, countP_isGrant hl]
    simpa [hok] using h

/-- The value of a semaphore is its initial value, plus the number of signals, minus the number of
waits that were granted, in every state of a run in which no signal finds the value `255`.  From such
a state, a step leads to another one if and only if it is not a signal at the value `255`. -/
theorem conserved_of_reachable {v₀ : S → Byte} {m : S} {w : World P S}
    (h : (waits v₀).Reachable (fun w a => NoMonitor m a ∧ NoOverflow m (w.state.value m) a) w) :
  Conserved m (v₀ m) (w.state.value m) w.trace
    ∧ ∀ a w', (waits v₀).step w a w' → NoMonitor m a →
      (Conserved m (v₀ m) (w'.state.value m) w'.trace ↔ NoOverflow m (w.state.value m) a)
  := by
  obtain ⟨q, hinv, hx⟩ := sems_of_reachable
    (C := fun x a => NoMonitor m a ∧ NoOverflow m (x.value m) a) h fun _ _ _ _ hok => hok
  have hconserved : Conserved m (v₀ m) (w.state.value m) w.trace := by
    change Conserved m (v₀ m) ((w.sems q).value m) (w.sems q).trace
    apply hx.invariant (I := fun x => Conserved m (v₀ m) (x.value m) x.trace)
    · rintro _ rfl
      simp [Conserved, signals, grants]
    · rintro x a x' hi ⟨hmonitor, hok⟩ hs
      apply (hi.step_iff hmonitor hs).mpr hok
  refine ⟨hconserved, ?_⟩
  intro a w' hs hmonitor
  obtain ⟨q', -, hstep⟩ := hinv.sems_step hs
  have hiff : Conserved m (v₀ m) ((w'.sems q').value m) (w'.sems q').trace ↔ _ :=
    Conserved.step_iff hconserved hmonitor hstep
  apply hiff

/-- The first process signals. -/
def signalWorld (v : Byte) : World Bool Unit :=
  (oneProcWorld v).signal false () (semSignal (procSwitchTo (oneProcWorld v).state false) ())

theorem signalWorld_step (v : Byte) :
  (waits fun _ => v).step (oneProcWorld v) (.signal false ()) (signalWorld v)
  :=
  ⟨rfl, ⟨rfl, rfl⟩, rfl⟩

/-- The signal at the value `255` is lost, with all that came before it. -/
theorem not_conserved_of_255 :
  (waits fun _ => 255).Reachable (fun _ _ => True) (oneProcWorld 255)
    ∧ (waits fun _ => 255).step (oneProcWorld 255) (.signal false ()) (signalWorld 255)
    ∧ signals () (signalWorld 255).trace = 1 ∧ grants () (signalWorld 255).trace = 0
    ∧ (signalWorld 255).state.value () = 0
    ∧ ¬ Conserved () 255 ((signalWorld 255).state.value ()) (signalWorld 255).trace
  := by
  refine ⟨oneProcWorld_reachable 255 _ trivial, signalWorld_step 255, rfl, rfl, rfl, ?_⟩
  rw [Conserved]
  decide

/-- A signal at the value `0` is counted. -/
theorem conserved_of_reachable_signal :
  (waits fun _ => 0).Reachable
      (fun w a => NoMonitor () a ∧ NoOverflow () (w.state.value ()) a) (signalWorld 0)
    ∧ (signalWorld 0).trace = [.signalled false ()] ∧ (signalWorld 0).state.value () = 1
    ∧ Conserved () 0 ((signalWorld 0).state.value ()) (signalWorld 0).trace
  := by
  have hone := oneProcWorld_reachable 0
    (fun w a => NoMonitor () a ∧ NoOverflow () (w.state.value ()) a) ⟨trivial, trivial⟩
  have hok : NoMonitor () (.signal false () : ProcAction Bool Unit)
      ∧ NoOverflow () ((oneProcWorld 0).state.value ()) (.signal false () : ProcAction Bool Unit) :=
    ⟨trivial, fun _ => by decide⟩
  have htwo := hone.step hok (signalWorld_step 0)
  exact ⟨htwo, rfl, rfl, (conserved_of_reachable htwo).1⟩

/-! ### Results of `sem_wait` -/

/-- The calls of `sem_wait` return `0` if they took a unit, and `-EINTR` if they were interrupted. -/
def Truthful (trace : List (Event P S)) : Prop :=
  ∀ p m o r, .returned p m o r ∈ trace →
    (r = 0 ↔ o = .taken ∨ o = .woken) ∧ (r = -EINTR ↔ o = .interrupted)

/-- The action does not interrupt a process. -/
def NoInterrupt (w : World P S) : ProcAction P S → Prop
  | .interrupt _ m => w.state.queues.first (.waiters m) = none
  | _ => True

/-- No call has been interrupted. -/
structure Uninterrupted (x : Sems P S) : Prop where
  call : ∀ p m, x.call p ≠ some (m, some .interrupted)
  trace : ∀ p m r, .returned p m .interrupted r ∉ x.trace

/-- The calls that return in a step: their result is `0`. -/
theorem Sems.Step.returned_cases {m : S} {o : Outcome} (hs : x.Step a x')
    (hr : .returned p m o r ∈ x'.trace) :
  .returned p m o r ∈ x.trace ∨ r = 0 ∧ (o = .taken ∨ x.call p = some (m, some o))
  := by
  cases hs with
  | create => exact Or.inl hr
  | resume hcall ax =>
      simp only [List.mem_append, List.mem_singleton, Event.returned.injEq] at hr
      obtain hr | ⟨rfl, rfl, rfl, rfl⟩ := hr
      · exact Or.inl hr
      · exact Or.inr ⟨rfl, Or.inr hcall⟩
  | take hv =>
      simp at hr
      tauto
  | block | increment | monitor | release | wake | interrupt =>
      left
      simpa using hr

/-- The calls that are interrupted in a step. -/
theorem Sems.Step.interrupted_cases {m : S} (hs : x.Step a x')
    (hcall : x'.call p = some (m, some .interrupted)) :
  x.call p = some (m, some .interrupted) ∨ ∃ p', a = .interrupt p' m ∧ p ∈ x.waiters m
  := by
  have hupdate {p' : P} {v : Option (S × Option Outcome)} (hv : v ≠ some (m, some .interrupted))
      (h : Function.update x.call p' v p = some (m, some .interrupted)) :
      x.call p = some (m, some .interrupted) := by
    by_cases hp : p = p'
    · rw [hp, Function.update_self] at h
      contradiction
    · rwa [Function.update_of_ne hp] at h
  cases hs with
  | create | take | increment | monitor | release => exact Or.inl hcall
  | resume | block | wake => exact Or.inl (hupdate (by simp) hcall)
  | @interrupt p' m' =>
      dsimp only at hcall
      split_ifs at hcall with hp
      · cases hcall
        exact Or.inr ⟨p', rfl, hp⟩
      · exact Or.inl hcall

/-- A step interrupts no process that waits. -/
theorem Uninterrupted.step (h : Uninterrupted x) (hok : ∀ p m, a = .interrupt p m → x.waiters m = [])
    (hs : x.Step a x') :
  Uninterrupted x'
  := by
  constructor
  · intro p m hcall
    obtain hcall | ⟨p', rfl, hp⟩ := hs.interrupted_cases hcall
    · exact h.call p m hcall
    · rw [hok p' m rfl] at hp
      cases hp
  · intro p m r hr
    obtain hr | ⟨-, ho | hcall⟩ := hs.returned_cases hr
    · exact h.trace p m r hr
    · cases ho
    · exact h.call p m hcall

/-- Every call of `sem_wait` returns `0`. -/
theorem returned_zero {v₀ : S → Byte} {w : World P S} (h : (waits v₀).Reachable (fun _ _ => True) w)
    {m : S} {o : Outcome} (hr : .returned p m o r ∈ w.trace) :
  r = 0
  := by
  obtain ⟨q, -, hx⟩ := sems_of_reachable (C := fun _ _ => True) h fun _ _ _ _ hok => hok
  have hzero : ∀ p m o r, .returned p m o r ∈ (w.sems q).trace → r = 0 := by
    apply hx.invariant (I := fun x => ∀ p m o r, .returned p m o r ∈ x.trace → r = 0)
    · rintro _ rfl p m o r hr
      cases hr
    · intro x a x' hi _ hs p m o r hr
      obtain hr | ⟨hr, -⟩ := hs.returned_cases hr
      · exact hi p m o r hr
      · exact hr
  exact hzero p m o r hr

/-- No call is interrupted in a run in which no process is. -/
theorem uninterrupted_of_reachable {v₀ : S → Byte} {w : World P S}
    (h : (waits v₀).Reachable NoInterrupt w) {m : S} :
  .returned p m .interrupted r ∉ w.trace
  := by
  obtain ⟨q, -, hx⟩ := sems_of_reachable
    (C := fun x a => ∀ p m, a = .interrupt p m → x.waiters m = []) h (by
      rintro w q _ hinv hok p m rfl
      rw [NoInterrupt, hinv.holds.first_eq] at hok
      exact List.head?_eq_none_iff.mp hok)
  have hun : Uninterrupted (w.sems q) := by
    apply hx.invariant
    · rintro _ rfl
      exact ⟨by simp, by simp⟩
    · intro x a x' hi hok hs
      apply hi.step hok hs
  exact hun.trace p m r

/-- The results of `sem_wait` are right in every state of a run in which no process is interrupted.
In any other run they are right as long as no call that was interrupted has returned. -/
theorem truthful_of_reachable (v₀ : S → Byte) (w : World P S) :
  ((waits v₀).Reachable NoInterrupt w → Truthful w.trace)
    ∧ ((waits v₀).Reachable (fun _ _ => True) w →
      (Truthful w.trace ↔ ∀ p m r, .returned p m .interrupted r ∉ w.trace))
  := by
  have hiff (h : (waits v₀).Reachable (fun _ _ => True) w) :
      Truthful w.trace ↔ ∀ p m r, .returned p m .interrupted r ∉ w.trace := by
    constructor
    · intro htruthful p m r hr
      have hzero := (htruthful p m _ r hr).1.mp (returned_zero h hr)
      simp at hzero
    · intro hno p m o r hr
      obtain rfl := returned_zero h hr
      have ho : o ≠ .interrupted := by
        rintro rfl
        exact hno p m 0 hr
      cases o with
      | taken => simp [EINTR]
      | woken => simp [EINTR]
      | interrupted => contradiction
  refine ⟨?_, hiff⟩
  intro h
  apply (hiff (h.mono fun _ _ _ => trivial)).mpr
  intro p m r
  apply uninterrupted_of_reachable h

/-- The first process blocks, and is interrupted; its call returns `0`. -/
theorem not_truthful_of_interrupt :
  ∃ w : World Bool Unit, (waits fun _ => 0).Reachable (fun _ _ => True) w
    ∧ w.trace = [.blocked false (), .ended false () .interrupted,
      .returned false () .interrupted 0]
    ∧ ¬ Truthful w.trace
  := by
  have h₂ := bothProcsWorld_reachable 0 (fun _ _ => True) fun _ _ => trivial
  have h₃ := h₂.step (a := ProcAction.wait false ()) trivial ⟨rfl, ⟨rfl, rfl⟩, none, _, rfl, rfl⟩
  have h₄ := h₃.step (a := ProcAction.interrupt true ()) trivial ⟨rfl, ⟨rfl, rfl⟩, 2, _, rfl, rfl⟩
  have h₅ := h₄.step (a := ProcAction.resume false) trivial ⟨rfl, rfl, (), .interrupted, rfl, rfl⟩
  refine ⟨_, h₅, rfl, ?_⟩
  intro htruthful
  have hmem : .returned false () .interrupted 0 ∈ [Event.blocked false (),
      .ended false () .interrupted, .returned false () .interrupted 0] := by
    simp
  have hzero := (htruthful false () .interrupted 0 hmem).1.mp rfl
  simp at hzero

/-- The first process blocks, and is woken by the second one; its call returns `0`. -/
theorem truthful_of_reachable_woken :
  ∃ w : World Bool Unit, (waits fun _ => 0).Reachable NoInterrupt w
    ∧ w.trace = [.blocked false (), .signalled true (), .ended false () .woken,
      .returned false () .woken 0]
    ∧ Truthful w.trace
  := by
  have h₂ := bothProcsWorld_reachable 0 NoInterrupt fun _ _ => trivial
  have h₃ := h₂.step (a := ProcAction.wait false ()) trivial ⟨rfl, ⟨rfl, rfl⟩, none, _, rfl, rfl⟩
  have h₄ := h₃.step (a := ProcAction.signal true ()) trivial ⟨rfl, ⟨rfl, rfl⟩, rfl⟩
  have h₅ := h₄.step (a := ProcAction.resume false) trivial ⟨rfl, rfl, (), .woken, rfl, rfl⟩
  exact ⟨_, h₅, rfl, (truthful_of_reachable _ _).1 h₅⟩

end Mosnix.Sched
