import Mosnix.Sched.FirstDispatch
import Mosnix.Lib.System

/-!
# The contexts of all processes

Any number of processes that `proc_create_internal` makes and that switch to each other with
`proc_switch_to`, in any order.  A process that does not run has its context in its block: that of a
new process, which has not run yet, or the return stack it had when it called `proc_switch_to`.  As
long as no code writes to the block of a process that does not run, except the value to return, every
switch returns, and returns to where the process that is switched to left off.

`Machine` is the processor with the contexts that the processes are owed.
-/

namespace Mosnix.Switcher

open Mos6502 Memory

variable {k : Link} {cpu cpu' : Cpu} {m m' : Memory} {A B p q a : Word} {i : ℕ}

/-! ### What else a switch does -/

/-- The decrement of `in_kernel` does not change `current_proc`. -/
theorem Current.leftKernel (h : Current k m p) : Current k (leftKernel k m) p := by
  have hne := k.inKernel_ne
  have hne' := k.inKernel_ne'
  apply h.congr
  · apply store_of_ne
    unfold Link.cur Link.inKernelAddr
    bv_omega
  · apply store_of_ne
    unfold Link.cur' Link.inKernelAddr
    bv_omega

/-- The process that is swapped in is the current one, and the zero pages of the processes are not
changed. -/
structure MadeCurrent (k : Link) (p : Word) (m m' : Memory) : Prop where
  current : Current k m' p
  zeroPages : SameZeroPages m m'

/-- The switch to the stack of the process that is swapped in. -/
theorem MadeCurrent.leads (h : MadeCurrent k p m cpu.mem) :
  Leads k.procSwitchTo (goto k.procSwitchTo .swapInSwitchStack, cpu) fun r =>
    r.1 = [.rti] ∧ MadeCurrent k p m r.2.mem
  := by
  apply (swapInSwitchStack_leads h.current).trans
  rintro r ⟨hr, -, -, -, hmem⟩
  apply Leads.refl
  refine ⟨hr, ?_⟩
  rw [hmem]
  constructor
  · apply h.current.leftKernel
  · intro a ha ha'
    rw [leftKernel_frame (by omega), h.zeroPages a ha ha']

/-- Code that writes the imaginary registers and the process block does not change which process is
current. -/
theorem MadeCurrent.of_frame (h : MadeCurrent k p m m')
    {m₁ : Memory} (hframe : ∀ a : Word, 0x20 ≤ a.toNat → a.toNat < 0x200 → m₁ a = m' a) :
  MadeCurrent k p m m₁
  := by
  constructor
  · apply h.current.of_frame
    intro a ha ha'
    apply hframe a ha (by omega)
  · intro a ha ha'
    rw [hframe a (by omega) (by omega), h.zeroPages a ha ha']

/-- Execution from `.Lswap_in_new` makes the process current. -/
theorem swapIn_leads_current (hp : IsProc p) (harg : argument cpu.mem = p)
    (hs : cpu.mem (field p 0) ≤ 63) :
  Leads k.procSwitchTo (k.swapIn, cpu) fun r => r.1 = [.rti] ∧ MadeCurrent k p cpu.mem r.2.mem
  := by
  apply (swapInStack_leads hp harg hs).trans
  rintro ⟨_, cpu₁⟩ ⟨rfl, hy₁, hcur₁, -, hzero⟩
  have hmade : MadeCurrent k p cpu.mem cpu₁.mem := ⟨hcur₁, hzero⟩
  by_cases hnone : NoKstack p cpu₁.mem
  · apply (swapInKstack_leads_set hcur₁ hy₁ hnone).trans
    rintro ⟨_, cpu₂⟩ ⟨rfl, hy₂, hmem₂⟩
    dsimp only at hmem₂
    apply Leads.label
    apply (saveKstack_leads hp (hmem₂ ▸ hcur₁) hy₂).trans
    rintro ⟨_, cpu₃⟩ ⟨rfl, -, -, hmem₃⟩
    dsimp only at hmem₃
    apply MadeCurrent.leads
    apply hmade.of_frame
    intro a _ ha
    have hne := ne_field_of_lt hp ha
    rw [hmem₃, savedKstack, store_of_ne (hne 68 (by decide)), store_of_ne (hne 67 (by decide)), hmem₂]
  · apply (swapInKstack_leads_load hp hcur₁ hy₁ hnone).trans
    rintro ⟨_, cpu₂⟩ ⟨rfl, hy₂, hmem₂⟩
    dsimp only at hmem₂
    have hcur₂ : Current k cpu₂.mem p := by
      rw [hmem₂]
      apply (hcur₁.store_rc (by decide) _).store_rc (by decide)
    apply (imagRegs_leads rfl hp hcur₂ hy₂).trans
    rintro ⟨_, cpu₃⟩ ⟨rfl, -, hz₃, hregs⟩
    apply Leads.branch
    · apply hz₃
    apply MadeCurrent.leads
    apply hmade.of_frame
    intro a ha _
    have hne (i : ℕ) (hi : i < 32) : a ≠ rc i := by
      apply ne_of_toNat
      rw [toNat_rc hi]
      omega
    rw [hregs.frame a fun i _ hi => hne _ (by omega), hmem₂, loadedKstack,
      store_of_ne (hne 1 (by decide)), store_of_ne (hne 0 (by decide))]

/-- What a call of `proc_switch_to` does: it swaps the process out that runs, in the memory `m`, and
the other one in. -/
structure Switched (k : Link) (p q : Word) (cpu : Cpu) (pc : Word) (cpu' : Cpu) (m : Memory)
    (r : Cpu) : Prop where
  out : Suspended k p cpu.s cpu.mem m
  swappedIn : SwappedIn q m r
  made : MadeCurrent k q m r.mem
  rti_eq : r.rti = (pc, cpu')

/-- Execution ends at an `rti`. -/
theorem step_rti {r : List (Line Label) × Cpu} (h : r.1 = [.rti]) : step k.procSwitchTo r = none := by
  rw [← r.eta, h]
  rfl

variable {func procStop pc argc : Word}

/-- Every call that returns does so. -/
theorem SwitchesTo.switched (h : SwitchesTo k cpu pc cpu') (hswitch : Switchable k p q cpu)
    (hs : cpu.mem (field q 0) ≤ 63) :
  ∃ m r, Switched k p q cpu pc cpu' m r
  := by
  have hleads : Leads k.procSwitchTo (k.procSwitchTo, cpu) fun r => r.1 = [.rti]
      ∧ ∃ m, Suspended k p cpu.s cpu.mem m ∧ SwappedIn q m r.2 ∧ MadeCurrent k q m r.2.mem := by
    apply switch_leads_of hswitch
    intro cpu₁ harg hout
    rw [← hout.field_eq hswitch (by decide)] at hs
    obtain ⟨r, hr, hrti, hmade⟩ := swapIn_leads_current (k := k) hswitch.isProc harg hs
    refine ⟨r, hr, hrti, cpu₁.mem, hout, ?_, hmade⟩
    apply ((swapIn_leads hswitch.isProc harg hs).of_end _ hr (step_rti hrti)).2
    rintro r ⟨hr, -⟩
    apply step_rti hr
  obtain ⟨r, hr, hrti, hresult⟩ := h
  obtain ⟨-, m, hout, hin, hmade⟩ := hleads.of_end (fun r hr => step_rti hr.1) hr (step_rti hrti)
  exact ⟨m, r.2, hout, hin, hmade, hresult⟩

/-! ### Contexts -/

/-- What a process that does not run continues with. -/
inductive Context where
  /-- It is new, and starts at `func`. -/
  | fresh (p : NewProc) (func procStop argc : Word)
  /-- It called `proc_switch_to` in the state `cpu`. -/
  | suspended (cpu : Cpu)

/-- The process block `p` has the context in the memory `m`. -/
def Context.In (k : Link) (p : Word) (m : Memory) : Context → Prop
  | .fresh q func procStop argc => q.block = p ∧ Prepared q func procStop argc m
  | .suspended cpu => IsProc p ∧ 3 ≤ cpu.s ∧ cpu.s ≤ 63 ∧ Saved k p cpu.s cpu.mem m

/-- The context in the process block `p` is not written, except the value to return to a process that
was suspended. -/
def Context.Kept (p : Word) (m m' : Memory) : Context → Prop
  | .fresh q _ _ _ =>
      (∀ i < SIZEOF_PROC_CONTEXT, m' (field p i) = m (field p i))
        ∧ m' (q.zp + 2) = m (q.zp + 2) ∧ m' (q.zp + 3) = m (q.zp + 3)
  | .suspended _ =>
      ∀ i < SIZEOF_PROC_CONTEXT, i ≠ offsetAX → i ≠ offsetAX + 1 → m' (field p i) = m (field p i)

/-- The process with the block `p`, which called `proc_switch_to` in the state `cpu`, continues in the
state `cpu'`, after a switch in the memory `m`: it has its stack pointer, its return stack, the value
of its block and its kernel stack pointer, if it had one. -/
structure Resumed (p : Word) (cpu : Cpu) (m : Memory) (cpu' : Cpu) : Prop where
  s_eq : cpu'.s = cpu.s
  stack : ∀ i, cpu.s.toNat < i → i < CONFIG_RETURN_STACK_SIZE →
    cpu'.mem (stackByte i) = cpu.mem (stackByte i)
  a_eq : cpu'.a = m (field p offsetAX)
  x_eq : cpu'.x = m (field p (offsetAX + 1))
  kstack : cpu.mem.word (rc 0) ≠ 0 → cpu'.mem.word (rc 0) = cpu.mem.word (rc 0)

/-- After a switch in the memory `m` the process continues at the address `pc` in the state `cpu'`. -/
def Context.Continues (k : Link) (p : Word) (m : Memory) (pc : Word) (cpu' : Cpu) : Context → Prop
  | .fresh q func procStop argc => pc = func ∧ Started q argc procStop m cpu'
  | .suspended cpu => pc = k.swapInReturn ∧ Resumed p cpu m cpu'

/-- The kernel stack pointer of a process that is resumed. -/
theorem SwappedIn.kstack_of_saved {s : Byte} {m₀ : Memory} (h : SwappedIn p m cpu)
    (hsaved : Saved k p s m₀ m) (hne : m₀.word (rc 0) ≠ 0) :
  cpu.mem.word (rc 0) = m₀.word (rc 0)
  := by
  have hsome : ¬ NoKstack p m := by
    rintro ⟨hlo, hhi⟩
    apply hne
    rw [hsaved.rc0] at hlo
    rw [hsaved.rc1] at hhi
    rw [Memory.word, show rc 0 + 1 = rc 1 from rfl, hlo, hhi]
    rfl
  rw [Memory.word, Memory.word, show rc 0 + 1 = rc 1 from rfl, h.loaded.rc0 hsome,
    h.loaded.rc1 hsome, hsaved.rc0, hsaved.rc1]

namespace Context

variable {c : Context}

theorem In.isProc (h : c.In k p m) : IsProc p := by
  cases c with
  | fresh q func procStop argc =>
      obtain ⟨rfl, -⟩ := h
      apply q.isProc
  | suspended cpu => apply h.1

/-- The stack pointer of a process block that has a context. -/
theorem In.s_le (h : c.In k p m) : m (field p 0) ≤ 63 := by
  cases c with
  | fresh q func procStop argc =>
      obtain ⟨rfl, hprepared⟩ := h
      rw [hprepared.s_eq]
      decide
  | suspended cpu =>
      obtain ⟨-, hlo, hhi, hsaved⟩ := h
      rw [hsaved.s_eq]
      bv_omega

/-- A context that is not written remains. -/
theorem In.kept (h : c.In k p m) (hkept : c.Kept p m m') : c.In k p m' := by
  cases c with
  | fresh q func procStop argc =>
      obtain ⟨rfl, hprepared⟩ := h
      obtain ⟨hfield, hlo, hhi⟩ := hkept
      exact ⟨rfl, hprepared.congr hfield hlo hhi⟩
  | suspended cpu =>
      obtain ⟨hp, hlo, hhi, hsaved⟩ := h
      exact ⟨hp, hlo, hhi, hsaved.congr hlo hhi hkept⟩

/-- A context is kept if its block and the zero pages of the processes are. -/
theorem In.kept_of_field (h : c.In k p m) (hzero : SameZeroPages m m')
    (hfield : ∀ i < 81, m' (field p i) = m (field p i)) :
  c.Kept p m m'
  := by
  cases c with
  | fresh q func procStop argc =>
      have hbounds := zp_bounds q
      unfold PROC_ZP_SIZE at hbounds
      refine ⟨hfield, ?_, ?_⟩
      · apply hzero <;> bv_omega
      · apply hzero <;> bv_omega
  | suspended cpu =>
      intro i hi _ _
      apply hfield i hi

/-- A switch to a process with a context returns, and the process continues with it. -/
theorem In.continues (h : c.In k q cpu.mem) (hswitch : Switchable k p q cpu) :
  ∃ pc cpu', SwitchesTo k cpu pc cpu' ∧ c.Continues k q cpu.mem pc cpu'
  := by
  have hle := h.s_le
  cases c with
  | fresh q' func procStop argc =>
      obtain ⟨rfl, hprepared⟩ := h
      obtain ⟨cpu', hto, hstarted⟩ := hprepared.started hswitch
      exact ⟨func, cpu', hto, rfl, hstarted⟩
  | suspended cpu₀ =>
      obtain ⟨hq, hs, hs', hsaved⟩ := h
      obtain ⟨r, hr, hrti, m, hout, hin⟩ := switch_leads hswitch hle
      have hfield {i : ℕ} (hi : i < 81) : m (field q i) = cpu.mem (field q i) :=
        hout.field_eq hswitch hi
      have hsaved' := hsaved.congr hs hs' fun i hi _ _ => hfield hi
      obtain ⟨hpc, hs_eq, hstack⟩ := hin.rti_of_saved hs hs' hsaved'
      refine ⟨r.2.rti.1, r.2.rti.2, ⟨r, hr, hrti, rfl⟩, hpc, hs_eq, hstack, ?_, ?_, ?_⟩
      · apply hin.a_eq.trans (hfield (by decide))
      · apply hin.x_eq.trans (hfield (by decide))
      · apply hin.kstack_of_saved hsaved'

end Context

/-! ### The processes -/

/-- The processor, the process that runs, or no process, and what the others continue with. -/
structure Machine where
  cpu : Cpu
  current : Word
  context : Word → Option Context

namespace Machine

/-- The block belongs to a process. -/
def Process (x : Machine) (p : Word) : Prop :=
  p = x.current ∧ p ≠ 0 ∨ x.context p ≠ none

/-- What the allocator and the process table give to a new process: a block that overlaps with no
other, and a zero page that no other new process has. -/
structure Vacant (x : Machine) (p : NewProc) : Prop where
  apart : ∀ q, x.Process q → Apart p.block q
  pid : ∀ q c f s a, x.context q = some (.fresh c f s a) → c.pid ≠ p.pid

/-- The process that runs calls `proc_switch_to` for the process `q`, with a return stack that fits
its block. -/
structure Calls (x : Machine) (q : Word) : Prop where
  argument : argument x.cpu.mem = q
  fits : x.current ≠ 0 → 3 ≤ x.cpu.s ∧ x.cpu.s ≤ 63

/-- A process with the block `p` is created, which leads to the memory `m`. -/
def add (x : Machine) (p : Word) (c : Context) (m : Memory) : Machine :=
  { cpu := { x.cpu with mem := m }
    current := x.current
    context := Function.update x.context p (some c) }

/-- The contexts when the process that runs switches to the process `q`. -/
def suspend (x : Machine) (q : Word) : Word → Option Context := fun p =>
  if p = q then none
  else if p = x.current ∧ p ≠ 0 then some (.suspended x.cpu)
  else x.context p

end Machine

/-- What happens to the processes. -/
inductive Action where
  /-- The processor executes any code that is not `proc_switch_to`, up to the state `cpu`. -/
  | run (cpu : Cpu)
  /-- `proc_create_internal` -/
  | create (room : Room) (func procStop argv : Word) (argc : Int) (p : NewProc)
  /-- `proc_switch_to`, for a process that does not run -/
  | switch (q : Word)

/-- The steps of the processes. -/
def Machine.Step (k : Link) (x : Machine) : Action → Machine → Prop
  | .run cpu, x' =>
      cpu.mem k.cur = x.cpu.mem k.cur ∧ cpu.mem k.cur' = x.cpu.mem k.cur'
        ∧ (∀ p c, x.context p = some c → c.Kept p x.cpu.mem cpu.mem) ∧ x' = { x with cpu := cpu }
  | .create room func procStop argv argc p, x' =>
      x.Vacant p ∧ ∃ m, procCreateInternal room func procStop argc argv x.cpu.mem = some (.ok p, m)
        ∧ x' = x.add p.block (.fresh p func procStop (BitVec.ofInt 16 argc)) m
  | .switch q, x' =>
      x.context q ≠ none ∧ x.Calls q ∧ ∃ pc cpu, SwitchesTo k x.cpu pc cpu
        ∧ x' = { cpu := cpu, current := q, context := x.suspend q }

/-- The processes, from `proc_init` on. -/
def machine (k : Link) : System Machine Action where
  start x := x.current = 0 ∧ Current k x.cpu.mem 0 ∧ x.context = fun _ => none
  step := Machine.Step k

/-- Every process that does not run has its context in its block, and the blocks do not overlap. -/
structure Owed (k : Link) (x : Machine) : Prop where
  current : Current k x.cpu.mem x.current
  isProc : ∀ p, x.Process p → IsProc p
  held : ∀ p c, x.context p = some c → c.In k p x.cpu.mem
  other : x.current ≠ 0 → x.context x.current = none
  apart : ∀ p q, x.Process p → x.Process q → p ≠ q → Apart p q

theorem Apart.symm (h : Apart p q) : Apart q p := Or.symm h

/-! ### A new process -/

/-- `proc_create` returns an error and changes nothing, or it has room for a process. -/
theorem procCreate_cases (room : Room) (argc : Int) (argv : Word) (m : Memory) :
  (∃ e, procCreate room argc argv m = some (.error e, m)) ∨ ∃ p, Accepted room argc argv p
  := by
  obtain ⟨_ | argvCopy, _ | pid, _ | block⟩ := room
  all_goals
    unfold procCreate
    split_ifs with hargv hlo hhi
    all_goals try exact Or.inl ⟨_, rfl⟩
  right
  exact ⟨⟨pid, block.1, argvCopy, block.2⟩, hargv, by omega, by omega, rfl, rfl, rfl⟩

/-- The memory after `proc_create_internal`. -/
theorem procCreateInternal_ok {room : Room} {argv : Word} {argc : Int} {p : NewProc}
    (h : procCreateInternal room func procStop argc argv m = some (.ok p, m')) :
  m' = argImage p (BitVec.ofInt 16 argc) (stackImage p.block func procStop (cleared p m))
  := by
  obtain ⟨e, he⟩ | ⟨p', hp'⟩ := procCreate_cases room argc argv m
  · have herror : procCreateInternal room func procStop argc argv m = some (.error e, m) :=
      Program.bind_eq he
    rw [herror] at h
    cases h
  · rw [procCreateInternal_eq hp'] at h
    cases h
    rfl

/-- `proc_create_internal` writes the process block and the zero page of the process only. -/
theorem created_frame {p : NewProc} (hfield : ∀ i < 81, a ≠ field p.block i)
    (hzp : a.toNat < p.zp.toNat ∨ p.zp.toNat + 32 ≤ a.toNat) :
  argImage p argc (stackImage p.block func procStop (cleared p m)) a = m a
  := by
  have hbounds := zp_bounds p
  unfold PROC_ZP_SIZE at hbounds
  have hblock : ¬ (a - p.block).toNat < SIZEOF_PROC_CONTEXT := by
    intro hlt
    apply hfield _ hlt
    unfold field
    rw [BitVec.ofNat_toNat, BitVec.setWidth_eq]
    bv_omega
  have hzero : ¬ (a - p.zp).toNat < PROC_ZP_SIZE := by
    unfold PROC_ZP_SIZE
    bv_omega
  rw [image_frame, cleared, fill, if_neg hzero, fill, if_neg hblock]
  · intro i hi
    apply hfield i (Nat.lt_of_lt_of_le hi (by decide))
  · bv_omega
  · bv_omega

/-! ### Every step keeps the contexts -/

namespace Owed

variable {x : Machine}

variable (h : Owed k x)

include h

/-- The process that runs has no context. -/
theorem current_ne (hq : x.context q ≠ none) (hne : x.current ≠ 0) :
  x.current ≠ q
  := by
  rintro rfl
  apply hq (h.other hne)

/-- A process that does not run can be switched to. -/
theorem switchable (hq : x.context q ≠ none) (hcall : x.Calls q) :
  Switchable k x.current q x.cpu
  where
  current := h.current
  running hne := by
    have hcurrent : x.Process x.current := Or.inl ⟨rfl, hne⟩
    obtain ⟨hlo, hhi⟩ := hcall.fits hne
    exact ⟨⟨h.isProc _ hcurrent, h.current, hlo, hhi⟩,
      h.apart _ _ hcurrent (Or.inr hq) (h.current_ne hq hne)⟩
  isProc := h.isProc q (Or.inr hq)
  argument := hcall.argument

/-- Code that keeps the contexts. -/
theorem run (hlo : cpu.mem k.cur = x.cpu.mem k.cur) (hhi : cpu.mem k.cur' = x.cpu.mem k.cur')
    (hkept : ∀ p c, x.context p = some c → c.Kept p x.cpu.mem cpu.mem) :
  Owed k { x with cpu := cpu }
  where
  current := h.current.congr hlo hhi
  isProc := h.isProc
  held p c hc := (h.held p c hc).kept (hkept p c hc)
  other := h.other
  apart := h.apart

/-- The contexts of the other processes when a process is created. -/
theorem kept_of_create {p : NewProc} (hp : x.Vacant p) {c : Context} (hc : x.context q = some c) :
  c.Kept q x.cpu.mem (argImage p argc (stackImage p.block func procStop (cleared p x.cpu.mem)))
  := by
  have hq := h.isProc q (Or.inr (by simp [hc]))
  have hlo := hq.lo
  have hbounds := zp_bounds p
  unfold PROC_ZP_SIZE at hbounds
  have hfield (i : ℕ) (hi : i < 81) :
      argImage p argc (stackImage p.block func procStop (cleared p x.cpu.mem)) (field q i)
        = x.cpu.mem (field q i) := by
    apply created_frame
    · intro j hj
      apply (field_ne_field_of_apart p.isProc hq (hp.apart q (Or.inr (by simp [hc]))) hj hi).symm
    · rw [toNat_field hq hi]
      omega
  cases c with
  | fresh q' f s a =>
      have hpid : q'.pid.val ≠ p.pid.val := Fin.val_ne_of_ne (hp.pid q q' f s a hc)
      have hbounds' := zp_bounds q'
      unfold PROC_ZP_SIZE at hbounds'
      have hzp (p : NewProc) : p.zp.toNat = (p.pid.val + 2) * 32 := by
        have hlt := p.pid.isLt
        unfold NewProc.zp PROC_ZP_SIZE CONFIG_PROC_MAX at *
        rw [BitVec.toNat_ofNat]
        omega
      have hzp_p := hzp p
      have hzp_q := hzp q'
      refine ⟨hfield, ?_, ?_⟩
      · apply created_frame
        · apply ne_field_of_lt p.isProc
          bv_omega
        · rw [BitVec.toNat_add]
          have : (2 : Word).toNat = 2 := rfl
          omega
      · apply created_frame
        · apply ne_field_of_lt p.isProc
          bv_omega
        · rw [BitVec.toNat_add]
          have : (3 : Word).toNat = 3 := rfl
          omega
  | suspended cpu =>
      intro i hi _ _
      apply hfield i hi

/-- A process is created. -/
theorem create {p : NewProc} (hp : x.Vacant p)
    (hm : m = argImage p argc (stackImage p.block func procStop (cleared p x.cpu.mem))) :
  Owed k (x.add p.block (.fresh p func procStop argc) m)
  := by
  have hself : ¬ x.Process p.block := by
    intro hblock
    have happart := hp.apart _ hblock
    unfold Apart SIZEOF_PROC_CONTEXT at happart
    omega
  have hcontext {q : Word} (hq : q ≠ p.block) :
      (x.add p.block (.fresh p func procStop argc) m).context q = x.context q :=
    Function.update_of_ne hq _ _
  have hprocess (q : Word) (hq : (x.add p.block (.fresh p func procStop argc) m).Process q) :
      q = p.block ∨ x.Process q := by
    by_cases hqp : q = p.block
    · exact Or.inl hqp
    · right
      obtain hq | hq := hq
      · exact Or.inl hq
      · right
        rwa [hcontext hqp] at hq
  have hcur := cur_bounds (k := k)
  have hbounds := zp_bounds p
  have hcurrent (a : Word) (ha : a.toNat < 0x40) : m a = x.cpu.mem a := by
    rw [hm]
    apply created_frame
    · apply ne_field_of_lt p.isProc
      omega
    · omega
  constructor
  · apply h.current.congr
    · apply hcurrent
      rw [toNat_cur]
      omega
    · apply hcurrent
      rw [toNat_cur']
      omega
  · intro q hq
    obtain rfl | hq := hprocess q hq
    · apply p.isProc
    · apply h.isProc q hq
  · intro q c hc
    by_cases hqp : q = p.block
    · subst hqp
      cases (Function.update_self _ _ _).symm.trans hc
      refine ⟨rfl, ?_⟩
      apply hm ▸ prepared_image _
    · rw [hcontext hqp] at hc
      apply (h.held q c hc).kept
      apply hm ▸ h.kept_of_create hp hc
  · intro hne
    have hcb : x.current ≠ p.block := by
      intro heq
      apply hself
      exact Or.inl ⟨heq.symm, heq ▸ hne⟩
    apply (hcontext hcb).trans (h.other hne)
  · intro q r hq hr hqr
    obtain rfl | hq := hprocess q hq
    · obtain rfl | hr := hprocess r hr
      · contradiction
      · apply hp.apart r hr
    · obtain rfl | hr := hprocess r hr
      · apply (hp.apart q hq).symm
      · apply h.apart q r hq hr hqr

/-- The contexts of the processes that neither run nor are switched to. -/
theorem kept_of_switch {r : Cpu} {c : Context} (hswitch : Switchable k x.current q x.cpu)
    (hq : x.context q ≠ none) (hswitched : Switched k x.current q x.cpu pc cpu m r)
    (hc : x.context p = some c) (hpq : p ≠ q) :
  c.Kept p x.cpu.mem r.mem
  := by
  have hprocess : x.Process p := Or.inr (by simp [hc])
  have hp := h.isProc p hprocess
  have hlo := hp.lo
  apply (h.held p c hc).kept_of_field
  · intro a ha ha'
    rw [hswitched.made.zeroPages a ha ha', hswitched.out.zeroPages hswitch a ha ha']
  · intro i hi
    have hin : r.mem (field p i) = m (field p i) := by
      apply hswitched.swappedIn.loaded.frame
      · rw [toNat_field hp hi]
        omega
      · intro j hj
        apply field_ne_field_of_apart hp hswitch.isProc _ hi hj
        apply h.apart p q hprocess (Or.inr hq) hpq
    have hout := hswitched.out
    unfold Suspended at hout
    split_ifs at hout with hzero
    · rw [hin, hout]
    · have hcurrent : x.Process x.current := Or.inl ⟨rfl, hzero⟩
      rw [hin, hout.field_eq (h.isProc _ hcurrent) hp _ hi]
      apply h.apart _ p hcurrent hprocess
      apply h.current_ne _ hzero
      simp [hc]

/-- The process that runs switches to another one. -/
theorem switch (hq : x.context q ≠ none) (hcall : x.Calls q) (hto : SwitchesTo k x.cpu pc cpu) :
  Owed k { cpu := cpu, current := q, context := x.suspend q }
  := by
  have hswitch := h.switchable hq hcall
  obtain ⟨c, hc⟩ := Option.ne_none_iff_exists'.mp hq
  obtain ⟨m, r, hswitched⟩ := hto.switched hswitch (h.held q c hc).s_le
  have hmem : cpu.mem = r.mem := (congrArg (·.2.mem) hswitched.rti_eq).symm
  have hprocess (p : Word)
      (hp : Machine.Process { cpu := cpu, current := q, context := x.suspend q } p) : x.Process p := by
    obtain ⟨rfl, -⟩ | hp := hp
    · exact Or.inr hq
    · simp only [Machine.suspend] at hp
      split_ifs at hp with hpq hcurrent
      · exact absurd rfl hp
      · exact Or.inl hcurrent
      · exact Or.inr hp
  constructor
  · rw [hmem]
    apply hswitched.made.current
  · intro p hp
    apply h.isProc p (hprocess p hp)
  · intro p c hc
    rw [hmem]
    simp only [Machine.suspend] at hc
    split_ifs at hc with hpq hcurrent
    · obtain ⟨rfl, hne⟩ := hcurrent
      cases hc
      obtain ⟨hrunning, hapart⟩ := hswitch.running hne
      have hout := hswitched.out
      rw [Suspended, if_neg hne] at hout
      refine ⟨hrunning.isProc, hrunning.s_lo, hrunning.s_hi, ?_⟩
      apply hout.toSaved.congr hrunning.s_lo hrunning.s_hi
      intro i hi _ _
      have hlo := hrunning.isProc.lo
      apply hswitched.swappedIn.loaded.frame
      · rw [toNat_field hrunning.isProc hi]
        omega
      · intro j hj
        apply field_ne_field_of_apart hrunning.isProc hswitch.isProc hapart hi hj
    · apply (h.held p c hc).kept (h.kept_of_switch hswitch hq hswitched hc hpq)
  · intro _
    simp [Machine.suspend]
  · intro p p' hp hp' hne
    apply h.apart p p' (hprocess p hp) (hprocess p' hp') hne

/-- Every step keeps the contexts. -/
theorem step {x' : Machine} {a : Action} (hs : (machine k).step x a x') :
  Owed k x'
  := by
  cases a with
  | run cpu =>
      obtain ⟨hlo, hhi, hkept, rfl⟩ := hs
      apply h.run hlo hhi hkept
  | create room func procStop argv argc p =>
      obtain ⟨hp, m, hm, rfl⟩ := hs
      apply h.create hp (procCreateInternal_ok hm)
  | switch q =>
      obtain ⟨hq, hcall, pc, cpu, hto, rfl⟩ := hs
      apply h.switch hq hcall hto

end Owed

/-- In every reachable state the processes have their contexts. -/
theorem owed_of_reachable {x : Machine} (h : (machine k).Reachable (fun _ _ => True) x) :
  Owed k x
  := by
  apply h.invariant
  · rintro x ⟨hzero, hcurrent, hnone⟩
    have hprocess (p : Word) : ¬ x.Process p := by
      simp [Machine.Process, hzero, hnone]
    constructor
    · rwa [hzero]
    · intro p hp
      exact absurd hp (hprocess p)
    · simp [hnone]
    · simp [hnone]
    · intro p _ hp
      exact absurd hp (hprocess p)
  · intro x a x' hi _ hs
    apply hi.step hs

/-! ### The main result -/

/-- In every run of any number of processes, in which they are created and switch to each other at any
time and in any order, a switch to a process that does not run returns.  A new process starts at its
function with its arguments.  Every other process continues where it called `proc_switch_to`, with the
stack pointer and the return stack it had, with its kernel stack pointer, if it had one, and with the
value of its block. -/
theorem continues_of_reachable {x : Machine} (h : (machine k).Reachable (fun _ _ => True) x)
    {c : Context} (hq : x.context q = some c) (hcall : x.Calls q) :
  ∃ pc cpu, SwitchesTo k x.cpu pc cpu ∧ c.Continues k q x.cpu.mem pc cpu
  := by
  have howed := owed_of_reachable h
  apply (howed.held q c hq).continues (howed.switchable _ hcall)
  simp [hq]

/-! ### Two processes -/

/-- The process that runs passes the process `q` to `proc_switch_to`. -/
def callState (q : Word) (cpu : Cpu) : Cpu :=
  { cpu with
    s := 63
    mem := (cpu.mem.store (rc 2) (q.setWidth 8)).store (rc 3) ((q >>> 8).setWidth 8) }

/-- The process that runs may call `proc_switch_to` for any process. -/
theorem Owed.call {x : Machine} (h : Owed k x) (q : Word) :
  (machine k).step x (.run (callState q x.cpu)) { x with cpu := callState q x.cpu }
    ∧ Machine.Calls { x with cpu := callState q x.cpu } q
  := by
  have hframe (a : Word) (h2 : a ≠ rc 2) (h3 : a ≠ rc 3) :
      (callState q x.cpu).mem a = x.cpu.mem a := by
    apply (store_of_ne h3).trans (store_of_ne h2)
  refine ⟨⟨?_, ?_, ?_, rfl⟩, ?_, ?_⟩
  · apply hframe
    · apply (rc_ne_cur (by decide)).symm
    · apply (rc_ne_cur (by decide)).symm
  · apply hframe
    · apply (rc_ne_cur' (by decide)).symm
    · apply (rc_ne_cur' (by decide)).symm
  · intro p c hc
    have hin := h.held p c hc
    apply hin.kept_of_field
    · intro a ha _
      apply hframe
      · apply ne_of_toNat
        rw [toNat_rc (by decide)]
        omega
      · apply ne_of_toNat
        rw [toNat_rc (by decide)]
        omega
    · intro i hi
      apply hframe
      · apply field_ne_rc hin.isProc hi (by decide)
      · apply field_ne_rc hin.isProc hi (by decide)
  · simp only [argument, callState]
    rw [store_self, store_of_ne (by decide), store_self]
    apply setWidth_append
  · intro _
    exact ⟨show (3 : Byte) ≤ 63 by decide, BitVec.le_refl 63⟩

/-- A process that does not run can be switched to at any time. -/
theorem exists_switch {x : Machine} (h : (machine k).Reachable (fun _ _ => True) x)
    (hq : x.context q ≠ none) :
  ∃ cpu, (machine k).Reachable (fun _ _ => True)
    { cpu := cpu, current := q, context := Machine.suspend { x with cpu := callState q x.cpu } q }
  := by
  have howed := owed_of_reachable h
  obtain ⟨hrun, hcall⟩ := howed.call q
  obtain ⟨c, hc⟩ := Option.ne_none_iff_exists'.mp hq
  have howed' := howed.step hrun
  obtain ⟨pc, cpu, hto, -⟩ := (howed'.held q c hc).continues (howed'.switchable hq hcall)
  use cpu
  apply (h.step trivial hrun).step (a := Action.switch q) trivial
  exact ⟨hq, hcall, pc, cpu, hto, rfl⟩

/-- A process with the block `0x300`. -/
def secondProc : NewProc where
  pid := ⟨1, by decide⟩
  block := 0x300
  argv := 0x400
  isProc := ⟨by decide, by decide⟩

/-- No process has been created. -/
def noProc : Machine where
  cpu := startShell fun _ => 0
  current := 0
  context _ := none

/-- The shell is created. -/
def shellMachine : Machine :=
  noProc.add 0x200 (.fresh shellProc 0x8000 0x9000 1)
    (argImage shellProc 1 (stackImage 0x200 0x8000 0x9000 (cleared shellProc noProc.cpu.mem)))

/-- A second process is created. -/
def twoMachine : Machine :=
  shellMachine.add 0x300 (.fresh secondProc 0xA000 0x9000 1)
    (argImage secondProc 1 (stackImage 0x300 0xA000 0x9000 (cleared secondProc shellMachine.cpu.mem)))

theorem twoMachine_reachable : (machine twoProcs).Reachable (fun _ _ => True) twoMachine := by
  have h₀ : (machine twoProcs).Reachable (fun _ _ => True) noProc :=
    .start ⟨rfl, (switchable_startShell _).current, rfl⟩
  have hshell : Accepted shellRoom 1 0x4000 shellProc := ⟨by decide, by decide, by decide, rfl, rfl, rfl⟩
  have h₁ : (machine twoProcs).Reachable (fun _ _ => True) shellMachine := by
    apply h₀.step (a := Action.create shellRoom 0x8000 0x9000 0x4000 1 shellProc) trivial
    refine ⟨⟨?_, ?_⟩, _, procCreateInternal_eq hshell, rfl⟩
    · rintro q (⟨rfl, hq⟩ | hq)
      · exact absurd rfl hq
      · exact absurd rfl hq
    · rintro q c f s a ⟨⟩
  let room : Room := ⟨some 0x400, some secondProc.pid, some ⟨0x300, secondProc.isProc⟩⟩
  have hsecond : Accepted room 1 0x4000 secondProc := ⟨by decide, by decide, by decide, rfl, rfl, rfl⟩
  apply h₁.step (a := Action.create room 0xA000 0x9000 0x4000 1 secondProc) trivial
  have hcontext (q : Word) (hq : q ≠ 0x200) : shellMachine.context q = none :=
    Function.update_of_ne hq _ _
  refine ⟨⟨?_, ?_⟩, _, procCreateInternal_eq hsecond, rfl⟩
  · rintro q (⟨rfl, hq⟩ | hq)
    · exact absurd rfl hq
    · obtain rfl : q = 0x200 := by
        by_contra hne
        apply hq (hcontext q hne)
      apply Or.inr
      decide
  · intro q c f s a hq
    obtain rfl : q = 0x200 := by
      by_contra hne
      rw [hcontext q hne] at hq
      cases hq
    obtain ⟨rfl, -⟩ := Context.fresh.inj (Option.some.inj hq)
    decide

/-- The first process switches to the second one, and is switched to again. -/
theorem continues_of_reachable_twoProcs :
  ∃ x cpu₀, (machine twoProcs).Reachable (fun _ _ => True) x
    ∧ x.context 0x200 = some (.suspended cpu₀)
    ∧ ∃ cpu, SwitchesTo twoProcs x.cpu 0x8000 cpu ∧ Resumed 0x200 cpu₀ x.cpu.mem cpu
  := by
  obtain ⟨cpu₁, h₁⟩ := exists_switch twoMachine_reachable (q := 0x200) (by simp [twoMachine,
    shellMachine, Machine.add])
  obtain ⟨cpu₂, h₂⟩ := exists_switch h₁ (q := 0x300) (by simp [twoMachine, shellMachine,
    noProc, Machine.suspend, Machine.add])
  obtain ⟨hrun, hcall⟩ := (owed_of_reachable h₂).call 0x200
  have h₃ := h₂.step trivial hrun
  obtain ⟨pc, cpu, hto, rfl, hresumed⟩ := continues_of_reachable h₃ (q := 0x200)
    (c := .suspended (callState 0x300 cpu₁)) (by simp [Machine.suspend]) hcall
  exact ⟨_, callState 0x300 cpu₁, h₃, by simp [Machine.suspend], cpu, hto, hresumed⟩

end Mosnix.Switcher
