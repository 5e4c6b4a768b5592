import Mosnix.Sched.SwitchTo
import Mosnix.Lib.Program

/-!
# The first dispatch of a process

The function `proc_create_internal` of `proc.c` builds the return stack of a new process in its
block, so that `proc_switch_to` can start the process in the same way as it resumes one that was
swapped out.  The members of `struct proc` after the context are not in the memory of this model.
-/

namespace Mosnix.Switcher

open Mos6502 Memory Program

/-! ### The process block -/

def CONFIG_PROC_MAX : ℕ := 6

def CONFIG_ARGC_MAX : ℕ := 64

def PROC_ZP_SIZE : ℕ := 32

/-- What the process table and the allocators have for `proc_create`. -/
structure Room where
  argvCopy : Option Word
  pid : Option (Fin CONFIG_PROC_MAX)
  block : Option { p : Word // IsProc p }

/-- A new process: its index in the process table, its block, and its arguments. -/
structure NewProc where
  pid : Fin CONFIG_PROC_MAX
  block : Word
  argv : Word
  isProc : IsProc block

/-- The address in the zero page of the registers of a process. -/
def NewProc.zp (p : NewProc) : Word :=
  BitVec.ofNat 16 ((p.pid + 2) * PROC_ZP_SIZE)

/-- `proc_create`: the new process, or the error code. -/
def procCreate (room : Room) (argc : Int) (argv : Word) : Program Memory (Except Int NewProc) :=
  if argv = 0 then
    return .error (-EFAULT)
  else if argc < 1 then
    return .error (-EINVAL)
  else if argc > CONFIG_ARGC_MAX then
    return .error (-E2BIG)
  else
    match room.argvCopy, room.pid, room.block with
    | some argvCopy, some pid, some block => do
        let p : NewProc := ⟨pid, block, argvCopy, block.2⟩
        modifyThe Memory fun m => m.fill p.block SIZEOF_PROC_CONTEXT 0
        modifyThe Memory fun m => m.fill p.zp PROC_ZP_SIZE 0
        return .ok p
    | _, _, _ => return .error (-ENOMEM)

/-- A byte of `context.stack` is set; outside the array that is a fault. -/
def setStack (p : Word) (i : ℕ) (b : Byte) : Program Memory Unit :=
  if i < CONFIG_RETURN_STACK_SIZE then modifyThe Memory fun m => m.store (field p (i + 3)) b
  else fault

/-- `proc_push_return_stack` -/
def procPushReturnStack (p : Word) (value : Word) : Program Memory Unit := do
  let s := (← get) (field p 0) - 2
  let value := value - 1
  setStack p (s.toNat + 1) (value.setWidth 8)
  setStack p (s.toNat + 2) ((value >>> 8).setWidth 8)
  modifyThe Memory fun m => m.store (field p 0) s

/-- `proc_push_byte` -/
def procPushByte (p : Word) (value : Byte) : Program Memory Unit := do
  let s := (← get) (field p 0)
  setStack p s.toNat value
  modifyThe Memory fun m => m.store (field p 0) (s - 1)

/-- `proc_set_arg2` -/
def procSetArg2 (zp : Word) (value : Word) : Program Memory Unit :=
  modifyThe Memory fun m =>
    (m.store (zp + 2) (value.setWidth 8)).store (zp + 3) ((value >>> 8).setWidth 8)

/-- `proc_create_internal`, up to the change of the state of the process. -/
def procCreateInternal (room : Room) (func procStop : Word) (argc : Int) (argv : Word) :
    Program Memory (Except Int NewProc) := do
  match ← procCreate room argc argv with
  | .error err => return .error err
  | .ok p =>
      modifyThe Memory fun m =>
        m.store (field p.block 0) (BitVec.ofNat 8 (CONFIG_RETURN_STACK_SIZE - 1))
      procPushReturnStack p.block procStop
      procPushReturnStack p.block (func + 1)
      procPushByte p.block 0x00
      modifyThe Memory fun m => m.storeWord (field p.block offsetAX) (BitVec.ofInt 16 argc)
      procSetArg2 p.zp p.argv
      return .ok p

/-! ### Stores to the process block -/

variable {k : Link} {m : Memory} {p q : Word} {i j : ℕ} {b : Byte}

/-- The fields of a block after a store. -/
theorem field_store (hp : IsProc p) (hi : i < 81) (hj : j < 81) :
  (m.store (field p j) b) (field p i) = if i = j then b else m (field p i)
  := by
  by_cases hij : i = j
  · rw [hij, store_self, if_pos rfl]
  · rw [store_of_ne (field_ne_field hp hi hj hij), if_neg hij]

theorem field_add_one (p : Word) (i : ℕ) : field p i + 1 = field p (i + 1) := by
  unfold field
  bv_omega

/-- A byte of the stack is written. -/
theorem setStack_eq (hi : i < CONFIG_RETURN_STACK_SIZE) :
  setStack p i b m = some ((), m.store (field p (i + 3)) b)
  := by
  rw [setStack, if_pos hi]
  rfl

/-- The effect of `proc_push_return_stack` when the stack pointer is `s`. -/
theorem procPushReturnStack_eq {s : Byte} {value : Word} (hs : m (field p 0) = s)
    (hlo : 2 ≤ s.toNat) (hhi : s.toNat < CONFIG_RETURN_STACK_SIZE) :
  procPushReturnStack p value m = some ((),
    ((m.store (field p (s.toNat + 2)) ((value - 1).setWidth 8)).store (field p (s.toNat + 3))
      (((value - 1) >>> 8).setWidth 8)).store (field p 0) (s - 2))
  := by
  have hs₁ : (s - 2).toNat + 1 = s.toNat - 1 := by bv_omega
  have hs₂ : (s - 2).toNat + 2 = s.toNat := by bv_omega
  have hs₃ : s.toNat - 1 + 3 = s.toNat + 2 := by omega
  apply (bind_eq rfl).trans
  rw [hs, hs₁, hs₂]
  apply (bind_eq (setStack_eq (by omega))).trans
  apply (bind_eq (setStack_eq hhi)).trans
  rw [hs₃]
  rfl

/-- The effect of `proc_push_byte` when the stack pointer is `s`. -/
theorem procPushByte_eq {s value : Byte} (hs : m (field p 0) = s)
    (hhi : s.toNat < CONFIG_RETURN_STACK_SIZE) :
  procPushByte p value m
    = some ((), (m.store (field p (s.toNat + 3)) value).store (field p 0) (s - 1))
  := by
  apply (bind_eq rfl).trans
  rw [hs]
  apply (bind_eq (setStack_eq hhi)).trans
  rfl

/-! ### The memory of a new process -/

/-- The memory after `proc_create`. -/
def cleared (p : NewProc) (m : Memory) : Memory :=
  (m.fill p.block SIZEOF_PROC_CONTEXT 0).fill p.zp PROC_ZP_SIZE 0

/-- The memory `m` after the return stack is built in the process block `p`. -/
def stackImage (p : Word) (func procStop : Word) (m : Memory) : Memory :=
  (((((((((m.store (field p 0) 63).store (field p 65) ((procStop - 1).setWidth 8)).store
    (field p 66) (((procStop - 1) >>> 8).setWidth 8)).store (field p 0) 61).store
    (field p 63) (func.setWidth 8)).store (field p 64) ((func >>> 8).setWidth 8)).store
    (field p 0) 59).store (field p 62) 0).store (field p 0) 58)

/-- The memory `m` after the arguments of the process are set. -/
def argImage (p : NewProc) (argc : Word) (m : Memory) : Memory :=
  ((m.storeWord (field p.block offsetAX) argc).store (p.zp + 2) (p.argv.setWidth 8)).store
    (p.zp + 3) ((p.argv >>> 8).setWidth 8)

/-- `proc_create` accepts the arguments, and has room for the process `p`. -/
structure Accepted (room : Room) (argc : Int) (argv : Word) (p : NewProc) : Prop where
  argv_ne : argv ≠ 0
  argc_lo : 1 ≤ argc
  argc_hi : argc ≤ CONFIG_ARGC_MAX
  argvCopy_eq : room.argvCopy = some p.argv
  pid_eq : room.pid = some p.pid
  block_eq : room.block = some ⟨p.block, p.isProc⟩

/-- `proc_create` clears the block of the process. -/
theorem procCreate_eq {room : Room} {argc : Int} {argv : Word} {p : NewProc}
    (h : Accepted room argc argv p) :
  procCreate room argc argv m = some (.ok p, cleared p m)
  := by
  have hlo := h.argc_lo
  have hhi := h.argc_hi
  rw [procCreate, if_neg h.argv_ne, if_neg (by omega), if_neg (by omega), h.argvCopy_eq, h.pid_eq,
    h.block_eq]
  rfl

/-- A process that is created was accepted. -/
theorem Accepted.of_procCreate {room : Room} {argc : Int} {argv : Word} {p : NewProc} {m' : Memory}
    (h : procCreate room argc argv m = some (.ok p, m')) :
  Accepted room argc argv p
  := by
  obtain ⟨_ | argvCopy, _ | pid, _ | block⟩ := room
  all_goals
    unfold procCreate at h
    split_ifs at h with hargv hlo hhi
    all_goals cases h
  exact ⟨hargv, by omega, by omega, rfl, rfl, rfl⟩

/-- `proc_create_internal` writes the stack and the arguments. -/
theorem procCreateInternal_eq {room : Room} {func procStop argv : Word} {argc : Int} {p : NewProc}
    (h : Accepted room argc argv p) :
  procCreateInternal room func procStop argc argv m = some (.ok p,
    argImage p (BitVec.ofInt 16 argc) (stackImage p.block func procStop (cleared p m)))
  := by
  apply (bind_eq (procCreate_eq h)).trans
  apply (bind_eq rfl).trans
  apply (bind_eq (procPushReturnStack_eq store_self (by decide) (by decide))).trans
  apply (bind_eq (procPushReturnStack_eq store_self (by decide) (by decide))).trans
  rw [BitVec.add_sub_cancel]
  apply (bind_eq (procPushByte_eq store_self (by decide))).trans
  rfl

section Image

variable {p : NewProc} {func procStop argc : Word}

theorem zp_bounds (p : NewProc) : 0x40 ≤ p.zp.toNat ∧ p.zp.toNat + PROC_ZP_SIZE ≤ 0x100 := by
  have hpid := p.pid.isLt
  unfold NewProc.zp PROC_ZP_SIZE CONFIG_PROC_MAX at *
  bv_omega

theorem field_ne_zp {c : Word} (hi : i < 81) (hc : c.toNat < 32) : field p.block i ≠ p.zp + c := by
  have hzp := zp_bounds p
  have hlo := p.isProc.lo
  unfold PROC_ZP_SIZE at hzp
  apply ne_of_toNat
  rw [toNat_field p.isProc hi]
  bv_omega

theorem cleared_field (hi : i < 81) : cleared p m (field p.block i) = 0 := by
  have hsub : (field p.block i - p.block).toNat < SIZEOF_PROC_CONTEXT := by
    unfold field SIZEOF_PROC_CONTEXT
    bv_omega
  rw [cleared, fill]
  split_ifs
  · rfl
  · rw [fill, if_pos hsub]

/-- What a process block and the zero page of the process have to be for the first dispatch: the
stack pointer, the value of `A:X`, and on the return stack the flags, the address `func` and the
address before `proc_stop`.  The rest of the context is 0. -/
structure Prepared (p : NewProc) (func procStop argc : Word) (m : Memory) : Prop where
  s_eq : m (field p.block 0) = 58
  ax_eq : m.word (field p.block 1) = argc
  below : ∀ i, 3 ≤ i → i < 63 → m (field p.block i) = 0
  func_eq : m.word (field p.block 63) = func
  stop_eq : m.word (field p.block 65) = procStop - 1
  above : ∀ i, 67 ≤ i → i < 81 → m (field p.block i) = 0
  argv_eq : m.word (p.zp + 2) = p.argv

/-- The fields of the block after its stack is written. -/
theorem stackImage_field {m : Memory} (hi : i < 81) :
  stackImage p.block func procStop m (field p.block i)
    = if i = 0 then 58
      else if i = 62 then 0
      else if i = 63 then func.setWidth 8
      else if i = 64 then (func >>> 8).setWidth 8
      else if i = 65 then (procStop - 1).setWidth 8
      else if i = 66 then ((procStop - 1) >>> 8).setWidth 8
      else m (field p.block i)
  := by
  have hfield : ∀ {m : Memory} {j : ℕ} {b : Byte}, j < 81 →
      (m.store (field p.block j) b) (field p.block i)
        = if i = j then b else m (field p.block i) := fun hj => field_store p.isProc hi hj
  rw [stackImage]
  simp (disch := decide) only [hfield]
  split_ifs <;> first | rfl | omega

/-- The fields of the block after the argument is written. -/
theorem argImage_field {m : Memory} (hi : i < 81) :
  argImage p argc m (field p.block i)
    = if i = 1 then argc.extractLsb' 0 8
      else if i = 2 then argc.extractLsb' 8 8
      else m (field p.block i)
  := by
  rw [argImage, store_of_ne (field_ne_zp hi (by decide)), store_of_ne (field_ne_zp hi (by decide)),
    storeWord, field_add_one, field_store p.isProc hi (by decide),
    field_store p.isProc hi (by decide)]
  unfold offsetAX
  split_ifs <;> first | rfl | omega

/-- The bytes of a word that are stored one by one. -/
theorem setWidth_append (v : Word) : (v >>> 8).setWidth 8 ++ v.setWidth 8 = v := by
  apply BitVec.extractLsb'_append_extractLsb'

/-- The new process is ready for its first dispatch. -/
theorem prepared_image (m : Memory) :
  Prepared p func procStop argc (argImage p argc (stackImage p.block func procStop (cleared p m)))
  where
  s_eq := by
    rw [argImage_field (by decide), stackImage_field (by decide)]
    rfl
  ax_eq := by
    rw [Memory.word, field_add_one, argImage_field (by decide), argImage_field (by decide)]
    apply BitVec.extractLsb'_append_extractLsb'
  below i hlo hhi := by
    rw [argImage_field (by omega), stackImage_field (by omega), cleared_field (by omega)]
    split_ifs <;> first | rfl | omega
  func_eq := by
    rw [Memory.word, field_add_one, argImage_field (by decide), argImage_field (by decide),
      stackImage_field (by decide), stackImage_field (by decide)]
    apply setWidth_append
  stop_eq := by
    rw [Memory.word, field_add_one, argImage_field (by decide), argImage_field (by decide),
      stackImage_field (by decide), stackImage_field (by decide)]
    apply setWidth_append
  above i hlo hhi := by
    rw [argImage_field hhi, stackImage_field hhi, cleared_field hhi]
    split_ifs <;> first | rfl | omega
  argv_eq := by
    have hne : p.zp + 2 ≠ p.zp + 3 := by bv_omega
    have hadd : p.zp + 2 + 1 = p.zp + 3 := by bv_omega
    rw [Memory.word, hadd, argImage, store_self, store_of_ne hne, store_self]
    apply setWidth_append

end Image

/-! ### The dispatch -/

section Dispatch

variable {cpu : Cpu} {C : Word} {m' : Memory} {p : NewProc} {func procStop argc : Word}

/-- Swapping out a process does not change the zero pages of the processes. -/
theorem Suspended.zeroPages (h : Suspended k C cpu.s cpu.mem m')
    (hswitch : Switchable k C q cpu) :
  SameZeroPages cpu.mem m'
  := by
  intro a ha ha'
  unfold Suspended at h
  split_ifs at h with hC
  · rw [h]
  · apply h.frame
    · intro i hi
      apply ne_field_of_lt (hswitch.running hC).1.isProc (by omega) i (by omega)
    · intro i hi
      apply ne_of_toNat
      rw [toNat_loopReg hi]
      omega
    · exact Or.inl ha'

/-- The process `p` starts in the state `cpu`, after a switch in the memory `m`.  Its flags are
clear, and it has its arguments in `A:X` and in its register `rc2:rc3`.  The kernel stack pointer is
that of the memory `m`, and is recorded in the process block.  If the process returns with its stack
as it was, then it returns to `proc_stop`. -/
structure Started (p : NewProc) (argc procStop : Word) (m : Memory) (cpu : Cpu) : Prop where
  flags_eq : (cpu.n, cpu.v, cpu.d, cpu.i, cpu.z, cpu.c) = (false, false, false, false, false, false)
  ax_eq : cpu.x ++ cpu.a = argc
  argv_eq : cpu.mem.word (p.zp + 2) = p.argv
  rc0_eq : cpu.mem (rc 0) = m (rc 0)
  rc1_eq : cpu.mem (rc 1) = m (rc 1)
  kstack_eq : cpu.mem.word (field p.block 67) = cpu.mem.word (rc 0)
  rts_eq : ∀ cpu' : Cpu, cpu'.s = cpu.s →
    (∀ i, cpu.s.toNat < i → i < 64 → cpu'.mem (stackByte i) = cpu.mem (stackByte i)) →
    cpu'.rts.1 = procStop

/-- The block of a process that is prepared has no kernel stack pointer. -/
theorem Prepared.noKstack (h : Prepared p func procStop argc m) : NoKstack p.block m :=
  ⟨h.above 67 (by decide) (by decide), h.above 68 (by decide) (by decide)⟩

theorem zp_add_one (p : NewProc) : p.zp + 2 + 1 = p.zp + 3 := by
  bv_omega

/-- What is prepared depends on the process block and the register `rc2:rc3` of the process. -/
theorem Prepared.congr (h : Prepared p func procStop argc m)
    (hfield : ∀ i < 81, m' (field p.block i) = m (field p.block i))
    (hlo : m' (p.zp + 2) = m (p.zp + 2)) (hhi : m' (p.zp + 3) = m (p.zp + 3)) :
  Prepared p func procStop argc m'
  := by
  have hword (i : ℕ) (hi : i < 80) : m'.word (field p.block i) = m.word (field p.block i) := by
    rw [Memory.word, field_add_one, hfield i (by omega), hfield (i + 1) (by omega), Memory.word,
      field_add_one]
  constructor
  · rw [hfield 0 (by decide), h.s_eq]
  · rw [hword 1 (by decide), h.ax_eq]
  · intro i hi hi'
    rw [hfield i (by omega), h.below i hi hi']
  · rw [hword 63 (by decide), h.func_eq]
  · rw [hword 65 (by decide), h.stop_eq]
  · intro i hi hi'
    rw [hfield i hi', h.above i hi hi']
  · rw [Memory.word, zp_add_one, hlo, hhi, ← h.argv_eq, Memory.word, zp_add_one]

theorem stackAddr_eq_stackByte {s : Byte} (hs : s.toNat = i) : Cpu.stackAddr s = stackByte i := by
  unfold Cpu.stackAddr stackByte CPU_STACK
  bv_omega

/-- A process that is prepared starts when it is swapped in. -/
theorem FirstSwappedIn.started (h : FirstSwappedIn p.block m cpu)
    (hprepared : Prepared p func procStop argc m) :
  cpu.rti.1 = func ∧ Started p argc procStop m cpu.rti.2
  := by
  have hs : cpu.s = 58 := h.s_eq.trans hprepared.s_eq
  have hstack (i : ℕ) (hi : 58 < i) (hi' : i < 64) :
      cpu.mem (stackByte i) = m (field p.block (i + 3)) := by
    apply h.loaded.stack i _ hi'
    rw [hprepared.s_eq]
    exact hi
  have hkeep := h.loaded.keep hprepared.noKstack
  have hzp (c : Word) (hc : c.toNat < 32) : cpu.mem (p.zp + c) = m (p.zp + c) := by
    have hbounds := zp_bounds p
    unfold PROC_ZP_SIZE at hbounds
    apply h.zeroPages <;> bv_omega
  have hpop (s : Byte) (hlo : 58 < s.toNat) (hhi : s.toNat < 64) :
      cpu.mem (Cpu.stackAddr s) = m (field p.block (s.toNat + 3)) := by
    rw [stackAddr_eq_stackByte rfl, hstack _ hlo hhi]
  have hflags : cpu.mem (Cpu.stackAddr (cpu.s + 1)) = 0 := by
    rw [hs, hpop _ (by decide) (by decide)]
    apply hprepared.below 62 (by decide) (by decide)
  refine ⟨?_, ⟨?_, ?_, ?_, hkeep 0 (by decide), hkeep 1 (by decide), ?_, ?_⟩⟩
  · rw [← hprepared.func_eq, Memory.word, field_add_one]
    simp only [Cpu.rti]
    rw [hs, hpop _ (by decide) (by decide), hpop _ (by decide) (by decide)]
    rfl
  · simp only [Cpu.rti, hflags]
    rfl
  · rw [← hprepared.ax_eq, Memory.word, field_add_one]
    simp only [Cpu.rti]
    apply congrArg₂ _ h.x_eq h.a_eq
  · rw [← hprepared.argv_eq, Memory.word, Memory.word, zp_add_one]
    apply congrArg₂ _ (hzp 3 (by decide)) (hzp 2 (by decide))
  · rw [Memory.word, Memory.word, field_add_one]
    apply congrArg₂
    · exact h.kstackHi.trans (hkeep 1 (by decide)).symm
    · exact h.kstackLo.trans (hkeep 0 (by decide)).symm
  · intro cpu' hs' hstack'
    have hs₀ : cpu.rti.2.s = 61 := by
      simp only [Cpu.rti, hs]
      rfl
    rw [hs₀] at hs' hstack'
    have hword : cpu'.mem (stackByte 63) ++ cpu'.mem (stackByte 62) = procStop - 1 := by
      rw [hstack' 63 (by decide) (by decide), hstack' 62 (by decide) (by decide),
        ← hprepared.stop_eq, Memory.word, field_add_one]
      apply congrArg₂ _ (hstack 63 (by decide) (by decide)) (hstack 62 (by decide) (by decide))
    simp only [Cpu.rts, hs']
    rw [stackAddr_eq_stackByte (i := 63) rfl, stackAddr_eq_stackByte (i := 62) rfl, hword,
      BitVec.sub_add_cancel]

/-- The first switch to a process that is prepared starts it. -/
theorem Prepared.started (h : Prepared p func procStop argc cpu.mem)
    (hswitch : Switchable k C p.block cpu) :
  ∃ cpu', SwitchesTo k cpu func cpu' ∧ Started p argc procStop cpu.mem cpu'
  := by
  have hbounds := zp_bounds p
  unfold PROC_ZP_SIZE at hbounds
  have hleads : Leads k.procSwitchTo (k.procSwitchTo, cpu) fun r => r.1 = [.rti]
      ∧ ∃ m, Suspended k C cpu.s cpu.mem m ∧ FirstSwappedIn p.block m r.2 := by
    apply switch_leads_of hswitch
    intro cpu₁ harg hout
    have hs : cpu₁.mem (field p.block 0) ≤ 63 := by
      rw [hout.field_eq hswitch (by decide), h.s_eq]
      decide
    have hnone : NoKstack p.block cpu₁.mem := by
      rw [NoKstack, hout.field_eq hswitch (by decide), hout.field_eq hswitch (by decide)]
      apply h.noKstack
    apply (swapIn_leads_first hswitch.isProc harg hs hnone).trans
    rintro r ⟨hr, hin⟩
    apply Leads.refl
    exact ⟨hr, cpu₁.mem, hout, hin⟩
  obtain ⟨r, hr, hrti, m, hout, hin⟩ := hleads
  have hprepared : Prepared p func procStop argc m := by
    apply h.congr
    · intro i hi
      apply hout.field_eq hswitch hi
    · apply hout.zeroPages hswitch <;> bv_omega
    · apply hout.zeroPages hswitch <;> bv_omega
  obtain ⟨hpc, hstarted⟩ := hin.started hprepared
  refine ⟨r.2.rti.2, ⟨r, hr, hrti, by rw [← hpc]⟩, ?_⟩
  have hrc (i : ℕ) (hi : i < 2) : m (rc i) = cpu.mem (rc i) :=
    hout.rc_eq hswitch (by omega) (by omega)
  exact { hstarted with
    rc0_eq := hstarted.rc0_eq.trans (hrc 0 (by decide))
    rc1_eq := hstarted.rc1_eq.trans (hrc 1 (by decide)) }

/-- The function writes the stack pointer, the value of `A:X` and the return stack in the process
block, and the register `rc2:rc3` of the process. -/
theorem image_frame {a : Word} (hfield : ∀ i < CONFIG_RETURN_STACK_SIZE + 3, a ≠ field p.block i)
    (hlo : a ≠ p.zp + 2) (hhi : a ≠ p.zp + 3) :
  argImage p argc (stackImage p.block func procStop m) a = m a
  := by
  have hstore {m : Memory} {b : Byte} (i : ℕ) (hi : i < 67) : (m.store (field p.block i) b) a = m a :=
    store_of_ne (hfield i hi)
  rw [argImage, store_of_ne hhi, store_of_ne hlo, storeWord, field_add_one, offsetAX, stackImage]
  iterate 11 rw [hstore _ (by decide)]

end Dispatch

/-! ### The main result -/

/-- The first dispatch of a process that `proc_create` accepts.  The function
`proc_create_internal` succeeds, and does not write outside the return stack and the arguments of
the process.  In any later state with the process block and the register `rc2:rc3` of the process
as the function left them, in which the process `C`, or no process, is current, a call of
`proc_switch_to` starts the process at `func`. -/
theorem first_dispatch (func procStop : Word) {room : Room} {m m' : Memory} {argv : Word}
    {argc : Int} {p : NewProc} (hcreate : procCreate room argc argv m = some (.ok p, m')) :
  ∃ m₁, procCreateInternal room func procStop argc argv m = some (.ok p, m₁)
    ∧ (∀ a, (∀ i < CONFIG_RETURN_STACK_SIZE + 3, a ≠ field p.block i) →
      a ≠ p.zp + 2 → a ≠ p.zp + 3 → m₁ a = m' a)
    ∧ ∀ (k : Link) (C : Word) (cpu : Cpu),
      (∀ i < SIZEOF_PROC_CONTEXT, cpu.mem (field p.block i) = m₁ (field p.block i)) →
      cpu.mem (p.zp + 2) = m₁ (p.zp + 2) → cpu.mem (p.zp + 3) = m₁ (p.zp + 3) →
      Switchable k C p.block cpu →
      ∃ cpu', SwitchesTo k cpu func cpu'
        ∧ Started p (BitVec.ofInt 16 argc) procStop cpu.mem cpu'
  := by
  have haccepted := Accepted.of_procCreate hcreate
  have hm' : m' = cleared p m := by
    rw [procCreate_eq haccepted] at hcreate
    cases hcreate
    rfl
  refine ⟨_, procCreateInternal_eq haccepted, ?_, ?_⟩
  · intro a hfield hlo hhi
    rw [hm', image_frame hfield hlo hhi]
  · intro k C cpu hfield hlo hhi hswitch
    apply ((prepared_image m).congr hfield hlo hhi).started hswitch

/-- Room for a process with the block `0x200`. -/
def shellRoom : Room where
  argvCopy := some 0x300
  pid := some ⟨0, by decide⟩
  block := some ⟨0x200, by decide, by decide⟩

def shellProc : NewProc where
  pid := ⟨0, by decide⟩
  block := 0x200
  argv := 0x300
  isProc := ⟨by decide, by decide⟩

/-- The kernel switches to the process with the block `0x200`, with no process current. -/
def startShell (m : Memory) : Cpu :=
  { Cpu.ofMemory fun a => if a = rc 3 then 2 else if a.toNat < 0x40 then 0 else m a with s := 63 }

theorem switchable_startShell (m : Memory) : Switchable twoProcs 0 shellProc.block (startShell m) where
  current := show (0 : Byte) ++ (0 : Byte) = (0 : Word) by rfl
  running h := absurd rfl h
  isProc := shellProc.isProc
  argument := show (2 : Byte) ++ (0 : Byte) = (0x200 : Word) by rfl

theorem startShell_mem {m : Memory} {a : Word} (ha : 0x40 ≤ a.toNat) :
  (startShell m).mem a = m a
  := by
  have hne : a ≠ rc 3 := by
    apply ne_of_toNat
    rw [toNat_rc (by decide)]
    omega
  simp only [startShell, Cpu.ofMemory]
  rw [if_neg hne, if_neg (by omega)]

/-- The first dispatch of the shell. -/
theorem first_dispatch_shell :
  ∃ m₁ cpu', procCreateInternal shellRoom 0x8000 0x9000 1 0x4000 (fun _ => 0)
      = some (.ok shellProc, m₁)
    ∧ SwitchesTo twoProcs (startShell m₁) 0x8000 cpu'
    ∧ Started shellProc 1 0x9000 (startShell m₁).mem cpu'
  := by
  have hcreate : procCreate shellRoom 1 0x4000 (fun _ => 0)
      = some (.ok shellProc, cleared shellProc fun _ => 0) := rfl
  obtain ⟨m₁, hm₁, -, hstart⟩ := first_dispatch 0x8000 0x9000 hcreate
  obtain ⟨cpu', hswitch, hstarted⟩ := hstart twoProcs 0 (startShell m₁)
    (fun i hi => startShell_mem (show 0x40 ≤ (field shellProc.block i).toNat from by
      rw [toNat_field shellProc.isProc hi]
      exact Nat.le_add_right_of_le (by decide)))
    (startShell_mem (by decide)) (startShell_mem (by decide)) (switchable_startShell m₁)
  exact ⟨m₁, cpu', hm₁, hswitch, hstarted⟩

end Mosnix.Switcher
