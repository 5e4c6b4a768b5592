import Mosnix.Sched.SwapOut

/-!
# Swapping a process in

The effect of the code from `.Lswap_in_new` on, which is `SwappedIn`.  A process that has a kernel
stack pointer in its block gets that and the registers from the block.  A process that has none is
given the current kernel stack pointer, and the registers stay as they are.
-/

namespace Mosnix.Switcher

open Mos6502 Memory

variable {k : Link} {cpu : Cpu} {m m' : Memory} {p q a : Word} {i j : ℕ}

/-! ### The parts of the code -/

/-- The memory after `current_proc` is set to the argument of the routine. -/
def setCurrent (k : Link) (m : Memory) : Memory :=
  (m.store k.cur (m (rc 2))).store k.cur' (m (rc 3))

/-- The argument of the routine. -/
def argument (m : Memory) : Word :=
  m (rc 3) ++ m (rc 2)

theorem cur_ne_cur' : k.cur ≠ k.cur' := by
  apply ne_of_toNat
  rw [toNat_cur, toNat_cur']
  omega

theorem rc_ne_cur (hi : i < 32) : rc i ≠ k.cur := by
  have hcur := cur_bounds (k := k)
  apply ne_of_toNat
  rw [toNat_rc hi, toNat_cur]
  omega

theorem rc_ne_cur' (hi : i < 32) : rc i ≠ k.cur' := by
  have hcur := cur_bounds (k := k)
  apply ne_of_toNat
  rw [toNat_rc hi, toNat_cur']
  omega

theorem current_setCurrent : Current k (setCurrent k m) (argument m) := by
  rw [Current, setCurrent, store_self, store_of_ne cur_ne_cur', store_self, argument]

/-- Memory outside the variables of the kernel is as before. -/
theorem setCurrent_frame (ha : a.toNat < 0x20 ∨ 0x40 ≤ a.toNat) : setCurrent k m a = m a := by
  have hcur := cur_bounds (k := k)
  rw [setCurrent, store_of_ne, store_of_ne]
  · apply ne_of_toNat
    rw [toNat_cur]
    omega
  · apply ne_of_toNat
    rw [toNat_cur']
    omega

/-- The code before the loop that copies the process block to the stack. -/
theorem swapInNew_leads (harg : argument cpu.mem = p) :
  Leads k.procSwitchTo (k.swapIn, cpu) fun q =>
    q.1 = goto k.procSwitchTo .swapInUstackLoop ∧ q.2.mem = setCurrent k cpu.mem
      ∧ q.2.y = setCurrent k cpu.mem (field p 0) + 4
  := by
  have hmem : (cpu.mem.store k.cur (cpu.mem (rc 2))).store k.cur'
      (cpu.mem.store k.cur (cpu.mem (rc 2)) (rc 3)) = setCurrent k cpu.mem := by
    rw [setCurrent, store_of_ne (rc_ne_cur (by decide))]
  apply Leads.label
  iterate 9 apply Leads.op
  apply Leads.refl
  refine ⟨rfl, hmem, ?_⟩
  change (Op.exec _ (.adc _)).a = _
  rw [Op.adc_a _ rfl]
  simp only [Op.exec, Cpu.setNZ, Mode.read, Mode.addr, hmem, current_setCurrent.word_eq, harg]
  rfl

/-- The process block `p` has no kernel stack pointer. -/
def NoKstack (p : Word) (m : Memory) : Prop :=
  m (field p 67) = 0 ∧ m (field p 68) = 0

/-- The memory after the kernel stack pointer is taken from the process block. -/
def loadedKstack (p : Word) (m : Memory) : Memory :=
  (m.store (rc 0) (m (field p 67))).store (rc 1) (m (field p 68))

/-- The test of the code for a kernel stack. -/
theorem noKstack_iff_or : NoKstack p m ↔ m (field p 68) ||| m (field p 67) = 0 := by
  rw [NoKstack, and_comm]
  apply BitVec.or_eq_zero_iff.symm

/-- The test for a kernel stack pointer, if there is none. -/
theorem swapInKstack_leads_set (hcur : Current k cpu.mem p) (hy : cpu.y = 67)
    (hnone : NoKstack p cpu.mem) :
  Leads k.procSwitchTo (goto k.procSwitchTo .swapInKstack, cpu) fun q =>
    q.1 = goto k.procSwitchTo .swapInSetKstack ∧ q.2.y = 67 ∧ q.2.mem = cpu.mem
  := by
  apply Leads.label
  iterate 4 apply Leads.op
  apply Leads.branch
  · rw [Cond.holds]
    simp only [Op.exec, Cpu.setNZ, Mode.read, Mode.addr, hcur.word_eq, hy]
    apply beq_iff_eq.mpr
    apply noKstack_iff_or.mp hnone
  · apply Leads.refl
    refine ⟨rfl, ?_, rfl⟩
    simp only [Op.exec, Cpu.setNZ, hy]
    rfl

/-- `current_proc` is kept by a store to an imaginary register. -/
theorem Current.store_rc (h : Current k m p) (hi : i < 32) (b : Byte) :
  Current k (m.store (rc i) b) p
  := by
  apply h.congr
  · apply store_of_ne (rc_ne_cur hi).symm
  · apply store_of_ne (rc_ne_cur' hi).symm

/-- The test for a kernel stack pointer, and the code that loads it, if there is one. -/
theorem swapInKstack_leads_load (hp : IsProc p) (hcur : Current k cpu.mem p) (hy : cpu.y = 67)
    (hsome : ¬ NoKstack p cpu.mem) :
  Leads k.procSwitchTo (goto k.procSwitchTo .swapInKstack, cpu) fun q =>
    q.1 = k.imagRegs .swapInImagRegs
        ++ (.branch .eq .swapInSwitchStack :: (k.swapInSetKstack ++ k.swapInSwitchStack))
      ∧ q.2.y = 68 ∧ q.2.mem = loadedKstack p cpu.mem
  := by
  apply Leads.label
  iterate 4 apply Leads.op
  apply Leads.noBranch
  · rw [Cond.holds]
    simp only [Op.exec, Cpu.setNZ, Mode.read, Mode.addr, hcur.word_eq, hy]
    apply beq_eq_false_iff_ne.mpr
    apply mt noKstack_iff_or.mpr hsome
  iterate 5 apply Leads.op
  apply Leads.refl
  have hdey : (67 : Byte) + 1 - 1 = 67 := rfl
  refine ⟨rfl, ?_, ?_⟩
  · simp only [Op.exec, Cpu.setNZ, hy]
    rfl
  · have hfield : p + (67 : Byte).setWidth 16 = field p 67 := rfl
    have hload (b : Byte) : cpu.mem.store (rc 0) b (field p 68) = cpu.mem (field p 68) :=
      store_of_ne (field_ne_rc hp (by decide) (by decide))
    simp only [Op.exec, Cpu.setNZ, Mode.read, Mode.addr, hcur.word_eq, hy, hdey, hfield,
      (hcur.store_rc (i := 0) (by decide) _).word_eq]
    apply congrArg₂ (Memory.store _) rfl
    apply hload

/-- The memory after the process is no longer in the kernel. -/
def leftKernel (k : Link) (m : Memory) : Memory :=
  m.store k.inKernelAddr (m k.inKernelAddr - 1)

/-- The code that switches to the stack of the process. -/
theorem swapInSwitchStack_leads (hcur : Current k cpu.mem p) :
  Leads k.procSwitchTo (goto k.procSwitchTo .swapInSwitchStack, cpu) fun q =>
    q.1 = [.rti] ∧ q.2.s = cpu.mem (field p 0) ∧ q.2.a = cpu.mem (field p 1)
      ∧ q.2.x = cpu.mem (field p 2) ∧ q.2.mem = leftKernel k cpu.mem
  := by
  apply Leads.label
  iterate 10 apply Leads.op
  apply Leads.refl
  refine ⟨rfl, ?_, ?_, ?_, rfl⟩
  all_goals
    simp only [Op.exec, Cpu.setNZ, Mode.read, Mode.addr, hcur.word_eq]
    rfl

/-! ### The whole code -/

/-- The stack of the process block is in the stack page, and only the variables of the kernel and
the stack page are changed. -/
structure StackLoaded (p : Word) (m m' : Memory) : Prop where
  stack : ∀ i, (m (field p 0)).toNat < i → i < 64 → m' (stackByte i) = m (field p (i + 3))
  frame : ∀ a : Word, a.toNat < 0x20 ∨ 0x200 ≤ a.toNat → m' a = m a

/-- The block of the process is as it was. -/
theorem StackLoaded.field_eq (h : StackLoaded p m m') (hp : IsProc p) (hi : i < 81) :
  m' (field p i) = m (field p i)
  := by
  have hlo := hp.lo
  apply h.frame
  rw [toNat_field hp hi]
  omega

theorem StackLoaded.rc_eq (h : StackLoaded p m m') (hi : i < 32) : m' (rc i) = m (rc i) := by
  apply h.frame
  rw [toNat_rc hi]
  omega

theorem StackLoaded.noKstack_iff (h : StackLoaded p m m') (hp : IsProc p) :
  NoKstack p m' ↔ NoKstack p m
  := by
  rw [NoKstack, h.field_eq hp (by decide), h.field_eq hp (by decide), NoKstack]

/-- The zero pages of the processes, which follow that of the kernel, are the same. -/
def SameZeroPages (m m' : Memory) : Prop :=
  ∀ a : Word, 0x40 ≤ a.toNat → a.toNat < 0x100 → m' a = m a

/-- Execution up to the test for a kernel stack pointer loads the stack. -/
theorem swapInStack_leads (hp : IsProc p) (harg : argument cpu.mem = p)
    (hs : cpu.mem (field p 0) ≤ 63) :
  Leads k.procSwitchTo (k.swapIn, cpu) fun q =>
    q.1 = goto k.procSwitchTo .swapInKstack ∧ q.2.y = 67 ∧ Current k q.2.mem p
      ∧ StackLoaded p cpu.mem q.2.mem ∧ SameZeroPages cpu.mem q.2.mem
  := by
  have hlo := hp.lo
  have hfield {i : ℕ} (hi : i < 81) :
      setCurrent k cpu.mem (field p i) = cpu.mem (field p i) := by
    apply setCurrent_frame
    rw [toNat_field hp hi]
    omega
  apply (swapInNew_leads harg).trans
  rintro ⟨_, cpu₁⟩ ⟨rfl, hmem₁, hy₁⟩
  dsimp only at hmem₁ hy₁
  rw [hfield (by decide)] at hy₁
  have hcur₁ : Current k cpu₁.mem p := by
    rw [hmem₁, ← harg]
    apply current_setCurrent
  apply (swapInUstack_leads hp hcur₁ (by bv_omega)).trans
  rintro ⟨_, cpu₂⟩ ⟨rfl, hy₂, -, hcopied⟩
  have hy : cpu₁.y.toNat = (cpu.mem (field p 0)).toNat + 4 := by bv_omega
  rw [hmem₁, hy] at hcopied
  have hframe (a : Word) (ha : a.toNat < 0x100 ∨ 0x200 ≤ a.toNat) :
      cpu₂.mem a = setCurrent k cpu.mem a := by
    apply hcopied.frame
    intro i hi hi'
    apply ne_of_toNat
    rw [toNat_stackLoopAddr (by omega)]
    omega
  apply Leads.refl
  refine ⟨rfl, hy₂, ?_, ?_, ?_⟩
  · apply hcur₁.of_frame
    intro a _ ha
    rw [hframe a (by omega), hmem₁]
  · constructor
    · intro i hi hi'
      have haddr : stackByte i = stackLoopAddr (i + 3) := by
        unfold stackLoopAddr stackByte CPU_STACK
        bv_omega
      rw [haddr, hcopied.copied _ (by omega) (by omega), hfield (by omega)]
    · intro a ha
      rw [hframe a (by omega), setCurrent_frame (by omega)]
  · intro a ha ha'
    rw [hframe a (by omega), setCurrent_frame (by omega)]

/-- The kernel is left with the other bytes as they were. -/
theorem leftKernel_frame (ha : a.toNat < 0x20 ∨ 0x40 ≤ a.toNat) : leftKernel k m a = m a := by
  have hlo := k.inKernel_lo
  have hhi := k.inKernel_hi
  apply store_of_ne (ne_of_toNat _)
  unfold Link.inKernelAddr
  bv_omega

/-- The memory `m'` when the process `p` is swapped in to the memory `m`.  The stack above the
stack pointer is that of the block, and so are the registers if there is a kernel stack pointer in
the block. -/
structure Loaded (p : Word) (m m' : Memory) : Prop where
  regs : ∀ i < 3, m' (field p i) = m (field p i)
  stack : ∀ i, (m (field p 0)).toNat < i → i < 64 → m' (stackByte i) = m (field p (i + 3))
  rc0 : ¬ NoKstack p m → m' (rc 0) = m (field p 67)
  rc1 : ¬ NoKstack p m → m' (rc 1) = m (field p 68)
  loopRegs : ¬ NoKstack p m → ∀ i < 12, m' (loopReg i) = m (field p (69 + i))
  keep : NoKstack p m → ∀ i < 32, m' (rc i) = m (rc i)
  temp : ∀ i, 24 ≤ i → i < 32 → m' (rc i) = m (rc i)
  frame : ∀ a : Word, 0x200 ≤ a.toNat → (∀ i < 81, a ≠ field p i) → m' a = m a

theorem ne_field_of_lt (hp : IsProc p) (ha : a.toNat < 0x200) : ∀ i < 81, a ≠ field p i := by
  intro i hi
  have hlo := hp.lo
  apply ne_of_toNat
  rw [toNat_field hp hi]
  omega

/-- A process without a kernel stack pointer is loaded. -/
theorem StackLoaded.loaded_of_noKstack (h : StackLoaded p m m') (hp : IsProc p)
    (hnone : NoKstack p m) :
  Loaded p m (savedKstack p m')
  := by
  have hframe {a : Word} (ha : ∀ i < 81, a ≠ field p i) : savedKstack p m' a = m' a := by
    rw [savedKstack, store_of_ne (ha 68 (by decide)), store_of_ne (ha 67 (by decide))]
  have hrc (i : ℕ) (hi : i < 32) : savedKstack p m' (rc i) = m (rc i) := by
    rw [hframe, h.rc_eq hi]
    apply ne_field_of_lt hp
    rw [toNat_rc hi]
    omega
  constructor
  · intro i hi
    rw [savedKstack, store_of_ne (field_ne_field hp (by omega) (by decide) (by omega)),
      store_of_ne (field_ne_field hp (by omega) (by decide) (by omega)),
      h.field_eq hp (by omega)]
  · intro i hi hi'
    rw [hframe, h.stack i hi hi']
    apply ne_field_of_lt hp
    rw [toNat_stackByte (by omega)]
    omega
  · intro hsome
    contradiction
  · intro hsome
    contradiction
  · intro hsome
    contradiction
  · intro _ i hi
    apply hrc i hi
  · intro i _ hi
    apply hrc i hi
  · intro a ha hfield
    rw [hframe hfield, h.frame a (by omega)]

/-- A process with a kernel stack pointer is loaded. -/
theorem StackLoaded.loaded_of_kstack {m₁ : Memory} (h : StackLoaded p m m₁) (hp : IsProc p)
    (hsome : ¬ NoKstack p m)
    (hregs : Copied (loadedKstack p m₁) m' (fun i => field p (69 + i)) loopReg 0 12) :
  Loaded p m m'
  := by
  have hload {a : Word} (ha : 2 ≤ a.toNat) : loadedKstack p m₁ a = m₁ a := by
    have hne (i : ℕ) (hi : i < 2) : a ≠ rc i := by
      apply ne_of_toNat
      rw [toNat_rc (by omega)]
      omega
    rw [loadedKstack, store_of_ne (hne 1 (by decide)), store_of_ne (hne 0 (by decide))]
  have hframe {a : Word} (ha : 24 ≤ a.toNat) : m' a = m₁ a := by
    rw [hregs.frame, hload (by omega)]
    intro i _ hi
    apply ne_of_toNat
    rw [toNat_loopReg hi]
    omega
  have hrc (i : ℕ) (hi : i < 2) : m' (rc i) = loadedKstack p m₁ (rc i) := by
    apply hregs.frame
    intro j _ hj
    apply ne_of_toNat
    rw [toNat_rc (by omega), toNat_loopReg hj]
    omega
  have hlo := hp.lo
  constructor
  · intro i hi
    rw [hframe, h.field_eq hp (by omega)]
    rw [toNat_field hp (by omega)]
    omega
  · intro i hi hi'
    rw [hframe, h.stack i hi hi']
    rw [toNat_stackByte (by omega)]
    omega
  · intro _
    rw [hrc 0 (by decide), loadedKstack, store_of_ne (by decide), store_self,
      h.field_eq hp (by decide)]
  · intro _
    rw [hrc 1 (by decide), loadedKstack, store_self, h.field_eq hp (by decide)]
  · intro _ i hi
    rw [hregs.copied i (Nat.zero_le i) hi, hload, h.field_eq hp (by omega)]
    rw [toNat_field hp (by omega)]
    omega
  · intro hnone
    contradiction
  · intro i hi hi'
    rw [hframe, h.rc_eq hi']
    rwa [toNat_rc hi']
  · intro a ha _
    rw [hframe (by omega), h.frame a (by omega)]

/-- The decrement of `in_kernel` changes nothing of what is loaded. -/
theorem Loaded.leftKernel (h : Loaded p m m') (hp : IsProc p) : Loaded p m (leftKernel k m') := by
  have hlo := hp.lo
  have hrc (i : ℕ) (hi : i < 32) : Switcher.leftKernel k m' (rc i) = m' (rc i) := by
    apply leftKernel_frame
    rw [toNat_rc hi]
    omega
  constructor
  · intro i hi
    rw [leftKernel_frame, h.regs i hi]
    rw [toNat_field hp (by omega)]
    omega
  · intro i hi hi'
    rw [leftKernel_frame, h.stack i hi hi']
    rw [toNat_stackByte (by omega)]
    omega
  · rw [hrc 0 (by decide)]
    apply h.rc0
  · rw [hrc 1 (by decide)]
    apply h.rc1
  · intro hsome i hi
    rw [loopReg, hrc _ (by omega)]
    apply h.loopRegs hsome i hi
  · intro hnone i hi
    rw [hrc i hi, h.keep hnone i hi]
  · intro i hi hi'
    rw [hrc i hi', h.temp i hi hi']
  · intro a ha hfield
    rw [leftKernel_frame (by omega), h.frame a ha hfield]

/-- The process `p` is swapped in to the memory `m`, up to the `rti`. -/
structure SwappedIn (p : Word) (m : Memory) (cpu : Cpu) : Prop where
  s_eq : cpu.s = m (field p 0)
  a_eq : cpu.a = m (field p 1)
  x_eq : cpu.x = m (field p 2)
  loaded : Loaded p m cpu.mem

/-- The switch to the stack of a process that is loaded. -/
theorem Loaded.leads (h : Loaded p m cpu.mem) (hp : IsProc p) (hcur : Current k cpu.mem p) :
  Leads k.procSwitchTo (goto k.procSwitchTo .swapInSwitchStack, cpu) fun q =>
    q.1 = [.rti] ∧ SwappedIn p m q.2 ∧ q.2.mem = Switcher.leftKernel k cpu.mem
  := by
  apply (swapInSwitchStack_leads hcur).trans
  rintro q ⟨hq, hs, ha, hx, hmem⟩
  rw [h.regs 0 (by decide)] at hs
  rw [h.regs 1 (by decide)] at ha
  rw [h.regs 2 (by decide)] at hx
  apply Leads.refl
  refine ⟨hq, ⟨hs, ha, hx, ?_⟩, hmem⟩
  rw [hmem]
  apply h.leftKernel hp

/-- The process `p` is swapped in for the first time: the current kernel stack pointer is recorded
in its block. -/
structure FirstSwappedIn (p : Word) (m : Memory) (cpu : Cpu) : Prop extends SwappedIn p m cpu where
  kstackLo : cpu.mem (field p 67) = m (rc 0)
  kstackHi : cpu.mem (field p 68) = m (rc 1)
  zeroPages : SameZeroPages m cpu.mem

/-- Execution from `.Lswap_in_new` swaps a process in that has no kernel stack pointer. -/
theorem swapIn_leads_first (hp : IsProc p) (harg : argument cpu.mem = p)
    (hs : cpu.mem (field p 0) ≤ 63) (hnone : NoKstack p cpu.mem) :
  Leads k.procSwitchTo (k.swapIn, cpu) fun q => q.1 = [.rti] ∧ FirstSwappedIn p cpu.mem q.2
  := by
  have hlo := hp.lo
  apply (swapInStack_leads hp harg hs).trans
  rintro ⟨_, cpu₁⟩ ⟨rfl, hy₁, hcur₁, hstack, hzero⟩
  apply (swapInKstack_leads_set hcur₁ hy₁ ((hstack.noKstack_iff hp).mpr hnone)).trans
  rintro ⟨_, cpu₂⟩ ⟨rfl, hy₂, hmem₂⟩
  dsimp only at hmem₂
  rw [← hmem₂] at hcur₁ hstack hzero
  apply Leads.label
  apply (saveKstack_leads hp hcur₁ hy₂).trans
  rintro ⟨_, cpu₃⟩ ⟨rfl, -, -, hmem₃⟩
  dsimp only at hmem₃
  have hloaded : Loaded p cpu.mem cpu₃.mem := by
    rw [hmem₃]
    apply hstack.loaded_of_noKstack hp hnone
  have hcur₃ : Current k cpu₃.mem p := by
    apply hcur₁.of_frame
    intro a _ ha
    have hne := ne_field_of_lt hp (show a.toNat < 0x200 by omega)
    rw [hmem₃, savedKstack, store_of_ne (hne 68 (by decide)), store_of_ne (hne 67 (by decide))]
  apply (hloaded.leads hp hcur₃).trans
  rintro q ⟨hq, hin, hmem⟩
  have hfield (i : ℕ) (hi : i < 81) : q.2.mem (field p i) = savedKstack p cpu₂.mem (field p i) := by
    rw [hmem, leftKernel_frame, hmem₃]
    rw [toNat_field hp hi]
    omega
  apply Leads.refl
  refine ⟨hq, hin, ?_, ?_, ?_⟩
  · rw [hfield 67 (by decide), savedKstack,
      store_of_ne (field_ne_field hp (by decide) (by decide) (by decide)), store_self,
      hstack.rc_eq (by decide)]
  · rw [hfield 68 (by decide), savedKstack, store_self, hstack.rc_eq (by decide)]
  · intro a ha ha'
    have hne := ne_field_of_lt hp (show a.toNat < 0x200 by omega)
    rw [hmem, leftKernel_frame (by omega), hmem₃, savedKstack, store_of_ne (hne 68 (by decide)),
      store_of_ne (hne 67 (by decide)), hzero a ha ha']

/-- Execution from `.Lswap_in_new` swaps a process in. -/
theorem swapIn_leads (hp : IsProc p) (harg : argument cpu.mem = p)
    (hs : cpu.mem (field p 0) ≤ 63) :
  Leads k.procSwitchTo (k.swapIn, cpu) fun q => q.1 = [.rti] ∧ SwappedIn p cpu.mem q.2
  := by
  by_cases hnone : NoKstack p cpu.mem
  · apply (swapIn_leads_first hp harg hs hnone).trans
    rintro q ⟨hq, hin⟩
    apply Leads.refl
    exact ⟨hq, hin.toSwappedIn⟩
  · apply (swapInStack_leads hp harg hs).trans
    rintro ⟨_, cpu₁⟩ ⟨rfl, hy₁, hcur₁, hstack, -⟩
    apply (swapInKstack_leads_load hp hcur₁ hy₁ (mt (hstack.noKstack_iff hp).mp hnone)).trans
    rintro ⟨_, cpu₂⟩ ⟨rfl, hy₂, hmem₂⟩
    dsimp only at hmem₂
    have hcur₂ : Current k cpu₂.mem p := by
      rw [hmem₂]
      apply (hcur₁.store_rc (by decide) _).store_rc (by decide)
    apply (imagRegs_leads rfl hp hcur₂ hy₂).trans
    rintro ⟨_, cpu₃⟩ ⟨rfl, -, hz₃, hregs⟩
    have hloaded : Loaded p cpu.mem cpu₃.mem := by
      rw [hmem₂] at hregs
      apply hstack.loaded_of_kstack hp hnone hregs
    have hcur₃ : Current k cpu₃.mem p := by
      apply hcur₂.of_frame
      intro a ha _
      apply hregs.frame
      intro i _ hi
      apply ne_of_toNat
      rw [toNat_loopReg hi]
      omega
    apply Leads.branch
    · apply hz₃
    apply (hloaded.leads hp hcur₃).trans
    rintro q ⟨hq, hin, -⟩
    apply Leads.refl
    exact ⟨hq, hin⟩

end Mosnix.Switcher
