import Mosnix.Sched.SwapIn

/-!
# What a context switch saves and restores

A process `A` that calls `proc_switch_to` is swapped out, and is resumed by a later call that
swaps it in.  Its stack pointer, its return stack and the value `A:X` come back as they should.
The imaginary registers do not: the loop that should save `RC20` to `RC31` reads the process block
and writes `RC12` to `RC23`, as the loop that should restore them does.  The main result,
`switch_round_trip`, gives the exact condition under which the registers come back.
-/

namespace Mosnix.Switcher

open Mos6502 Memory

variable {k : Link} {cpu cpu' : Cpu} {m m' : Memory} {A B C p q a : Word} {i : ℕ}

/-! ### One call -/

/-- A call of `proc_switch_to` returns to the address `pc` in the state `cpu'`. -/
def SwitchesTo (k : Link) (cpu : Cpu) (pc : Word) (cpu' : Cpu) : Prop :=
  Leads k.procSwitchTo (k.procSwitchTo, cpu) fun q => q.1 = [.rti] ∧ q.2.rti = (pc, cpu')

/-- The process `p` runs in the kernel, with a return stack that fits its block. -/
structure Running (k : Link) (p : Word) (cpu : Cpu) : Prop where
  isProc : IsProc p
  current : Current k cpu.mem p
  s_lo : 3 ≤ cpu.s
  s_hi : cpu.s ≤ 63

/-- The processor can be switched from the process `p` to the process `q`; there may be no process
that runs. -/
structure Switchable (k : Link) (p q : Word) (cpu : Cpu) : Prop where
  current : Current k cpu.mem p
  running : p ≠ 0 → Running k p cpu ∧ Apart p q
  isProc : IsProc q
  argument : argument cpu.mem = q

/-- The memory after the process `p`, if it is not NULL, is swapped out. -/
def Suspended (k : Link) (p : Word) (s : Byte) (m m' : Memory) : Prop :=
  if p = 0 then m' = m else SwappedOut k p s m m'

theorem Switchable.ne (h : Switchable k p q cpu) : p ≠ q := by
  have hlo := h.isProc.lo
  rintro rfl
  have hp : p ≠ 0 := by bv_omega
  obtain ⟨-, hapart⟩ := h.running hp
  unfold Apart SIZEOF_PROC_CONTEXT at hapart
  omega

variable {Q : List (Line Label) × Cpu → Prop}

/-- A switch to another process goes to the code that swaps the current process out. -/
theorem entry_leads (hcur : Current k cpu.mem p) (harg : argument cpu.mem ≠ p)
    (h : ∀ cpu' : Cpu, cpu'.mem = cpu.mem → cpu'.s = cpu.s →
      Leads k.procSwitchTo (goto k.procSwitchTo .swapOutOld, cpu') Q) :
  Leads k.procSwitchTo (k.procSwitchTo, cpu) Q
  := by
  have hsub (b c : Byte) (hbc : b ≠ c) : (! (b - c == 0)) = true := by
    rw [Bool.not_eq_true', beq_eq_false_iff_ne]
    bv_omega
  apply Leads.label
  apply Leads.op
  apply Leads.op
  by_cases hlo : cpu.mem (rc 2) = cpu.mem k.cur
  · have hhi : cpu.mem (rc 3) ≠ cpu.mem k.cur' := by
      intro hhi
      apply harg
      rw [argument, hlo, hhi]
      apply hcur
    apply Leads.noBranch
    · simp [Cond.holds, Op.exec, Cpu.compare, Cpu.setNZ, Mode.read, Mode.addr, hlo]
    apply Leads.op
    apply Leads.op
    apply Leads.branch
    · apply hsub _ _ hhi
    apply h
    · rfl
    · rfl
  · apply Leads.branch
    · apply hsub _ _ hlo
    apply h
    · rfl
    · rfl

/-- If no process is current there is nothing to swap out. -/
theorem swapOut_leads_null (hcur : Current k cpu.mem 0)
    (h : ∀ cpu' : Cpu, cpu'.mem = cpu.mem → Leads k.procSwitchTo (k.swapIn, cpu') Q) :
  Leads k.procSwitchTo (goto k.procSwitchTo .swapOutOld, cpu) Q
  := by
  apply Leads.label
  apply Leads.op
  apply Leads.op
  apply Leads.branch
  · rw [Cond.holds]
    apply beq_iff_eq.mpr
    apply BitVec.or_eq_zero_iff.mpr
    unfold Current at hcur
    have hlo := congrArg (BitVec.extractLsb' 0 8) hcur
    have hhi := congrArg (BitVec.extractLsb' 8 8) hcur
    rw [BitVec.extractLsb'_append_eq_right] at hlo
    rw [BitVec.extractLsb'_append_eq_left] at hhi
    exact ⟨hlo, hhi⟩
  apply h
  rfl

/-- The fields of two processes are apart. -/
theorem field_ne_field_of_apart (hp : IsProc p) (hq : IsProc q) (hpq : Apart p q) {i j : ℕ}
    (hi : i < 81) (hj : j < 81) :
  field p i ≠ field q j
  := by
  apply ne_of_toNat
  rw [toNat_field hp hi, toNat_field hq hj]
  unfold Apart SIZEOF_PROC_CONTEXT at hpq
  omega

/-- The block of another process is not changed when a process is swapped out. -/
theorem SwappedOut.field_eq {s : Byte} (h : SwappedOut k p s m m') (hp : IsProc p) (hq : IsProc q)
    (hpq : Apart p q) (hi : i < 81) :
  m' (field q i) = m (field q i)
  := by
  have hlo := hq.lo
  apply h.frame
  · intro j hj
    apply (field_ne_field_of_apart hp hq hpq (by omega) hi).symm
  · intro j hj
    apply field_ne_loopReg hq hi hj
  · rw [toNat_field hq hi]
    omega

/-- The imaginary registers that the loop does not write are not changed when a process is swapped
out. -/
theorem SwappedOut.rc_eq {s : Byte} (h : SwappedOut k p s m m') (hp : IsProc p) (hi : i < 32)
    (hloop : i < 12 ∨ 24 ≤ i) :
  m' (rc i) = m (rc i)
  := by
  apply h.frame
  · intro j hj
    apply (field_ne_rc hp (by omega) hi).symm
  · intro j hj
    apply ne_of_toNat
    rw [toNat_rc hi, toNat_loopReg hj]
    omega
  · rw [toNat_rc hi]
    omega

/-- A call swaps the process that runs out, and continues with the code that swaps another process
in. -/
theorem switch_leads_of (h : Switchable k p q cpu) (hQ : ∀ cpu' : Cpu, argument cpu'.mem = q → Suspended k p cpu.s cpu.mem cpu'.mem →
      Leads k.procSwitchTo (k.swapIn, cpu') Q) :
  Leads k.procSwitchTo (k.procSwitchTo, cpu) Q
  := by
  have hne : argument cpu.mem ≠ p := by
    rw [h.argument]
    apply h.ne.symm
  apply entry_leads h.current hne
  intro cpu₁ hmem₁ hs₁
  by_cases hp : p = 0
  · subst hp
    apply swapOut_leads_null (hmem₁ ▸ h.current)
    intro cpu₂ hmem₂
    have hmem : cpu₂.mem = cpu.mem := hmem₂.trans hmem₁
    apply hQ cpu₂ (hmem ▸ h.argument)
    exact (if_pos rfl).mpr hmem
  · obtain ⟨hrunning, hapart⟩ := h.running hp
    apply (swapOut_leads hrunning.isProc (hmem₁ ▸ h.current) (hs₁ ▸ hrunning.s_lo)
      (hs₁ ▸ hrunning.s_hi)).trans
    rintro ⟨_, cpu₂⟩ ⟨rfl, hout⟩
    rw [hmem₁, hs₁] at hout
    dsimp only at hout
    apply hQ cpu₂
    · rw [argument, hout.rc_eq hrunning.isProc (by decide) (by decide),
        hout.rc_eq hrunning.isProc (by decide) (by decide)]
      apply h.argument
    · exact (if_neg hp).mpr hout

/-- The block of the process that is switched to is not changed when the process that runs is
swapped out. -/
theorem Suspended.field_eq (h : Suspended k p cpu.s cpu.mem m) (hswitch : Switchable k p q cpu)
    (hi : i < 81) :
  m (field q i) = cpu.mem (field q i)
  := by
  unfold Suspended at h
  split_ifs at h with hp
  · rw [h]
  · obtain ⟨hrunning, hapart⟩ := hswitch.running hp
    apply h.field_eq hrunning.isProc hswitch.isProc hapart hi

/-- The kernel stack pointer, and the registers that the loop does not write, are not changed when
the process that runs is swapped out. -/
theorem Suspended.rc_eq (h : Suspended k p cpu.s cpu.mem m) (hswitch : Switchable k p q cpu)
    (hi : i < 32) (hloop : i < 12 ∨ 24 ≤ i) :
  m (rc i) = cpu.mem (rc i)
  := by
  unfold Suspended at h
  split_ifs at h with hp
  · rw [h]
  · apply h.rc_eq (hswitch.running hp).1.isProc hi hloop

/-- A call swaps the process that runs out, and another process in. -/
theorem switch_leads (h : Switchable k p q cpu) (hs : cpu.mem (field q 0) ≤ 63) :
  Leads k.procSwitchTo (k.procSwitchTo, cpu) fun r =>
    r.1 = [.rti] ∧ ∃ m, Suspended k p cpu.s cpu.mem m ∧ SwappedIn q m r.2
  := by
  apply switch_leads_of h
  intro cpu' harg hout
  rw [← hout.field_eq h (by decide)] at hs
  apply (swapIn_leads h.isProc harg hs).trans
  rintro r ⟨hr, hin⟩
  apply Leads.refl
  exact ⟨hr, cpu'.mem, hout, hin⟩

/-! ### The round trip -/

section Saved

variable {s : Byte} {m₀ : Memory}

/-- What is saved does not depend on the value to return to the process. -/
theorem Saved.congr (h : Saved k p s m₀ m) (hs : 3 ≤ s) (hs' : s ≤ 63)
    (heq : ∀ i < 81, i ≠ 1 → i ≠ 2 → m' (field p i) = m (field p i)) :
  Saved k p s m₀ m'
  := by
  have hle : 3 ≤ s.toNat := hs
  have hle' : s.toNat ≤ 63 := hs'
  constructor
  · rw [heq 0 (by decide) (by decide) (by decide), h.s_eq]
  · rw [heq _ (by omega) (by omega) (by omega), h.retHi]
  · rw [heq _ (by omega) (by omega) (by omega), h.retLo]
  · intro i hi hi'
    rw [heq _ (by omega) (by omega) (by omega), h.stack i hi hi']
  · rw [heq _ (by decide) (by decide) (by decide), h.rc0]
  · rw [heq _ (by decide) (by decide) (by decide), h.rc1]
  · intro i hi
    rw [heq _ (by omega) (by omega) (by omega), h.kzp i hi]

/-- A switch to another process saves the process that runs. -/
theorem switch_saves (hA : Running k A cpu) (hB : IsProc B) (hAB : Apart A B)
    (harg : argument cpu.mem = B) (hs : cpu.mem (field B 0) ≤ 63) :
  ∃ pc cpu', SwitchesTo k cpu pc cpu' ∧ Saved k A cpu.s cpu.mem cpu'.mem
  := by
  have hlo := hA.isProc.lo
  have hA0 : A ≠ 0 := by bv_omega
  have hswitch : Switchable k A B cpu := ⟨hA.current, fun _ => ⟨hA, hAB⟩, hB, harg⟩
  obtain ⟨r, hr, hrti, m, hout, hin⟩ := switch_leads hswitch hs
  rw [Suspended, if_neg hA0] at hout
  refine ⟨r.2.rti.1, r.2.rti.2, ⟨r, hr, hrti, rfl⟩, ?_⟩
  apply hout.toSaved.congr hA.s_lo hA.s_hi
  intro i hi _ _
  apply hin.loaded.frame
  · rw [toNat_field hA.isProc hi]
    omega
  · intro j hj
    apply field_ne_field_of_apart hA.isProc hB hAB hi hj

/-- A process that was swapped out returns to `.Lswap_in_return` with its stack pointer, its stack
and the value of its block. -/
theorem SwappedIn.rti_of_saved (h : SwappedIn A m cpu) (hs : 3 ≤ s) (hs' : s ≤ 63)
    (hsaved : Saved k A s m₀ m) :
  cpu.rti.1 = k.swapInReturn ∧ cpu.rti.2.s = s
    ∧ ∀ i, s.toNat < i → i < 64 → cpu.rti.2.mem (stackByte i) = m₀ (stackByte i)
  := by
  have hle : 3 ≤ s.toNat := hs
  have hle' : s.toNat ≤ 63 := hs'
  have hpop : cpu.s = s - 3 := h.s_eq.trans hsaved.s_eq
  have hstack (i : ℕ) (hi : s.toNat ≤ i + 2) (hi' : i < 64) :
      cpu.mem (stackByte i) = m (field A (i + 3)) := by
    apply h.loaded.stack i _ hi'
    rw [hsaved.s_eq]
    bv_omega
  have hhi : Cpu.stackAddr (cpu.s + 3) = stackByte s.toNat := by
    rw [hpop]
    unfold Cpu.stackAddr stackByte CPU_STACK
    bv_omega
  have hlo : Cpu.stackAddr (cpu.s + 2) = stackByte (s.toNat - 1) := by
    rw [hpop]
    unfold Cpu.stackAddr stackByte CPU_STACK
    bv_omega
  refine ⟨?_, ?_, ?_⟩
  · simp only [Cpu.rti]
    rw [hhi, hlo, hstack _ (by omega) (by omega), hstack _ (by omega) (by omega),
      show s.toNat - 1 + 3 = s.toNat + 2 by omega, hsaved.retHi, hsaved.retLo,
      BitVec.extractLsb'_append_extractLsb']
  · simp only [Cpu.rti]
    bv_omega
  · intro i hi hi'
    change cpu.mem _ = _
    rw [hstack i (by omega) hi', hsaved.stack i hi hi']

/-- The kernel stack pointer and the registers that a function of the kernel has to preserve are
in `m'` as they are in `m`. -/
def KernelRegs (m m' : Memory) : Prop :=
  m' (rc 0) = m (rc 0) ∧ m' (rc 1) = m (rc 1) ∧ ∀ i, 20 ≤ i → i < 32 → m' (rc i) = m (rc i)

/-- The condition for these registers to come back to the process `A`, that was swapped out with
the memory `m₀` and is swapped in by the process `C` with the memory `m`.  Nothing saves `RC24` to
`RC31`.  If there is a kernel stack pointer, then `RC20` to `RC23` come from the field `kzp` of
`A`, which nothing writes. -/
def RegsReturn (A C : Word) (m₀ m : Memory) : Prop :=
  (∀ i, 24 ≤ i → i < 32 → m (rc i) = m₀ (rc i)) ∧
  if m₀ (rc 0) = 0 ∧ m₀ (rc 1) = 0 then
    m (rc 0) = 0 ∧ m (rc 1) = 0
      ∧ ∀ i < 4, (if C = 0 then m (rc (20 + i)) else m (field C (77 + i))) = m₀ (rc (20 + i))
  else
    ∀ i < 4, m₀ (field A (77 + i)) = m₀ (rc (20 + i))

/-- The registers that the loop writes, and those that it does not write. -/
theorem kernelRegs_iff :
  KernelRegs m m' ↔ (∀ i, 24 ≤ i → i < 32 → m' (rc i) = m (rc i)) ∧ m' (rc 0) = m (rc 0)
    ∧ m' (rc 1) = m (rc 1) ∧ ∀ i < 4, m' (rc (20 + i)) = m (rc (20 + i))
  := by
  constructor
  · rintro ⟨h0, h1, h⟩
    refine ⟨fun i hi hi' => h i (by omega) hi', h0, h1, fun i hi => h _ (by omega) (by omega)⟩
  · rintro ⟨htemp, h0, h1, h⟩
    refine ⟨h0, h1, fun i hi hi' => ?_⟩
    by_cases hlt : i < 24
    · rw [show i = 20 + (i - 20) by omega]
      apply h
      omega
    · apply htemp i (by omega) hi'

/-- The registers of a process that is swapped in by the process `C`. -/
theorem SwappedIn.kernelRegs_iff {cpu₁ : Cpu} (h : SwappedIn A m cpu)
    (hC : Suspended k C cpu₁.s cpu₁.mem m) (hswitch : Switchable k C A cpu₁)
    (hsaved : Saved k A s m₀ m) :
  KernelRegs m₀ cpu.mem ↔ RegsReturn A C m₀ cpu₁.mem
  := by
  rw [Switcher.kernelRegs_iff, RegsReturn]
  apply and_congr
  · apply forall₃_congr
    intro i hi hi'
    rw [h.loaded.temp i hi hi', hC.rc_eq hswitch hi' (by omega)]
  have hnone : NoKstack A m ↔ m₀ (rc 0) = 0 ∧ m₀ (rc 1) = 0 := by
    rw [NoKstack, hsaved.rc0, hsaved.rc1]
  split_ifs with hzero hC0
  · have hkeep := h.loaded.keep (hnone.mpr hzero)
    rw [Suspended, if_pos hC0] at hC
    rw [hkeep 0 (by decide), hkeep 1 (by decide), hzero.1, hzero.2, hC]
    apply and_congr_right'
    apply and_congr_right'
    apply forall₂_congr
    intro i hi
    rw [hkeep _ (by omega), hC]
  · have hkeep := h.loaded.keep (hnone.mpr hzero)
    rw [hkeep 0 (by decide), hkeep 1 (by decide), hC.rc_eq hswitch (by decide) (by decide),
      hC.rc_eq hswitch (by decide) (by decide), hzero.1, hzero.2]
    apply and_congr_right'
    apply and_congr_right'
    apply forall₂_congr
    intro i hi
    rw [Suspended, if_neg hC0] at hC
    have hloop := hC.loopRegs (8 + i) (by omega)
    rw [show 69 + (8 + i) = 77 + i by omega] at hloop
    rw [hkeep _ (by omega), ← hloop, loopReg, show 12 + (8 + i) = 20 + i by omega]
  · have hsome : ¬ NoKstack A m := mt hnone.mp hzero
    rw [h.loaded.rc0 hsome, h.loaded.rc1 hsome, hsaved.rc0, hsaved.rc1, eq_self, eq_self,
      true_and, true_and]
    apply forall₂_congr
    intro i hi
    have hloop := h.loaded.loopRegs hsome (8 + i) (by omega)
    rw [hsaved.kzp _ (by omega), show 69 + (8 + i) = 77 + i by omega, loopReg,
      show 12 + (8 + i) = 20 + i by omega] at hloop
    rw [hloop]

/-- A process that is saved is resumed by a switch to it, with its stack pointer, its stack and the
value of its block, and with its registers if and only if `RegsReturn` holds. -/
theorem switch_resumes (hsaved : Saved k A s m₀ cpu.mem) (hs : 3 ≤ s) (hs' : s ≤ 63)
    (hswitch : Switchable k C A cpu) :
  ∃ cpu', SwitchesTo k cpu k.swapInReturn cpu' ∧ cpu'.s = s
    ∧ (∀ i, s.toNat < i → i < 64 → cpu'.mem (stackByte i) = m₀ (stackByte i))
    ∧ cpu'.a = cpu.mem (field A offsetAX) ∧ cpu'.x = cpu.mem (field A (offsetAX + 1))
    ∧ (KernelRegs m₀ cpu'.mem ↔ RegsReturn A C m₀ cpu.mem)
  := by
  have hle : cpu.mem (field A 0) ≤ 63 := by
    rw [hsaved.s_eq]
    bv_omega
  obtain ⟨r, hr, hrti, m, hC, hin⟩ := switch_leads hswitch hle
  have hfield {i : ℕ} (hi : i < 81) : m (field A i) = cpu.mem (field A i) :=
    hC.field_eq hswitch hi
  have hsaved' : Saved k A s m₀ m := hsaved.congr hs hs' fun i hi _ _ => hfield hi
  obtain ⟨hpc, hs_eq, hstack⟩ := hin.rti_of_saved hs hs' hsaved'
  refine ⟨r.2.rti.2, ⟨r, hr, hrti, ?_⟩, hs_eq, hstack, ?_, ?_, ?_⟩
  · rw [← hpc]
  · apply hin.a_eq.trans (hfield (by decide))
  · apply hin.x_eq.trans (hfield (by decide))
  · apply hin.kernelRegs_iff hC hswitch hsaved'

end Saved

/-! ### Two processes -/

/-- A kernel with the process blocks `0x200` and `0x300`. -/
def twoProcs : Link where
  currentProc := 0x20
  inKernel := 0x22
  swapInReturn := 0x8000
  currentProc_lo := by decide
  currentProc_hi := by decide
  inKernel_lo := by decide
  inKernel_hi := by decide
  inKernel_ne := by decide
  inKernel_ne' := by decide

/-- The zero page in which the process in the page `p` switches to the process in the page `q`,
with a kernel stack pointer, and with the value `r` in `RC20`. -/
def switchPage (p q r : Byte) : Memory := fun a =>
  if a = rc 0 then 1
  else if a = rc 3 then q
  else if a = rc 20 then r
  else if a = twoProcs.cur' then p
  else 0

/-- The first process switches to the second, with the value `r` in `RC20`. -/
def firstSwitches (r : Byte) : Cpu :=
  { Cpu.ofMemory (switchPage 2 3 r) with s := 63 }

/-- The second process switches back to the first one, which was swapped out in the state
`cpu`. -/
def secondSwitches (r : Byte) (cpu : Cpu) : Cpu :=
  { cpu with
    s := 63
    mem := fun a => if a.toNat < 0x100 then switchPage 3 2 r a else cpu.mem a }

theorem running_firstSwitches (r : Byte) : Running twoProcs 0x200 (firstSwitches r) where
  isProc := ⟨by decide, by decide⟩
  current := show (2 : Byte) ++ (0 : Byte) = (0x200 : Word) by rfl
  s_lo := show (3 : Byte) ≤ 63 by decide
  s_hi := BitVec.le_refl 63

theorem switchable_secondSwitches (r : Byte) (cpu : Cpu) :
  Switchable twoProcs 0x300 0x200 (secondSwitches r cpu)
  where
  current := show (3 : Byte) ++ (0 : Byte) = (0x300 : Word) by rfl
  running _ :=
    ⟨⟨⟨by decide, by decide⟩, show (3 : Byte) ++ (0 : Byte) = (0x300 : Word) by rfl,
      show (3 : Byte) ≤ 63 by decide, BitVec.le_refl 63⟩, Or.inr (by decide)⟩
  isProc := ⟨by decide, by decide⟩
  argument := show (2 : Byte) ++ (0 : Byte) = (0x200 : Word) by rfl

/-- The second process does not write the block of the first one. -/
theorem secondSwitches_field (r : Byte) (cpu : Cpu) (hi : i < 81) :
  (secondSwitches r cpu).mem (field 0x200 i) = cpu.mem (field 0x200 i)
  := by
  apply if_neg
  rw [toNat_field ⟨by decide, by decide⟩ hi]
  bv_omega

/-- The registers come back if the first process did not use `RC20`. -/
theorem regsReturn_zero (cpu : Cpu) :
  RegsReturn 0x200 0x300 (firstSwitches 0).mem (secondSwitches 0 cpu).mem
  := by
  refine ⟨?_, ?_⟩
  · intro i hi hi'
    interval_cases i <;> rfl
  · rw [if_neg (by decide)]
    intro i hi
    interval_cases i <;> rfl

/-- The registers do not come back if the first process used `RC20`. -/
theorem not_regsReturn_one (cpu : Cpu) :
  ¬ RegsReturn 0x200 0x300 (firstSwitches 1).mem (secondSwitches 1 cpu).mem
  := by
  rintro ⟨-, h⟩
  rw [if_neg (by decide)] at h
  apply absurd (h 0 (by decide))
  decide

/-! ### The main result -/

/-- The round trip of a process `A`.  It calls `proc_switch_to` in the state `cpu₀` to switch to
another process `B`.  In any later state `cpu₂` with the block of `A` as that call left it, except
for the value to return, in which the process `C`, or no process, is current, a call that switches
to `A` resumes it at `.Lswap_in_return`.  It has its stack pointer, its stack and the value of its
block, and it has its registers if and only if `RegsReturn` holds. -/
theorem switch_round_trip {cpu₀ : Cpu} (hA : Running k A cpu₀) (hB : IsProc B) (hAB : Apart A B)
    (harg : argument cpu₀.mem = B) (hs : cpu₀.mem (field B 0) ≤ 63) :
  ∃ pc cpu₁, SwitchesTo k cpu₀ pc cpu₁ ∧ ∀ C cpu₂,
    (∀ i < SIZEOF_PROC_CONTEXT, i ≠ offsetAX → i ≠ offsetAX + 1 →
      cpu₂.mem (field A i) = cpu₁.mem (field A i)) →
    Switchable k C A cpu₂ →
    ∃ cpu₃, SwitchesTo k cpu₂ k.swapInReturn cpu₃ ∧ cpu₃.s = cpu₀.s
      ∧ (∀ i, cpu₀.s.toNat < i → i < CONFIG_RETURN_STACK_SIZE →
        cpu₃.mem (stackByte i) = cpu₀.mem (stackByte i))
      ∧ cpu₃.a = cpu₂.mem (field A offsetAX) ∧ cpu₃.x = cpu₂.mem (field A (offsetAX + 1))
      ∧ (KernelRegs cpu₀.mem cpu₃.mem ↔ RegsReturn A C cpu₀.mem cpu₂.mem)
  := by
  obtain ⟨pc, cpu₁, hswitch, hsaved⟩ := switch_saves hA hB hAB harg hs
  refine ⟨pc, cpu₁, hswitch, ?_⟩
  intro C cpu₂ hblock hback
  apply switch_resumes (hsaved.congr hA.s_lo hA.s_hi hblock) hA.s_lo hA.s_hi hback

/-- A round trip of a process that does not use `rc20`. -/
theorem switch_round_trip_unused_rc20 :
  ∃ pc cpu₁, SwitchesTo twoProcs (firstSwitches 0) pc cpu₁ ∧
    ∃ cpu₃, SwitchesTo twoProcs (secondSwitches 0 cpu₁) twoProcs.swapInReturn cpu₃
      ∧ cpu₃.s = 63 ∧ KernelRegs (firstSwitches 0).mem cpu₃.mem
  := by
  obtain ⟨pc, cpu₁, hswitch, hback⟩ := switch_round_trip (running_firstSwitches 0)
    (B := 0x300) ⟨by decide, by decide⟩ (Or.inl (by decide)) rfl (by decide)
  obtain ⟨cpu₃, hreturn, hs, -, -, -, hregs⟩ := hback 0x300 (secondSwitches 0 cpu₁)
    (fun i hi _ _ => secondSwitches_field 0 cpu₁ hi) (switchable_secondSwitches 0 cpu₁)
  exact ⟨pc, cpu₁, hswitch, cpu₃, hreturn, hs, hregs.mpr (regsReturn_zero cpu₁)⟩

/-- A process that has the value 1 in `RC20` is resumed without it. -/
theorem not_kernelRegs_used_rc20 :
  ∃ pc cpu₁, SwitchesTo twoProcs (firstSwitches 1) pc cpu₁ ∧
    ∃ cpu₃, SwitchesTo twoProcs (secondSwitches 1 cpu₁) twoProcs.swapInReturn cpu₃
      ∧ ¬ KernelRegs (firstSwitches 1).mem cpu₃.mem
  := by
  have hfirst := running_firstSwitches 1
  obtain ⟨pc, cpu₁, hswitch, hsaved⟩ := switch_saves hfirst (B := 0x300) ⟨by decide, by decide⟩
    (Or.inl (by decide)) rfl (by decide)
  have hsaved' := hsaved.congr hfirst.s_lo hfirst.s_hi fun i hi _ _ =>
    secondSwitches_field 1 cpu₁ hi
  obtain ⟨cpu₃, hreturn, -, -, -, -, hregs⟩ := switch_resumes hsaved' hfirst.s_lo hfirst.s_hi
    (switchable_secondSwitches 1 cpu₁)
  exact ⟨pc, cpu₁, hswitch, cpu₃, hreturn, mt hregs.mp (not_regsReturn_one cpu₁)⟩

end Mosnix.Switcher
