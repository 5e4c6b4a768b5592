import Mosnix.Target.Trap

/-!
# The interrupt handler

An interrupt handled by `_irqbrk` returns to where the program was interrupted, with all registers and
flags as they were.  In memory it changes the number of ticks and the ring of received bytes as the
two interrupt routines do, the bytes of the stack that are free, and nothing else (`irqbrk_leads`).
-/

namespace Mosnix.Trap

open Mos6502
open Systick (Timer timer)
open Serial (ACIA_DATA ACIA_STATUS ACIA_CMD)

namespace Link

variable {k : Link} {m m' : Memory} {cpu cpu' : Cpu} {c c' : Cpu × Timer} {S : Set Word}

/-! ### What the interrupt routines change -/

/-- The memory after `__serial_isr`. -/
def received (k : Link) (m : Memory) : Memory :=
  if Serial.Link.Arrived (m ACIA_STATUS) then k.serial.afterIsr m (m ACIA_DATA) else m

/-- The variables of the serial port, and the registers of the ACIA that are read. -/
def serialInputs (k : Link) : List Word :=
  [k.serial.serialRxIn, k.serial.serialRxOut, ACIA_STATUS, ACIA_DATA]

/-- What `__serial_isr` does depends only on what it reads. -/
theorem received_congr (h : Set.EqOn m' m S) (hread : ∀ a ∈ k.serialInputs, a ∈ S) :
  Set.EqOn (k.received m') (k.received m) S
  := by
  have hin := h (hread k.serial.serialRxIn (by simp [serialInputs]))
  have hout := h (hread k.serial.serialRxOut (by simp [serialInputs]))
  have hstatus := h (hread ACIA_STATUS (by simp [serialInputs]))
  have hdata := h (hread ACIA_DATA (by simp [serialInputs]))
  rw [received, received, hstatus, hdata]
  split_ifs
  · have hput : Set.EqOn (k.serial.put m' (m ACIA_DATA)) (k.serial.put m (m ACIA_DATA)) S := by
      rw [Serial.Link.put, Serial.Link.put, hin]
      apply Memory.store_congr (Memory.store_congr h)
    have hcount : k.serial.count (k.serial.put m' (m ACIA_DATA))
        = k.serial.count (k.serial.put m (m ACIA_DATA)) := by
      simp only [Serial.Link.count, Serial.Link.put_rxIn, Serial.Link.put_rxOut, hin, hout]
    rw [Serial.Link.afterIsr, Serial.Link.afterIsr, hcount]
    split_ifs
    · exact hput
    · apply Memory.store_congr hput
  · exact h

/-- The bytes that `__serial_isr` may change. -/
def serialOutputs (k : Link) : Set Word :=
  {a | a = k.serial.serialRxIn ∨ a = ACIA_CMD ∨ ∃ x, a = k.serial.slot x}

theorem received_eqOn (k : Link) (m : Memory) : Set.EqOn (k.received m) m k.serialOutputsᶜ := by
  have hput (b : Byte) : Set.EqOn (k.serial.put m b) m k.serialOutputsᶜ :=
    store_eqOn (store_eqOn (Set.eqOn_refl _ _) (.inr (.inr ⟨_, rfl⟩))) (.inl rfl)
  rw [received]
  split_ifs
  · rw [Serial.Link.afterIsr]
    split_ifs
    · apply hput
    · apply store_eqOn (hput _) (.inr (.inl rfl))
  · apply Set.eqOn_refl

variable {a : Word} {cpu₁ : Cpu}

/-- `__serial_isr` changes no byte below the RAM of the kernel. -/
theorem received_of_lt (ha : a.toNat < 0x0200) : k.received m a = m a := by
  apply k.received_eqOn m
  rintro (rfl | rfl | ⟨x, rfl⟩)
  · have := k.serial_ram k.serial.serialRxIn List.mem_cons_self
    omega
  · exact absurd ha (by decide)
  · have := k.buffer_ram x
    omega

/-- The instructions of `serial.S` keep `Y` and the stack pointer. -/
theorem serial_quiet (k : Link) (o : Op) (ho : .op o ∈ k.serial.code) : o.Quiet := by
  simp only [Serial.Link.code, Serial.Link.serialIsr, Serial.Link.chrin, Serial.Link.chrinNoWait,
    Serial.Link.takeChar, List.cons_append, List.nil_append, List.mem_cons, List.not_mem_nil,
    Line.op.injEq, reduceCtorEq, false_or, or_false] at ho
  intro cpu
  rcases ho with rfl | rfl | rfl | rfl | rfl | rfl | rfl | rfl | rfl | rfl | rfl | rfl | rfl | rfl
    | rfl | rfl | rfl | rfl | rfl | rfl | rfl | rfl | rfl | rfl | rfl | rfl | rfl | rfl | rfl | rfl
    | rfl | rfl | rfl | rfl | rfl | rfl
  all_goals exact ⟨rfl, rfl⟩

/-- The effect of `__serial_isr`. -/
theorem serialIsr_spec (h : k.serialIsr c c') :
  c'.1.mem = k.received c.1.mem ∧ c'.1.y = c.1.y ∧ c'.1.s = c.1.s ∧ c'.2 = c.2
  := by
  obtain ⟨hreturns, htimer⟩ := h
  obtain ⟨hy, hs⟩ := hreturns.quiet (serial_quiet k)
  exact ⟨hreturns.spec (k.serial.serialIsr_leads c.1), hy, hs, htimer⟩

/-- `serial_isr` returns. -/
theorem serialIsr_returns (k : Link) (c : Cpu × Timer) : ∃ c', k.serialIsr c c' := by
  obtain ⟨cpu', hreturns, -⟩ := (k.serial.serialIsr_leads c.1).returns
  exact ⟨(cpu', c.2), hreturns, rfl⟩

/-- The effect of `__systick_isr`. -/
theorem systickIsr_spec (h : k.systickIsr c c') : k.systick.Ticked c c' := by
  apply h.spec _ (k.systick.systickIsr_leads c)
  intro a
  rfl

/-- `systick_isr` returns. -/
theorem systickIsr_returns (k : Link) (c : Cpu × Timer) : ∃ c', k.systickIsr c c' := by
  obtain ⟨c', hreturns, -⟩ := (k.systick.systickIsr_leads c).returns
  exact ⟨c', hreturns⟩

/-! ### What is saved on the stack -/

/-- The bytes of the stack that an interrupt uses. -/
def stackBytes (s : Byte) : Set Word :=
  {a | ∃ i < 7, a = Cpu.stackAddr (s - BitVec.ofNat 8 i)}

/-- The bytes of the memory that an interrupt may change, beside those that `__serial_isr` changes. -/
def scratch (k : Link) (s : Byte) : Set Word :=
  {a | a ∈ k.systick.bytes} ∪ Systick.Link.registers ∪ stackBytes s

/-- The registers are saved on the stack of a program that was interrupted at `pc` in the state `cpu`,
with `A` and `X` on top of what the interrupt has pushed. -/
structure Saved (pc : Word) (p : Byte) (cpu cpu' : Cpu) : Prop where
  s_eq : cpu'.s = cpu.s - 5
  y_eq : cpu'.y = cpu.y
  x_eq : cpu'.mem (Cpu.stackAddr (cpu.s - 4)) = cpu.x
  a_eq : cpu'.mem (Cpu.stackAddr (cpu.s - 3)) = cpu.a
  flags_eq : cpu'.mem (Cpu.stackAddr (cpu.s - 2)) = p
  low : cpu'.mem (Cpu.stackAddr (cpu.s - 1)) = pc.extractLsb' 0 8
  high : cpu'.mem (Cpu.stackAddr cpu.s) = pc.extractLsb' 8 8

variable {pc : Word} {p : Byte}

/-- The start of `_irqbrk` saves `A` and `X`. -/
theorem saved_trap (cpu : Cpu) (pc : Word) (p : Byte) :
  Saved pc p cpu (run [.pha, .phx] (cpu.trap pc p))
    ∧ Set.EqOn (run [.pha, .phx] (cpu.trap pc p)).mem cpu.mem (stackBytes cpu.s)ᶜ
  := by
  have htrapped := cpu.trap_trapped pc p
  have hkeeps : (cpu.trap pc p).a = cpu.a ∧ (cpu.trap pc p).x = cpu.x ∧ (cpu.trap pc p).y = cpu.y :=
    ⟨rfl, rfl, rfl⟩
  have htrap : Set.EqOn (cpu.trap pc p).mem cpu.mem (stackBytes cpu.s)ᶜ := by
    apply store_eqOn (store_eqOn (store_eqOn (Set.eqOn_refl _ _) _) _) _
    · exact ⟨0, by decide, by rw [BitVec.sub_zero]⟩
    · exact ⟨1, by decide, rfl⟩
    · refine ⟨2, by decide, ?_⟩
      rw [Cpu.stackAddr_inj]
      simp only [Cpu.push]
      bv_omega
  generalize cpu.trap pc p = cpu₁ at *
  have hs := htrapped.s_eq
  have hs' : cpu₁.s - 1 = cpu.s - 4 := by
    rw [hs]
    bv_omega
  have hmem : (run [.pha, .phx] cpu₁).mem
      = (cpu₁.mem.store (Cpu.stackAddr (cpu.s - 3)) cpu.a).store (Cpu.stackAddr (cpu.s - 4)) cpu.x := by
    rw [← hs, ← hs', ← hkeeps.1, ← hkeeps.2.1]
    rfl
  have hother (i : ℕ) (hi : i < 3) : (run [.pha, .phx] cpu₁).mem
      (Cpu.stackAddr (cpu.s - BitVec.ofNat 8 i)) = cpu₁.mem (Cpu.stackAddr (cpu.s - BitVec.ofNat 8 i)) := by
    rw [hmem, Memory.store_of_ne, Memory.store_of_ne]
    all_goals
      rw [Ne, Cpu.stackAddr_inj]
      bv_omega
  constructor
  · constructor
    case s_eq =>
      simp only [run, List.foldl, Op.exec, Cpu.push, hs]
      bv_omega
    case y_eq => exact hkeeps.2.2
    case x_eq => rw [hmem, Memory.store_self]
    case a_eq =>
      rw [hmem, Memory.store_of_ne, Memory.store_self]
      rw [Ne, Cpu.stackAddr_inj]
      bv_omega
    case flags_eq => exact (hother 2 (by decide)).trans htrapped.flags_eq
    case low => exact (hother 1 (by decide)).trans htrapped.low
    case high =>
      have h₀ := hother 0 (by decide)
      rw [BitVec.sub_zero] at h₀
      exact h₀.trans htrapped.high
  · rw [hmem]
    apply store_eqOn (store_eqOn htrap _) _
    · exact ⟨3, by decide, rfl⟩
    · exact ⟨4, by decide, rfl⟩

/-- What is saved stays on the stack while the bytes that hold it do. -/
theorem Saved.of_mem_eq (h : Saved pc p cpu cpu₁) (hs : cpu'.s = cpu₁.s) (hy : cpu'.y = cpu₁.y)
    (hmem : ∀ i < 5, cpu'.mem (Cpu.stackAddr (cpu.s - BitVec.ofNat 8 i))
      = cpu₁.mem (Cpu.stackAddr (cpu.s - BitVec.ofNat 8 i))) :
  Saved pc p cpu cpu'
  where
  s_eq := hs.trans h.s_eq
  y_eq := hy.trans h.y_eq
  x_eq := (hmem 4 (by decide)).trans h.x_eq
  a_eq := (hmem 3 (by decide)).trans h.a_eq
  flags_eq := (hmem 2 (by decide)).trans h.flags_eq
  low := (hmem 1 (by decide)).trans h.low
  high := by
    have h₀ := hmem 0 (by decide)
    rw [BitVec.sub_zero] at h₀
    exact h₀.trans h.high

/-- What was interrupted is restored when `A` and `X` are back. -/
theorem Saved.rti_eq (h : Saved pc (cpu.flags &&& 0xEF) cpu cpu') :
  (run [.plx, .pla] cpu').rti = (pc, { cpu with mem := cpu'.mem })
  := by
  have hs := h.s_eq
  have hs₁ : cpu'.s + 1 = cpu.s - 4 := by
    rw [hs]
    bv_omega
  have hs₂ : cpu.s - 4 + 1 = cpu.s - 3 := by bv_omega
  have hx : (run [.plx, .pla] cpu').x = cpu.x := by
    rw [← h.x_eq, ← hs₁]
    rfl
  have ha : (run [.plx, .pla] cpu').a = cpu.a := by
    rw [← h.a_eq, ← hs₂, ← hs₁]
    rfl
  have hs₃ : (run [.plx, .pla] cpu').s = cpu.s - 3 := by
    rw [← hs₂, ← hs₁]
    rfl
  have hy : (run [.plx, .pla] cpu').y = cpu.y := h.y_eq
  have hmem : (run [.plx, .pla] cpu').mem = cpu'.mem := rfl
  generalize run [.plx, .pla] cpu' = cpu₁ at *
  have htrapped : cpu.Trapped pc (cpu.flags &&& 0xEF) cpu₁ := by
    refine ⟨hs₃, ?_, ?_, ?_⟩
    all_goals rw [hmem]
    · exact h.flags_eq
    · exact h.low
    · exact h.high
  rw [htrapped.rti_eq, Cpu.setFlags_irq, ← hmem]
  obtain ⟨a, x, y, s, n, v, d, i, z, c, mem⟩ := cpu
  simp only at hx ha hy
  simp only [hx, ha, hy]

/-! ### The handler -/

/-- The part of `_irqbrk` after the test for a `brk`. -/
def handlers (k : Link) (rest : Code) : Code :=
  .call k.retSystick k.systickIsr :: .call k.retSerial k.serialIsr
    :: ([Op.plx, Op.pla].map .op ++ .jmp .irqDefault :: .label .doBreak :: .op .cli
      :: .jmp .brkSyscall :: .label .irqDefault :: .rti :: rest)

/-- A program that contains `_irqbrk`. -/
structure HasIrqbrk (k : Link) (prog rest : Code) : Prop where
  irqbrk : SysLine.goto prog .irqbrk = k.irqbrk ++ rest
  irqDefault : SysLine.goto prog .irqDefault = .label .irqDefault :: .rti :: rest

/-- The code of `reset.S`. -/
theorem hasIrqbrk_self (k : Link) : k.HasIrqbrk k.irqbrk [] :=
  ⟨rfl, rfl⟩

theorem irqbrk_append (k : Link) (rest : Code) :
  k.irqbrk ++ rest = .label .irqbrk :: ([Op.pha, Op.phx].map .op ++ .sys .cld
    :: ([Op.tsx, Op.lda (.absX 0x0103), Op.and (.imm 0x10)].map .op
      ++ .branch .ne .doBreak :: k.handlers rest))
  := rfl

variable {prog rest : Code} {t : Timer} {Q : Code × Cpu × Timer → Prop}

/-- The test for a `brk` reads the flags on the stack. -/
theorem test_addr (hs : 5 ≤ cpu.s.toNat) (hs' : cpu'.s = cpu.s - 5) :
  0x0103 + cpu'.s.setWidth 16 = Cpu.stackAddr (cpu.s - 2)
  := by
  rw [hs', Cpu.stackAddr]
  bv_omega

/-- `_irqbrk` saves the registers, and tells an interrupt from a `brk` by the flags on the stack. -/
theorem irqbrk_enter (hprog : k.HasIrqbrk prog rest) (hs : 5 ≤ cpu.s.toNat)
    (hirq : p &&& 0x10 = 0 → ∀ cpu', Saved pc p cpu cpu' →
      Set.EqOn cpu'.mem cpu.mem (stackBytes cpu.s)ᶜ → SysLeads prog (k.handlers rest, cpu', t) Q)
    (hbrk : p &&& 0x10 ≠ 0 → ∀ cpu', Saved pc p cpu cpu' →
      Set.EqOn cpu'.mem cpu.mem (stackBytes cpu.s)ᶜ →
      SysLeads prog (SysLine.goto prog .doBreak, cpu', t) Q) :
  SysLeads prog (SysLine.goto prog .irqbrk, cpu.trap pc p, t) Q
  := by
  obtain ⟨hsaved, heqOn⟩ := saved_trap cpu pc p
  rw [hprog.irqbrk, irqbrk_append]
  apply SysLeads.label
  apply SysLeads.ops
  apply SysLeads.sys
  apply SysLeads.ops
  generalize run [.pha, .phx] (cpu.trap pc p) = cpu₁ at *
  obtain ⟨cpu₂, hcpu₂⟩ : ∃ cpu₂, cpu₂
      = run [.tsx, .lda (.absX 0x0103), .and (.imm 0x10)] (SysOp.cld.exec cpu₁) := ⟨_, rfl⟩
  have hmem : cpu₂.mem = cpu₁.mem := by
    rw [hcpu₂]
    rfl
  have hsaved₂ : Saved pc p cpu cpu₂ := by
    apply hsaved.of_mem_eq
    · rw [hcpu₂]
      rfl
    · rw [hcpu₂]
      rfl
    · intro i _
      rw [hmem]
  have hz : cpu₂.z = (p &&& 0x10 == 0) := by
    rw [← hsaved.flags_eq, ← test_addr hs hsaved.s_eq, hcpu₂]
    rfl
  rw [← hmem] at heqOn
  rw [← hcpu₂]
  by_cases hbit : p &&& 0x10 = 0
  · apply SysLeads.noBranch
    · apply Cond.not_holds_ne hz hbit
    · apply hirq hbit _ hsaved₂ heqOn
  · apply SysLeads.branch
    · apply Cond.holds_ne hz hbit
    · apply hbrk hbit _ hsaved₂ heqOn

/-- A call from `_irqbrk` uses free bytes of the stack. -/
theorem Saved.call_eqOn (h : Saved pc p cpu cpu₁) (ret : Word) :
  Set.EqOn (cpu₁.call ret).mem cpu₁.mem (stackBytes cpu.s)ᶜ
  := by
  apply store_eqOn (store_eqOn (Set.eqOn_refl _ _) _) _
  · exact ⟨5, by decide, by rw [h.s_eq]; rfl⟩
  · refine ⟨6, by decide, ?_⟩
    rw [Cpu.stackAddr_inj]
    simp only [Cpu.push, h.s_eq]
    bv_omega

/-- A routine that keeps `Y`, the stack pointer and the stack returns to `_irqbrk`. -/
theorem Saved.call (h : Saved pc p cpu cpu₁) {ret : Word} (hs : cpu'.s = (cpu₁.call ret).s)
    (hy : cpu'.y = (cpu₁.call ret).y)
    (hstack : ∀ b, cpu'.mem (Cpu.stackAddr b) = (cpu₁.call ret).mem (Cpu.stackAddr b)) :
  cpu₁.Called ret cpu' ∧ Saved pc p cpu { cpu' with s := cpu₁.s }
  := by
  have hcalled := cpu₁.call_called ret
  constructor
  · refine ⟨hs.trans hcalled.s_eq, ?_, ?_⟩
    · rw [hstack, hcalled.low]
    · rw [hstack, hcalled.high]
  · apply h.of_mem_eq
    · rfl
    · exact hy
    intro i hi
    dsimp only
    rw [hstack, Cpu.call, Cpu.push, Cpu.push]
    dsimp only
    rw [Memory.store_of_ne, Memory.store_of_ne]
    all_goals
      rw [Ne, Cpu.stackAddr_inj, h.s_eq]
      bv_omega

theorem stackAddr_lt (b : Byte) : (Cpu.stackAddr b).toNat < 0x0200 := by
  rw [Cpu.stackAddr_toNat]
  omega

/-- `__systick_isr` changes no byte of the stack. -/
theorem ticked_stack (h : k.systick.Ticked c c') (b : Byte) :
  c'.1.mem (Cpu.stackAddr b) = c.1.mem (Cpu.stackAddr b)
  := by
  have hlt := stackAddr_lt b
  apply h.eqOn
  rintro (hmem | hmapped)
  · have := (k.systick.mem_bytes hmem).1
    omega
  · rw [Systick.Link.registers, Set.mem_ofPred_eq, Systick.Link.mapped_of_lt (by omega)] at hmapped
    cases hmapped

/-- The number of ticks is kept by what does not change its bytes. -/
theorem ticks_of_eqOn (h : Set.EqOn m' m S) (hS : ∀ a ∈ k.systick.bytes, a ∈ S) :
  k.systick.ticks m' = k.systick.ticks m
  := by
  apply Memory.number_congr
  intro a ha
  apply h (hS a ha)

/-- `__serial_isr` changes no byte of the number of ticks. -/
theorem received_ticks (k : Link) (m : Memory) :
  k.systick.ticks (k.received m) = k.systick.ticks m
  := by
  apply ticks_of_eqOn (k.received_eqOn m)
  intro a ha
  obtain ⟨hin, -, hslot⟩ := k.systick_ne a ha
  rintro (rfl | rfl | ⟨x, rfl⟩)
  · exact hin rfl
  · exact absurd (k.systick.mem_bytes ha).2 (by decide)
  · exact hslot x rfl

theorem stackBytes_lt {s : Byte} (ha : a ∈ stackBytes s) : a.toNat < 0x0200 := by
  obtain ⟨i, -, rfl⟩ := ha
  apply stackAddr_lt

/-- What is neither a byte of the number of ticks, nor in the VIA, nor in the stack is not changed by an
interrupt, except for what `__serial_isr` does. -/
theorem notMem_scratch (s : Byte) (ha : 0x0200 ≤ a.toNat) (hmapped : timer.mapped a = false)
    (hbytes : a ∉ k.systick.bytes) :
  a ∈ (k.scratch s)ᶜ
  := by
  rintro ((hmem | hmem) | hstack)
  · exact hbytes hmem
  · rw [Systick.Link.registers, Set.mem_ofPred_eq, hmapped] at hmem
    cases hmem
  · have := stackBytes_lt hstack
    omega

/-- The RAM of the kernel, except for the number of ticks. -/
theorem notMem_scratch_of_ram (s : Byte) (ha : 0x0200 ≤ a.toNat ∧ a.toNat < 0x1000)
    (hbytes : a ∉ k.systick.bytes) :
  a ∈ (k.scratch s)ᶜ
  :=
  notMem_scratch s ha.1 (Systick.Link.mapped_of_lt ha.2) hbytes

/-- The registers of the ACIA. -/
theorem notMem_scratch_of_acia (s : Byte) (ha : a ∈ [ACIA_DATA, ACIA_STATUS, ACIA_CMD]) :
  a ∈ (k.scratch s)ᶜ
  := by
  have hbytes (h : 0x1000 ≤ a.toNat) : a ∉ k.systick.bytes := by
    intro hmem
    have := (k.systick.mem_bytes hmem).2
    omega
  simp only [List.mem_cons, List.not_mem_nil, or_false] at ha
  obtain rfl | rfl | rfl := ha
  all_goals exact notMem_scratch s (by decide) rfl (hbytes (by decide))

/-- What `__serial_isr` reads is not changed by the rest of an interrupt. -/
theorem serialInputs_not_mem (s : Byte) (ha : a ∈ k.serialInputs) :
  a ∈ (k.scratch s)ᶜ
  := by
  simp only [serialInputs, List.mem_cons, List.not_mem_nil, or_false] at ha
  obtain rfl | rfl | rfl | rfl := ha
  · exact notMem_scratch_of_ram s (k.serial_ram _ (by simp)) fun hmem => (k.systick_ne _ hmem).1 rfl
  · exact notMem_scratch_of_ram s (k.serial_ram _ (by simp)) fun hmem => (k.systick_ne _ hmem).2.1 rfl
  · exact notMem_scratch_of_acia s (by simp)
  · exact notMem_scratch_of_acia s (by simp)

/-- The state `c'` at the `rti` of an interrupt of the state `c`: it returns to `c`, except for the
memory. -/
structure Serviced (k : Link) (pc : Word) (c c' : Cpu × Timer) : Prop where
  rti_eq : c'.1.rti = (pc, { c.1 with mem := c'.1.mem })
  eqOn : Set.EqOn c'.1.mem (k.received c.1.mem) (k.scratch c.1.s)ᶜ
  idle : c.2.expired = false →
    c'.2 = c.2 ∧ k.systick.ticks c'.1.mem = k.systick.ticks c.1.mem
  tick : c.2.expired = true → Systick.Link.Restarted c.2 c'.2
    ∧ k.systick.ticks c'.1.mem = (k.systick.ticks c.1.mem + 1) % 2 ^ 40

/-- The two interrupt routines are called, and the registers are restored. -/
theorem handlers_leads (hprog : k.HasIrqbrk prog rest) (hsaved : Saved pc (cpu.flags &&& 0xEF) cpu cpu₁)
    (heqOn : Set.EqOn cpu₁.mem cpu.mem (stackBytes cpu.s)ᶜ) :
  SysLeads prog (k.handlers rest, cpu₁, t) fun q =>
    q.1.head? = some .rti ∧ k.Serviced pc (cpu, t) q.2
  := by
  apply SysLeads.call (k.systickIsr_returns _)
  intro c₂ hisr
  have hticked := systickIsr_spec hisr
  obtain ⟨hcalled, hsaved₂⟩ := hsaved.call hticked.s_eq hticked.y_eq (ticked_stack hticked)
  refine ⟨hcalled, ?_⟩
  apply SysLeads.call (k.serialIsr_returns _)
  intro c₃ hisr'
  obtain ⟨hmem, hy, hs, htimer⟩ := serialIsr_spec hisr'
  have hstack (b : Byte) := received_of_lt (k := k)
    (m := (({ c₂.1 with s := cpu₁.s } : Cpu).call k.retSerial).mem) (stackAddr_lt b)
  rw [← hmem] at hstack
  obtain ⟨hcalled', hsaved₃⟩ := hsaved₂.call hs hy hstack
  refine ⟨hcalled', ?_⟩
  apply SysLeads.ops
  apply SysLeads.jmp
  rw [hprog.irqDefault]
  apply SysLeads.label
  apply SysLeads.refl
  have hpush := (hsaved.call_eqOn k.retSystick).trans heqOn
  have hpush₂ := hsaved₂.call_eqOn k.retSerial
  have hbytes (s : Byte) : ∀ a ∈ k.systick.bytes, a ∈ (stackBytes s)ᶜ := by
    intro a ha hstack
    have := stackBytes_lt hstack
    have := (k.systick.mem_bytes ha).1
    omega
  have hticks : k.systick.ticks c₃.1.mem = k.systick.ticks c₂.1.mem := by
    rw [hmem, received_ticks]
    apply ticks_of_eqOn hpush₂ (hbytes _)
  have hticks' := ticks_of_eqOn hpush (hbytes _)
  refine ⟨rfl, hsaved₃.rti_eq, ?_, ?_, ?_⟩
  · have hmem' : Set.EqOn c₃.1.mem (k.received cpu.mem) (k.scratch cpu.s)ᶜ := by
      rw [hmem]
      apply received_congr _ fun a ha => serialInputs_not_mem cpu.s ha
      intro a ha
      rw [scratch, Set.compl_union] at ha
      exact (hpush₂ ha.2).trans ((hticked.eqOn ha.1).trans (hpush ha.2))
    exact hmem'
  · intro hfalse
    obtain ⟨htimer', hidle⟩ := hticked.idle hfalse
    exact ⟨htimer.trans htimer', hticks.trans (hidle.trans hticks')⟩
  · intro htrue
    obtain ⟨hrestarted, htick⟩ := hticked.tick htrue
    dsimp only at hrestarted htick hticks'
    rw [hticks'] at htick
    dsimp only
    rw [htimer]
    exact ⟨hrestarted, hticks.trans htick⟩

/-- An interrupt is handled, wherever it happens: `_irqbrk` comes to its `rti`, which returns to the
program with all registers and flags as they were. -/
theorem irqbrk_leads (k : Link) (pc : Word) (c : Cpu × Timer) (hs : 5 ≤ c.1.s.toNat) :
  SysLeads k.irqbrk (SysLine.goto k.irqbrk .irqbrk, c.1.irq pc, c.2) fun q =>
    q.1.head? = some .rti ∧ k.Serviced pc c q.2
  := by
  have hbit : c.1.flags &&& 0xEF &&& 0x10 = 0 := by
    rw [BitVec.and_assoc]
    apply BitVec.and_zero
  apply irqbrk_enter k.hasIrqbrk_self hs
  · intro _ cpu' hsaved heqOn
    apply handlers_leads k.hasIrqbrk_self hsaved heqOn
  · intro hne
    exact absurd hbit hne

/-- The handler comes to no other `rti`. -/
theorem Serviced.of_run {pc : Word} (hs : 5 ≤ c.1.s.toNat)
    (hrun : Relation.ReflTransGen (SysStep k.irqbrk)
      (SysLine.goto k.irqbrk .irqbrk, c.1.irq pc, c.2) (.rti :: rest, c')) :
  k.Serviced pc c c'
  := by
  have hend (q r : Code × Cpu × Timer) (hq : q.1.head? = some .rti) : ¬ SysStep k.irqbrk q r := by
    obtain ⟨_ | ⟨line, lines⟩, c₁⟩ := q
    · cases hq
    · cases hq
      intro hstep
      cases hstep with
      | rti hresume => cases hresume
  exact ((k.irqbrk_leads pc c hs).of_end (fun q r hq => hend q r hq.1) hrun (hend _ · rfl)).2

end Link

end Mosnix.Trap
