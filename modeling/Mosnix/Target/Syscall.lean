import Mosnix.Target.Interrupt

/-!
# System calls

A system call from the C library through the kernel and back.  The number in `A` selects the function
from the dispatch table, which is called once, with interrupts enabled and with the address of the
arguments in the imaginary registers 2 and 3.  Its result comes back to the program, or as `-1` with
`errno` set if it is negative; the stack of the program, its flags for interrupts and decimal mode,
and `in_kernel` are as before (`syscall_leads`).
-/

namespace Mosnix.Trap

open Mos6502
open Systick (Timer timer)

/-! ### The dispatch table -/

/-- The function that is called for a number in `A`: the number is doubled in 8 bits. -/
def sysFn (n : Byte) : SysFn :=
  SYSCALL_TABLE.getD (n.toNat % 128) .sysNotimp

/-- A number of `bits/syscall.h` calls its function. -/
theorem sysFn_of_number {f : SysFn} {n : Byte} (h : f.number = some (n &&& 0x7F)) : sysFn n = f := by
  have hmod : n.toNat % 128 = (n &&& 0x7F).toNat := by
    rw [BitVec.toNat_and]
    exact (Nat.and_two_pow_sub_one_eq_mod n.toNat 7).symm
  rw [sysFn, hmod]
  generalize n &&& 0x7F = m at h
  cases f <;> cases h <;> rfl

/-- A function in the table, except for `sys_notimp`, has the number of its place. -/
theorem sysFn_number (n : Byte) : sysFn n = .sysNotimp ∨ (sysFn n).number = some (n &&& 0x7F) := by
  revert n
  decide +kernel

/-- The function that `bits/syscall.h` has a number for: numbers that are not there are those of
`sys_notimp`.  The high bit of the number does not matter. -/
def Numbered (n : Byte) (f : SysFn) : Prop :=
  f.number = some (n &&& 0x7F) ∨ f = .sysNotimp ∧ ∀ g : SysFn, g.number ≠ some (n &&& 0x7F)

/-- The dispatch table agrees with `bits/syscall.h`. -/
theorem Numbered.sysFn_eq {n : Byte} {f : SysFn} (h : Numbered n f) : sysFn n = f := by
  rcases h with hnumber | ⟨rfl, hnone⟩
  · exact sysFn_of_number hnumber
  · rcases sysFn_number n with hnotimp | hnumber
    · exact hnotimp
    · exact absurd hnumber (hnone _)

namespace Link

variable {k : Link} {cpu cpu' : Cpu} {c c' : Cpu × Timer} {m m' : Memory} {n : Byte}

/-- The table is in memory. -/
def HasTable (k : Link) (m : Memory) : Prop :=
  ∀ i < 128, m.word (k.table + BitVec.ofNat 16 (2 * i)) = k.address (SYSCALL_TABLE.getD i .sysNotimp)

/-- The table does not depend on the memory below `0x1000`. -/
theorem HasTable.congr (h : k.HasTable m) (heq : ∀ a, 0x1000 ≤ a.toNat → m' a = m a) :
  k.HasTable m'
  := by
  have hlo := k.table_lo
  have hhi := k.table_hi
  intro i hi
  rw [← h i hi, Memory.word, Memory.word, heq, heq]
  all_goals bv_omega

/-- The address of the function for a number, read from the table. -/
theorem HasTable.address_eq (h : k.HasTable m) (n : Byte) :
  m (k.table + 1 + (rotate n false).setWidth 16) ++ m (k.table + (rotate n false).setWidth 16)
    = k.address (sysFn n)
  := by
  have hdouble : (rotate n false).setWidth 16 = BitVec.ofNat 16 (2 * (n.toNat % 128)) := by
    revert n
    decide +kernel
  rw [sysFn, ← h _ (Nat.mod_lt _ (by decide)), hdouble, Memory.word, add_right_comm]

theorem rotate_le (n : Byte) : (rotate n false).toNat ≤ 254 := by
  revert n
  decide +kernel

/-! ### The start of a system call -/

/-- The instructions of `brk_syscall` before the call. -/
def enter (k : Link) : List Op :=
  [ .inc (.abs k.inKernelAddr),
    .tsx,
    .lda (.absY k.table),
    .sta (.abs (rc 4)),
    .lda (.absY (k.table + 1)),
    .sta (.abs (rc 5)),
    .lda (.absX 0x0102),
    .sta (.abs (rc 2)),
    .lda (.absX 0x0101),
    .sta (.abs (rc 3)) ]

/-- The bytes of the zero page that the start of a system call changes. -/
def kernelBytes (k : Link) : Set Word :=
  {rc 2, rc 3, rc 4, rc 5, k.inKernelAddr}

theorem inKernelAddr_toNat (k : Link) : k.inKernelAddr.toNat = k.inKernel.toNat := by
  rw [inKernelAddr, BitVec.toNat_setWidth, Nat.mod_eq_of_lt]
  have := k.inKernel_hi
  omega

theorem kernelBytes_lt {a : Word} (ha : a ∈ k.kernelBytes) : a.toNat < 0x40 := by
  obtain rfl | rfl | rfl | rfl | rfl := ha
  · decide
  · decide
  · decide
  · decide
  · rw [inKernelAddr_toNat]
    exact k.inKernel_hi

/-- The state after these instructions. -/
structure Ready (k : Link) (n : Byte) (cpu cpu' : Cpu) : Prop where
  function : cpu'.mem.word (rc 4) = k.address (sysFn n)
  arguments : cpu'.mem (rc 3) ++ cpu'.mem (rc 2)
    = cpu.mem (0x0101 + cpu.s.setWidth 16) ++ cpu.mem (0x0102 + cpu.s.setWidth 16)
  inKernel : cpu'.mem k.inKernelAddr = cpu.mem k.inKernelAddr + 1
  eqOn : Set.EqOn cpu'.mem cpu.mem k.kernelBytesᶜ
  s_eq : cpu'.s = cpu.s
  i_eq : cpu'.i = cpu.i

/-- The kernel is entered with the address of the function. -/
theorem run_enter (htable : k.HasTable cpu.mem) (hy : cpu.y = rotate n false) :
  k.Ready n cpu (run k.enter cpu)
  := by
  have hmem {a : Word} (ha : 0x40 ≤ a.toNat) : a ∈ k.kernelBytesᶜ := fun hmem => by
    have := kernelBytes_lt hmem
    omega
  obtain ⟨m₁, hm₁⟩ : ∃ m₁, m₁ = cpu.mem.store k.inKernelAddr (cpu.mem k.inKernelAddr + 1) := ⟨_, rfl⟩
  obtain ⟨m₂, hm₂⟩ : ∃ m₂, m₂ = m₁.store (rc 4) (m₁ (k.table + cpu.y.setWidth 16)) := ⟨_, rfl⟩
  obtain ⟨m₃, hm₃⟩ : ∃ m₃, m₃ = m₂.store (rc 5) (m₂ (k.table + 1 + cpu.y.setWidth 16)) := ⟨_, rfl⟩
  obtain ⟨m₄, hm₄⟩ : ∃ m₄, m₄ = m₃.store (rc 2) (m₃ (0x0102 + cpu.s.setWidth 16)) := ⟨_, rfl⟩
  have hrun : (run k.enter cpu).mem = m₄.store (rc 3) (m₄ (0x0101 + cpu.s.setWidth 16)) := by
    rw [hm₄, hm₃, hm₂, hm₁]
    rfl
  have h₁ : Set.EqOn m₁ cpu.mem k.kernelBytesᶜ := by
    rw [hm₁]
    exact store_eqOn (Set.eqOn_refl _ _) (by simp [kernelBytes])
  have h₂ : Set.EqOn m₂ cpu.mem k.kernelBytesᶜ := by
    rw [hm₂]
    exact store_eqOn h₁ (by simp [kernelBytes])
  have h₃ : Set.EqOn m₃ cpu.mem k.kernelBytesᶜ := by
    rw [hm₃]
    exact store_eqOn h₂ (by simp [kernelBytes])
  have h₄ : Set.EqOn m₄ cpu.mem k.kernelBytesᶜ := by
    rw [hm₄]
    exact store_eqOn h₃ (by simp [kernelBytes])
  have htable_mem : k.table + cpu.y.setWidth 16 ∈ k.kernelBytesᶜ
      ∧ k.table + 1 + cpu.y.setWidth 16 ∈ k.kernelBytesᶜ := by
    have hlo := k.table_lo
    have hhi := k.table_hi
    have heven : (rotate n false).toNat ≤ 254 := rotate_le n
    rw [hy]
    exact ⟨hmem (by bv_omega), hmem (by bv_omega)⟩
  have hstack : (0x0101 + cpu.s.setWidth 16) ∈ k.kernelBytesᶜ
      ∧ (0x0102 + cpu.s.setWidth 16) ∈ k.kernelBytesᶜ :=
    ⟨hmem (by bv_omega), hmem (by bv_omega)⟩
  constructor
  case s_eq => rfl
  case i_eq => rfl
  case eqOn =>
    rw [hrun]
    exact store_eqOn h₄ (by simp [kernelBytes])
  case inKernel =>
    have hne (i : ℕ) (hi : i < 0x20) : k.inKernelAddr ≠ rc i := by
      intro heq
      have hlo := k.inKernel_lo
      have htoNat := k.inKernelAddr_toNat
      rw [heq, rc, BitVec.toNat_ofNat] at htoNat
      omega
    rw [hrun, Memory.store_of_ne (hne 3 (by decide)), hm₄, Memory.store_of_ne (hne 2 (by decide)),
      hm₃, Memory.store_of_ne (hne 5 (by decide)), hm₂, Memory.store_of_ne (hne 4 (by decide)), hm₁,
      Memory.store_self]
  case function =>
    have h5 : (run k.enter cpu).mem (rc 5) = cpu.mem (k.table + 1 + cpu.y.setWidth 16) := by
      rw [hrun, Memory.store_of_ne (by decide), hm₄, Memory.store_of_ne (by decide), hm₃,
        Memory.store_self, h₂ htable_mem.2]
    have h4 : (run k.enter cpu).mem (rc 4) = cpu.mem (k.table + cpu.y.setWidth 16) := by
      rw [hrun, Memory.store_of_ne (by decide), hm₄, Memory.store_of_ne (by decide), hm₃,
        Memory.store_of_ne (by decide), hm₂, Memory.store_self, h₁ htable_mem.1]
    rw [← htable.address_eq n, ← hy, ← h5, ← h4]
    rfl
  case arguments =>
    rw [hrun, Memory.store_self, Memory.store_of_ne (by decide), h₄ hstack.1, hm₄, Memory.store_self,
      h₃ hstack.2]

/-! ### The result of a system call -/

/-- The code of `syscall` after the `brk`. -/
def afterBrk (k : Link) : Code :=
  [ .op (.cpx (.imm 0x80)),
    .branch .cs .syscallError,
    .rts,
    .label .syscallError,
    .sys (.eor (.imm 0xFF)),
    .op .clc,
    .op (.adc (.imm 1)),
    .op (.sta (.abs k.errno)),
    .op .txa,
    .sys (.eor (.imm 0xFF)),
    .op (.adc (.imm 0)),
    .op (.sta (.abs (k.errno + 1))),
    .op (.lda (.imm 0xFF)),
    .op .tax,
    .rts ]

/-- The state after `syscall`, when `cpu` is the state after the `brk`. -/
structure Result (k : Link) (cpu cpu' : Cpu) : Prop where
  s_eq : cpu'.s = cpu.s
  i_eq : cpu'.i = cpu.i
  d_eq : cpu'.d = cpu.d
  success : cpu.x.msb = false → cpu'.x = cpu.x ∧ cpu'.a = cpu.a ∧ cpu'.mem = cpu.mem
  failure : cpu.x.msb = true → cpu'.x = 0xFF ∧ cpu'.a = 0xFF
    ∧ cpu'.mem = cpu.mem.storeWord k.errno (-(cpu.x ++ cpu.a))

/-- A number of two bytes is negated by adding 1 to its complement, with a carry between the bytes. -/
theorem negate_bytes (x a : Byte) :
  (sum (x ^^^ 0xFF) 0 (sum (a ^^^ 0xFF) 1 false).msb).setWidth 8 ++ (sum (a ^^^ 0xFF) 1 false).setWidth 8
    = -(x ++ a)
  := by
  have hnot (b : Byte) : (b ^^^ 0xFF).toNat = 255 - b.toNat := by
    revert b
    decide +kernel
  have hx := sum_toNat (x ^^^ 0xFF) 0 (sum (a ^^^ 0xFF) 1 false).msb
  have ha := sum_toNat (a ^^^ 0xFF) 1 false
  have hx_lt := x.isLt
  have ha_lt := a.isLt
  rw [hnot] at hx ha
  apply BitVec.eq_of_toNat_eq
  rw [append_toNat, BitVec.toNat_neg, append_toNat]
  have hone : (1 : Byte).toNat = 1 := rfl
  have hzero : (0 : Byte).toNat = 0 := rfl
  rw [hone, Bool.toNat_false] at ha
  rw [hzero] at hx
  omega

/-- The result is returned if it is not negative; otherwise `errno` is set. -/
theorem afterBrk_leads {prog rest : Code} (hgoto : SysLine.goto prog .syscallError
      = k.afterBrk.drop 3 ++ rest) (cpu : Cpu) (t : Timer) :
  SysLeads prog (k.afterBrk ++ rest, cpu, t) fun q =>
    q.1.head? = some .rts ∧ k.Result cpu q.2.1 ∧ q.2.2 = t
  := by
  have hcarry : decide ((0x80 : Byte) ≤ cpu.x) = cpu.x.msb := by
    generalize cpu.x = x
    revert x
    decide +kernel
  apply SysLeads.op
  cases hmsb : cpu.x.msb with
  | false =>
      rw [hmsb] at hcarry
      apply SysLeads.noBranch
      · exact hcarry
      apply SysLeads.refl
      refine ⟨rfl, ⟨rfl, rfl, rfl, fun _ => ⟨rfl, rfl, rfl⟩, fun htrue => ?_⟩, rfl⟩
      rw [hmsb] at htrue
      cases htrue
  | true =>
      rw [hmsb] at hcarry
      apply SysLeads.branch
      · exact hcarry
      rw [hgoto]
      apply SysLeads.label
      apply SysLeads.sys
      apply SysLeads.op
      apply SysLeads.op
      apply SysLeads.op
      apply SysLeads.op
      apply SysLeads.sys
      apply SysLeads.op
      apply SysLeads.op
      apply SysLeads.op
      apply SysLeads.op
      apply SysLeads.refl
      refine ⟨rfl, ⟨rfl, rfl, rfl, fun hfalse => ?_, fun _ => ⟨rfl, rfl, ?_⟩⟩, rfl⟩
      · rw [hmsb] at hfalse
        cases hfalse
      · rw [← negate_bytes, Memory.storeWord, BitVec.extractLsb'_append_eq_right,
          BitVec.extractLsb'_append_eq_left]
        rfl

/-! ### The call of the function -/

/-- The state `c₁` at the start of the function of the kernel, for a call of `syscall` in the state `c`.
The function is called with interrupts enabled. -/
structure Entered (k : Link) (c c₁ : Cpu × Timer) : Prop where
  arguments : c₁.1.mem (rc 3) ++ c₁.1.mem (rc 2) = c.1.mem k.userRc1 ++ c.1.mem k.userRc0
  inKernel : c₁.1.mem k.inKernelAddr = c.1.mem k.inKernelAddr + 1
  enabled : c₁.1.i = false
  s_eq : c₁.1.s = c.1.s - 7
  eqOn : Set.EqOn c₁.1.mem c.1.mem (k.kernelBytes ∪ stackBytes c.1.s)ᶜ
  timer_eq : c₁.2 = c.2

/-- A function of the kernel keeps the part of the stack that is used. -/
structure Conforms (c c' : Cpu × Timer) : Prop where
  s_eq : c'.1.s = c.1.s
  stack : ∀ b, c.1.s < b → c'.1.mem (Cpu.stackAddr b) = c.1.mem (Cpu.stackAddr b)

/-- The memory when the kernel is left. -/
def leave (k : Link) (m : Memory) : Memory :=
  m.store k.inKernelAddr (m k.inKernelAddr - 1)

theorem stackAddr_ne_kernelBytes (k : Link) (b : Byte) : Cpu.stackAddr b ∈ k.kernelBytesᶜ := by
  intro hmem
  have hlt := kernelBytes_lt hmem
  rw [Cpu.stackAddr_toNat] at hlt
  omega

/-- The stack is as it was. -/
theorem leave_stack (k : Link) (m : Memory) (b : Byte) :
  k.leave m (Cpu.stackAddr b) = m (Cpu.stackAddr b)
  := by
  apply Memory.store_of_ne
  intro heq
  apply k.stackAddr_ne_kernelBytes b
  rw [heq]
  simp [kernelBytes]

/-- The `A` and `X` of the program are dropped from the stack; `A` and `X` are the result. -/
theorem discard_leads {prog rest : Code} {Q : Code × Cpu × Timer → Prop}
    (h : ∀ cpu', cpu'.s = c.1.s + 2 → cpu'.a = c.1.a → cpu'.x = c.1.x → cpu'.mem = c.1.mem →
      SysLeads prog (rest, cpu', c.2) Q) :
  SysLeads prog (k.discard ++ rest, c) Q
  := by
  have hs : c.1.s + 1 + 1 = c.1.s + 2 := by bv_omega
  rw [discard]
  cases k.cpu65C02 with
  | true =>
      apply SysLeads.sys
      apply SysLeads.sys
      exact h _ hs rfl rfl rfl
  | false =>
      apply SysLeads.op
      apply SysLeads.op
      apply SysLeads.op
      apply SysLeads.op
      exact h _ hs rfl rfl rfl

variable {kernel : Word → Cpu × Timer → Cpu × Timer → Prop}

section

variable (k kernel)

theorem hasIrqbrk_code :
  k.HasIrqbrk (k.code kernel) (k.brkSyscall kernel)
  :=
  ⟨rfl, rfl⟩

/-- The addresses that subroutines return to. -/
theorem resume_code (a : Word) :
  SysLine.resume (k.code kernel) a
    = if k.retSyscall = a then some (k.afterBrk ++ (k.irqbrk ++ k.brkSyscall kernel))
      else if k.retDispatch = a then some (k.discard ++ k.brkLeave kernel)
      else SysLine.resume (k.discard ++ k.brkLeave kernel) a
  := rfl

theorem goto_syscall :
  SysLine.goto (k.code kernel) .syscall
    = .label .syscall :: .sys .aslA :: ([Op.tay, Op.lda (.abs k.userRc0), Op.ldx (.abs k.userRc1)].map .op
      ++ .brk k.retSyscall .irqbrk :: (k.afterBrk ++ (k.irqbrk ++ k.brkSyscall kernel)))
  := rfl

theorem goto_doBreak :
  SysLine.goto (k.code kernel) .doBreak
    = .label .doBreak :: .op .cli :: .jmp .brkSyscall :: .label .irqDefault :: .rti
      :: k.brkSyscall kernel
  := rfl

theorem goto_brkSyscall :
  SysLine.goto (k.code kernel) .brkSyscall
    = .label .brkSyscall :: (k.enter.map .op ++ .jsr k.retDispatch .brkDispatch
      :: (k.discard ++ k.brkLeave kernel))
  := rfl

theorem goto_brkDispatch :
  SysLine.goto (k.code kernel) .brkDispatch = [.label .brkDispatch, .jmpInd (rc 4) kernel]
  := by
  rw [code, brkSyscall, discard]
  cases k.cpu65C02 <;> rfl

end

variable {t : Timer} {pc : Word} {p : Byte} {Q : Code × Cpu × Timer → Prop}

/-- The kernel is left with the registers of the function and the flags of the program. -/
theorem leave_leads {cpu₁ : Cpu} {c₂ : Cpu × Timer} (hs : cpu'.s = cpu₁.s - 5)
    (hmem : ∀ i < 3, c₂.1.mem (Cpu.stackAddr (cpu₁.s - BitVec.ofNat 8 i))
      = cpu'.mem (Cpu.stackAddr (cpu₁.s - BitVec.ofNat 8 i)))
    (hsaved : Saved k.retSyscall cpu₁.flags cpu₁ cpu')
    (hleads : ∀ cpu'', cpu''.s = cpu₁.s → cpu''.a = c₂.1.a → cpu''.x = c₂.1.x → cpu''.i = cpu₁.i →
      cpu''.d = cpu₁.d → cpu''.mem = k.leave c₂.1.mem →
      SysLeads (k.code kernel) (k.afterBrk ++ (k.irqbrk ++ k.brkSyscall kernel), cpu'', c₂.2) Q) :
  SysLeads (k.code kernel) (k.discard ++ k.brkLeave kernel, { c₂.1 with s := cpu'.s }, c₂.2) Q
  := by
  have hresume : SysLine.resume (k.code kernel) k.retSyscall
      = some (k.afterBrk ++ (k.irqbrk ++ k.brkSyscall kernel)) := by
    rw [resume_code, if_pos rfl]
  apply discard_leads
  intro cpu₄ hs₄ ha₄ hx₄ hmem₄
  dsimp only at hs₄ ha₄ hx₄ hmem₄
  apply SysLeads.op
  have hleave : ((Op.dec (.abs k.inKernelAddr)).exec cpu₄).mem = k.leave c₂.1.mem := by
    rw [← hmem₄]
    rfl
  have hstack (i : ℕ) (hi : i < 3) : k.leave c₂.1.mem (Cpu.stackAddr (cpu₁.s - BitVec.ofNat 8 i))
      = cpu'.mem (Cpu.stackAddr (cpu₁.s - BitVec.ofNat 8 i)) := by
    rw [← hmem i hi, leave_stack]
  have htrapped : cpu₁.Trapped k.retSyscall cpu₁.flags ((Op.dec (.abs k.inKernelAddr)).exec cpu₄) := by
    constructor
    · have hs₅ : cpu₄.s = cpu₁.s - 3 := by
        rw [hs₄, hs]
        bv_omega
      exact hs₅
    · rw [hleave]
      exact (hstack 2 (by decide)).trans hsaved.flags_eq
    · rw [hleave]
      exact (hstack 1 (by decide)).trans hsaved.low
    · rw [hleave]
      have h₀ := hstack 0 (by decide)
      rw [BitVec.sub_zero] at h₀
      exact h₀.trans hsaved.high
  apply SysLeads.rti hresume htrapped
  rw [Cpu.setFlags_flags]
  apply hleads
  · rfl
  · exact ha₄
  · exact hx₄
  · rfl
  · rfl
  · exact hleave

/-- The flags that a `brk` pushes tell it from an interrupt. -/
theorem flags_brk (cpu : Cpu) : cpu.flags &&& 0x10 ≠ 0 := by
  obtain ⟨-, -, -, -, n, v, d, i, z, c, -⟩ := cpu
  revert n v d i z c
  simp only [Cpu.flags]
  decide

/-- A call changes the stack only. -/
theorem call_mem (cpu : Cpu) (ret : Word) {a : Word} (ha : a.toNat < 0x100) :
  (cpu.call ret).mem a = cpu.mem a
  := by
  have hne (b : Byte) : a ≠ Cpu.stackAddr b := by
    rintro rfl
    rw [Cpu.stackAddr_toNat] at ha
    omega
  rw [Cpu.call, Cpu.push, Cpu.push]
  dsimp only
  rw [Memory.store_of_ne (hne _), Memory.store_of_ne (hne _)]

/-- The state at the call of the function, when `cpu₁` is the state before the `brk`. -/
theorem entered_of_ready {cpu₁ cpu₂ cpu₃ : Cpu} (hs : 7 ≤ cpu₁.s.toNat)
    (hsaved : Saved pc p cpu₁ cpu₂) (heqOn : Set.EqOn cpu₂.mem cpu₁.mem (stackBytes cpu₁.s)ᶜ)
    (hready : k.Ready n (Op.cli.exec cpu₂) cpu₃) (hy : cpu₃.y = cpu₂.y)
    (hmem : cpu₁.mem = cpu.mem) (hs₁ : cpu₁.s = cpu.s) (ha : cpu₁.a = cpu.mem k.userRc0)
    (hx : cpu₁.x = cpu.mem k.userRc1) (t : Timer) :
  k.Entered (cpu, t) (cpu₃.call k.retDispatch, t) ∧ Saved pc p cpu₁ cpu₃
  := by
  have hsaved₃ : Saved pc p cpu₁ cpu₃ :=
    hsaved.of_mem_eq hready.s_eq hy fun i _ => hready.eqOn (k.stackAddr_ne_kernelBytes _)
  refine ⟨⟨?_, ?_, hready.i_eq, ?_, ?_, rfl⟩, hsaved₃⟩
  · have haddr₁ : (0x0101 + cpu₂.s.setWidth 16 : Word) = Cpu.stackAddr (cpu₁.s - 4) := by
      rw [hsaved.s_eq, Cpu.stackAddr]
      bv_omega
    have haddr₂ : (0x0102 + cpu₂.s.setWidth 16 : Word) = Cpu.stackAddr (cpu₁.s - 3) := by
      rw [hsaved.s_eq, Cpu.stackAddr]
      bv_omega
    rw [call_mem _ _ (by decide), call_mem _ _ (by decide), hready.arguments, ← hx, ← ha,
      ← hsaved.x_eq, ← hsaved.a_eq, ← haddr₁, ← haddr₂]
    rfl
  · have hlt : k.inKernelAddr.toNat < 0x100 := by
      have := kernelBytes_lt (k := k) (a := k.inKernelAddr) (by simp [kernelBytes])
      omega
    have hnotMem : k.inKernelAddr ∈ (stackBytes cpu₁.s)ᶜ := by
      rintro ⟨i, -, heq⟩
      rw [heq, Cpu.stackAddr_toNat] at hlt
      omega
    rw [call_mem _ _ hlt, hready.inKernel, ← hmem, ← heqOn hnotMem]
    rfl
  · have hs₃ : (cpu₃.call k.retDispatch).s = cpu₃.s - 1 - 1 := rfl
    dsimp only
    rw [hs₃, hsaved₃.s_eq, hs₁]
    bv_omega
  · intro a ha'
    dsimp only at ha' ⊢
    rw [Set.compl_union, ← hs₁] at ha'
    rw [hsaved₃.call_eqOn _ ha'.2, hready.eqOn ha'.1, ← hmem]
    exact heqOn ha'.2

/-- A call leaves the part of the stack that is used. -/
theorem call_stack (cpu : Cpu) (ret : Word) {b : Byte} (h₀ : b ≠ cpu.s) (h₁ : b ≠ cpu.s - 1) :
  (cpu.call ret).mem (Cpu.stackAddr b) = cpu.mem (Cpu.stackAddr b)
  := by
  rw [Cpu.call, Cpu.push, Cpu.push]
  dsimp only
  rw [Memory.store_of_ne, Memory.store_of_ne]
  · rwa [Ne, Cpu.stackAddr_inj]
  · rwa [Ne, Cpu.stackAddr_inj]

/-- The function is called, and the kernel is left after it returns. -/
theorem dispatch_leads {cpu₁ cpu₃ : Cpu} (hs : 7 ≤ cpu₁.s.toNat)
    (hsaved : Saved k.retSyscall cpu₁.flags cpu₁ cpu₃) {f : Word} (hf : cpu₃.mem.word (rc 4) = f)
    (hreturns : ∃ c₂, kernel f (cpu₃.call k.retDispatch, t) c₂)
    (hconforms : ∀ c₂, kernel f (cpu₃.call k.retDispatch, t) c₂ →
      Conforms (cpu₃.call k.retDispatch, t) c₂)
    (hleads : ∀ c₂ cpu'', kernel f (cpu₃.call k.retDispatch, t) c₂ → cpu''.s = cpu₁.s →
      cpu''.a = c₂.1.a → cpu''.x = c₂.1.x → cpu''.i = cpu₁.i → cpu''.d = cpu₁.d →
      cpu''.mem = k.leave c₂.1.mem →
      SysLeads (k.code kernel) (k.afterBrk ++ (k.irqbrk ++ k.brkSyscall kernel), cpu'', c₂.2) Q) :
  SysLeads (k.code kernel) (SysLine.goto (k.code kernel) .brkDispatch, cpu₃.call k.retDispatch, t) Q
  := by
  have hs₃ := hsaved.s_eq
  have hs' : (cpu₃.call k.retDispatch).s = cpu₁.s - 7 := by
    have hcall : (cpu₃.call k.retDispatch).s = cpu₃.s - 1 - 1 := rfl
    rw [hcall, hs₃]
    bv_omega
  have hword : (cpu₃.call k.retDispatch).mem.word (rc 4) = f := by
    rw [← hf, Memory.word, Memory.word, call_mem _ _ (by decide), call_mem _ _ (by decide)]
  have hresume : SysLine.resume (k.code kernel) k.retDispatch
      = some (k.discard ++ k.brkLeave kernel) := by
    rw [resume_code, if_neg k.ret_ne.symm, if_pos rfl]
  rw [goto_brkDispatch]
  apply SysLeads.label
  apply SysLeads.jmpInd cpu₃ hresume
  · rw [hword]
    exact hreturns
  rw [hword]
  intro c₂ hkernel
  have hconf := hconforms c₂ hkernel
  have hcalled := cpu₃.call_called k.retDispatch
  have hstack (b : Byte) (hb : cpu₁.s - 7 < b) :
      c₂.1.mem (Cpu.stackAddr b) = (cpu₃.call k.retDispatch).mem (Cpu.stackAddr b) := by
    rw [← hs'] at hb
    exact hconf.stack b hb
  constructor
  · refine ⟨hconf.s_eq.trans hcalled.s_eq, ?_, ?_⟩
    · rw [hstack _ (by rw [hs₃]; bv_omega), hcalled.low]
    · rw [hstack _ (by rw [hs₃]; bv_omega), hcalled.high]
  · apply leave_leads hs₃ _ hsaved
    · intro cpu''
      exact hleads c₂ cpu'' hkernel
    · intro i hi
      rw [hstack _ (by bv_omega), call_stack]
      · rw [hs₃]
        bv_omega
      · rw [hs₃]
        bv_omega

/-- What a call of `syscall` in the state `c` comes to: a function of the kernel was called, in the state
`c₁`, and has returned in the state `c₂`. -/
structure SystemCall (k : Link) (c c₁ c₂ c' : Cpu × Timer) : Prop where
  entered : k.Entered c c₁
  result : k.Result { c.1 with a := c₂.1.a, x := c₂.1.x, mem := k.leave c₂.1.mem } c'.1
  stack : ∀ b, c.1.s < b → c'.1.mem (Cpu.stackAddr b) = c.1.mem (Cpu.stackAddr b)
  balanced : c₂.1.mem k.inKernelAddr = c₁.1.mem k.inKernelAddr →
    c'.1.mem k.inKernelAddr = c.1.mem k.inKernelAddr
  timer_eq : c'.2 = c₂.2

/-- The result is not stored in the RAM of the kernel. -/
theorem Result.mem_eq (h : k.Result cpu cpu') {a : Word} (ha : a.toNat < 0x1000) :
  cpu'.mem a = cpu.mem a
  := by
  have hlo := k.errno_lo
  have hhi := k.errno_hi
  cases hmsb : cpu.x.msb with
  | false => rw [(h.success hmsb).2.2]
  | true =>
      rw [(h.failure hmsb).2.2, Memory.storeWord_of_ne]
      all_goals bv_omega

/-- The stack of the program is not changed before the function is called. -/
theorem notMem_of_lt {s b : Byte} (hs : 7 ≤ s.toNat) (hb : s < b) :
  Cpu.stackAddr b ∈ (k.kernelBytes ∪ stackBytes s)ᶜ
  := by
  rintro (hmem | ⟨i, hi, heq⟩)
  · exact k.stackAddr_ne_kernelBytes b hmem
  · rw [Cpu.stackAddr_inj] at heq
    bv_omega

end Link

open Link

/-- A memory with the table of the functions. -/
def tableMemory : Memory := fun a =>
  let address := link0400.address (SYSCALL_TABLE.getD ((a - link0400.table).toNat / 2) .sysNotimp)
  if a.getLsbD 0 then address.extractLsb' 8 8 else address.extractLsb' 0 8

theorem hasTable_link0400 : link0400.HasTable tableMemory := by
  have hbytes : ∀ i < 128, tableMemory.word (link0400.table + BitVec.ofNat 16 (2 * i))
      = link0400.address (SYSCALL_TABLE.getD i .sysNotimp) := by
    decide +kernel
  exact hbytes

/-- Functions of which `sys_open` fails with the error 2, and the others return 0. -/
def openFails (addr : Word) (c c' : Cpu × Timer) : Prop :=
  c' = if addr = link0400.address .sysOpen then ({ c.1 with a := 0xFE, x := 0xFF }, c.2)
    else ({ c.1 with a := 0, x := 0 }, c.2)

end Mosnix.Trap
