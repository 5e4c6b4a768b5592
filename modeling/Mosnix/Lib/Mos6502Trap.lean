import Mosnix.Lib.Inevitable
import Mosnix.Lib.Mos6502Io

/-!
# The 6502 with traps and interrupts

A `brk` and an interrupt push the address that execution returns to and the flags, and continue with
the code that handles them; an `rti` returns.  The byte of flags that they push differs in the bit for
`brk` only.

The lines of this module are those of code that handles traps.  Routines elsewhere are called by their
effect, a relation between the states at the start of a routine and at its `rts`, which may leave
several results open.  `SysLeads prog p Q` says that every execution from the position and state `p`
comes to a position and state with the property `Q`.
-/

namespace Mos6502

/-! ### Trapping and returning -/

namespace Cpu

/-- The state after a trap: the address `pc` and the flags `p` are on the stack, and interrupts are
disabled. -/
def trap (cpu : Cpu) (pc : BitVec 16) (p : BitVec 8) : Cpu :=
  { ((cpu.push (pc.extractLsb' 8 8)).push (pc.extractLsb' 0 8)).push p with i := true }

/-- The state after a `brk`, which pushes the flags as `php` does. -/
def brk (cpu : Cpu) (pc : BitVec 16) : Cpu :=
  cpu.trap pc cpu.flags

/-- The state after an interrupt, which pushes the flags with the bit for `brk` clear. -/
def irq (cpu : Cpu) (pc : BitVec 16) : Cpu :=
  cpu.trap pc (cpu.flags &&& 0xEF)

/-- The state `cpu'` has the address and the flags on the stack that a trap in the state `cpu` has
pushed. -/
structure Trapped (cpu : Cpu) (pc : BitVec 16) (p : BitVec 8) (cpu' : Cpu) : Prop where
  s_eq : cpu'.s = cpu.s - 3
  flags_eq : cpu'.mem (stackAddr (cpu.s - 2)) = p
  low : cpu'.mem (stackAddr (cpu.s - 1)) = pc.extractLsb' 0 8
  high : cpu'.mem (stackAddr cpu.s) = pc.extractLsb' 8 8

/-- The bytes of the stack are in page 1. -/
theorem stackAddr_toNat (s : BitVec 8) : (stackAddr s).toNat = 0x100 + s.toNat := by
  rw [stackAddr]
  bv_omega

theorem trap_trapped (cpu : Cpu) (pc : BitVec 16) (p : BitVec 8) :
  cpu.Trapped pc p (cpu.trap pc p)
  := by
  have hs : cpu.s - 1 - 1 = cpu.s - 2 := by bv_omega
  have h₁ : stackAddr (cpu.s - 1) ≠ stackAddr (cpu.s - 2) := by
    rw [Ne, stackAddr_inj]
    bv_omega
  have h₂ : stackAddr cpu.s ≠ stackAddr (cpu.s - 2) := by
    rw [Ne, stackAddr_inj]
    bv_omega
  have h₃ : stackAddr cpu.s ≠ stackAddr (cpu.s - 1) := by
    rw [Ne, stackAddr_inj]
    bv_omega
  constructor
  case s_eq =>
    simp only [trap, push]
    bv_omega
  all_goals
    simp only [trap, push, hs]
  · apply Memory.store_self
  · rw [Memory.store_of_ne h₁, Memory.store_self]
  · rw [Memory.store_of_ne h₂, Memory.store_of_ne h₃, Memory.store_self]

/-- The flags read back from the byte that a trap pushes. -/
theorem setFlags_flags (cpu cpu' : Cpu) :
  cpu'.setFlags cpu.flags
    = { cpu' with n := cpu.n, v := cpu.v, d := cpu.d, i := cpu.i, z := cpu.z, c := cpu.c }
  := by
  obtain ⟨-, -, -, -, n, v, d, i, z, c, -⟩ := cpu
  revert n v d i z c
  simp only [setFlags, flags, mk.injEq, true_and, and_true]
  decide

/-- The flags that an interrupt pushed are restored. -/
theorem setFlags_irq (cpu cpu' : Cpu) :
  cpu'.setFlags (cpu.flags &&& 0xEF)
    = { cpu' with n := cpu.n, v := cpu.v, d := cpu.d, i := cpu.i, z := cpu.z, c := cpu.c }
  := by
  have hmask : cpu'.setFlags (cpu.flags &&& 0xEF) = cpu'.setFlags cpu.flags := by
    simp [setFlags]
  rw [hmask, setFlags_flags]

/-- An `rti` returns to the address that a trap has pushed, with the flags that it has pushed. -/
theorem Trapped.rti_eq {cpu cpu' : Cpu} {pc : BitVec 16} {p : BitVec 8}
    (h : cpu.Trapped pc p cpu') :
  cpu'.rti = (pc, { cpu'.setFlags p with s := cpu.s })
  := by
  have h₁ : cpu'.s + 1 = cpu.s - 2 := by
    rw [h.s_eq]
    bv_omega
  have h₂ : cpu'.s + 2 = cpu.s - 1 := by
    rw [h.s_eq]
    bv_omega
  have h₃ : cpu'.s + 3 = cpu.s := by
    rw [h.s_eq]
    bv_omega
  have hpc : pc.extractLsb' 8 8 ++ pc.extractLsb' 0 8 = pc := by
    apply BitVec.extractLsb'_append_extractLsb'
  rw [rti, h₁, h₂, h₃, h.flags_eq, h.low, h.high, hpc]

end Cpu

/-! ### Routines elsewhere -/

section Routines

variable {L : Type*} [DecidableEq L] {prog : List (Line L)} {l : L}

/-- Execution with a device from a label comes to an `rts` in the state `c'`. -/
def Device.Returns {δ : Type*} (d : Device δ) (prog : List (Line L)) (l : L) (c c' : Cpu × δ) : Prop :=
  ∃ rest, Relation.ReflTransGen (fun p q => d.step prog p = some q) (goto prog l, c) (.rts :: rest, c')

section

variable {δ : Type*} {d : Device δ} {c c' : Cpu × δ} {P : Cpu × δ → Prop}

/-- Execution is deterministic, so that it comes to what it leads to. -/
theorem Device.Leads.inevitably {p : List (Line L) × Cpu × δ}
    {Q : List (Line L) × Cpu × δ → Prop} (h : d.Leads prog p Q) :
  Inevitably (fun p q => d.step prog p = some q) Q p
  := by
  obtain ⟨q, hrun, hQ⟩ := h
  induction hrun using Relation.ReflTransGen.head_induction_on with
  | refl => apply Inevitably.done hQ
  | head hstep _ ih =>
      refine Inevitably.later ⟨_, hstep⟩ ?_
      intro r hr
      obtain rfl := Option.some.inj (hr.symm.trans hstep)
      exact ih

/-- A routine without calls returns only in the state that execution leads to. -/
theorem Device.Returns.spec (hreturns : d.Returns prog l c c') (hcalls : ∀ a, resume prog a = none)
    (h : d.Leads prog (goto prog l, c) fun q => q.1.head? = some .rts ∧ P q.2) :
  P c'
  := by
  have hend (q : List (Line L) × Cpu × δ) (hq : q.1.head? = some .rts) : d.step prog q = none := by
    obtain ⟨_ | ⟨line, lines⟩, _⟩ := q
    · cases hq
    · cases hq
      simp only [Device.step, hcalls, Option.map_none]
  obtain ⟨rest, hrun⟩ := hreturns
  refine (h.inevitably.of_end ?_ hrun ?_).2
  · intro q r hq hstep
    rw [hend q hq.1] at hstep
    cases hstep
  · intro r hstep
    rw [hend _ rfl] at hstep
    cases hstep

/-- A routine returns if execution leads to an `rts`. -/
theorem Device.Leads.returns
    (h : d.Leads prog (goto prog l, c) fun q => q.1.head? = some .rts ∧ P q.2) :
  ∃ c', d.Returns prog l c c' ∧ P c'
  := by
  obtain ⟨⟨_ | ⟨line, lines⟩, c'⟩, hrun, hrts, hP⟩ := h
  · cases hrts
  · cases hrts
    exact ⟨c', ⟨lines, hrun⟩, hP⟩

end

/-- An instruction that keeps `Y` and the stack pointer. -/
def Op.Quiet (o : Op) : Prop :=
  ∀ cpu, (o.exec cpu).y = cpu.y ∧ (o.exec cpu).s = cpu.s

/-- A routine of instructions that keep `Y` and the stack pointer.  The position stays a part of the
program, so that the next instruction is one of it. -/
theorem Returns.quiet {cpu cpu' : Cpu} (hreturns : Returns prog l cpu cpu')
    (hquiet : ∀ o, .op o ∈ prog → o.Quiet) :
  cpu'.y = cpu.y ∧ cpu'.s = cpu.s
  := by
  have hrun {p q : List (Line L) × Cpu}
      (h : Relation.ReflTransGen (fun p q => step prog p = some q) p q) (hp : p.1 <:+ prog) :
      q.1 <:+ prog ∧ q.2.y = p.2.y ∧ q.2.s = p.2.s := by
    induction h with
    | refl => exact ⟨hp, rfl, rfl⟩
    | @tail q r _ hstep ih =>
        obtain ⟨hsuffix, hy, hs⟩ := ih
        obtain ⟨_ | ⟨line, lines⟩, cpu₁⟩ := q
        · cases hstep
        · have hrest : lines <:+ prog := (List.suffix_cons _ _).trans hsuffix
          cases line with
          | label l => cases hstep; exact ⟨hrest, hy, hs⟩
          | op o =>
              cases hstep
              obtain ⟨hy', hs'⟩ := hquiet o (hsuffix.mem List.mem_cons_self) cpu₁
              exact ⟨hrest, hy'.trans hy, hs'.trans hs⟩
          | branch cond l =>
              cases hstep
              refine ⟨?_, hy, hs⟩
              dsimp only
              split_ifs
              · apply List.dropWhile_suffix
              · exact hrest
          | jsr ret l => cases hstep
          | rts => cases hstep
          | rti => cases hstep
  obtain ⟨rest, h⟩ := hreturns
  exact (hrun h (List.dropWhile_suffix _)).2

end Routines

/-! ### Instructions -/

/-- Instructions that code around a trap uses beside the others. -/
inductive SysOp where
  | cld | ply | aslA | eor (m : Mode)

/-- The effect of an instruction. -/
def SysOp.exec (cpu : Cpu) : SysOp → Cpu
  | .cld => { cpu with d := false }
  | .ply => { cpu with y := cpu.top, s := cpu.s + 1 }.setNZ cpu.top
  | .aslA => { cpu with a := rotate cpu.a false, c := cpu.a.msb }.setNZ (rotate cpu.a false)
  | .eor m => { cpu with a := cpu.a ^^^ m.read cpu }.setNZ (cpu.a ^^^ m.read cpu)

/-- The lines of a program with labels in `L`, for states `σ`.  A `jsr`, a `call` and a `brk` have the
address that they return to.  A `call` is a `jsr` to a routine elsewhere, and `jmpInd a R` a jump to
the routine whose address is in memory at `a`; a `brk` has the label of the code that handles it. -/
inductive SysLine (L : Type*) (σ : Type*) where
  | label (l : L)
  | op (o : Op)
  | sys (o : SysOp)
  | branch (c : Cond) (l : L)
  | jmp (l : L)
  | jsr (ret : BitVec 16) (l : L)
  | call (ret : BitVec 16) (R : σ → σ → Prop)
  | jmpInd (a : BitVec 16) (R : BitVec 16 → σ → σ → Prop)
  | brk (ret : BitVec 16) (l : L)
  | rts
  | rti

namespace SysLine

variable {L σ : Type*}

/-- The part of the program that starts with a label. -/
def goto [DecidableEq L] (prog : List (SysLine L σ)) (l : L) : List (SysLine L σ) :=
  prog.dropWhile fun line =>
    match line with
    | .label l' => l' ≠ l
    | _ => true

/-- The code after the line that returns to an address. -/
def resume : List (SysLine L σ) → BitVec 16 → Option (List (SysLine L σ))
  | [], _ => none
  | .jsr ret _ :: rest, a => if ret = a then some rest else resume rest a
  | .brk ret _ :: rest, a => if ret = a then some rest else resume rest a
  | _ :: rest, a => resume rest a

end SysLine

/-! ### Execution -/

variable {L δ : Type*} [DecidableEq L]

/-- One step of execution, from a position and a state. -/
inductive SysStep (prog : List (SysLine L (Cpu × δ))) :
    List (SysLine L (Cpu × δ)) × Cpu × δ → List (SysLine L (Cpu × δ)) × Cpu × δ → Prop where
  | label {l rest c} : SysStep prog (.label l :: rest, c) (rest, c)
  | op {o rest c} : SysStep prog (.op o :: rest, c) (rest, o.exec c.1, c.2)
  | sys {o rest c} : SysStep prog (.sys o :: rest, c) (rest, o.exec c.1, c.2)
  | branch {cond l rest c} : cond.holds c.1 = true →
      SysStep prog (.branch cond l :: rest, c) (SysLine.goto prog l, c)
  | noBranch {cond l rest c} : cond.holds c.1 = false →
      SysStep prog (.branch cond l :: rest, c) (rest, c)
  | jmp {l rest c} : SysStep prog (.jmp l :: rest, c) (SysLine.goto prog l, c)
  | jsr {ret l rest c} :
      SysStep prog (.jsr ret l :: rest, c) (SysLine.goto prog l, c.1.call ret, c.2)
  | call {ret R rest c c'} : R (c.1.call ret, c.2) c' → c'.1.rts.1 = ret →
      SysStep prog (.call ret R :: rest, c) (rest, c'.1.rts.2, c'.2)
  | jmpInd {a R rest c c' r} : R (c.1.mem.word a) c c' → SysLine.resume prog c'.1.rts.1 = some r →
      SysStep prog (.jmpInd a R :: rest, c) (r, c'.1.rts.2, c'.2)
  | brk {ret l rest c} : SysStep prog (.brk ret l :: rest, c) (SysLine.goto prog l, c.1.brk ret, c.2)
  | rts {rest c r} : SysLine.resume prog c.1.rts.1 = some r →
      SysStep prog (.rts :: rest, c) (r, c.1.rts.2, c.2)
  | rti {rest c r} : SysLine.resume prog c.1.rti.1 = some r →
      SysStep prog (.rti :: rest, c) (r, c.1.rti.2, c.2)

/-- Every execution comes to a position and a state with the property `Q`. -/
def SysLeads (prog : List (SysLine L (Cpu × δ))) (p : List (SysLine L (Cpu × δ)) × Cpu × δ)
    (Q : List (SysLine L (Cpu × δ)) × Cpu × δ → Prop) : Prop :=
  Inevitably (SysStep prog) Q p

namespace SysLeads

variable {prog rest : List (SysLine L (Cpu × δ))} {p : List (SysLine L (Cpu × δ)) × Cpu × δ}
  {c : Cpu × δ} {o : Op} {l : L} {cond : Cond} {ret : BitVec 16}
  {P Q : List (SysLine L (Cpu × δ)) × Cpu × δ → Prop}

theorem refl (h : Q p) : SysLeads prog p Q :=
  Inevitably.done h

/-- Executions in sequence. -/
theorem trans (h : SysLeads prog p P) (hPQ : ∀ q, P q → SysLeads prog q Q) : SysLeads prog p Q :=
  Inevitably.trans h hPQ

theorem label (h : SysLeads prog (rest, c) Q) : SysLeads prog (.label l :: rest, c) Q := by
  apply Inevitably.next .label _ h
  rintro _ ⟨⟩
  rfl

theorem op (h : SysLeads prog (rest, o.exec c.1, c.2) Q) : SysLeads prog (.op o :: rest, c) Q := by
  apply Inevitably.next .op _ h
  rintro _ ⟨⟩
  rfl

/-- Instructions one after the other. -/
theorem ops (ops : List Op) (h : SysLeads prog (rest, run ops c.1, c.2) Q) :
  SysLeads prog (ops.map .op ++ rest, c) Q
  := by
  induction ops generalizing c with
  | nil => exact h
  | cons o ops ih =>
      apply op
      exact @ih (o.exec c.1, c.2) h

theorem sys {o : SysOp} (h : SysLeads prog (rest, o.exec c.1, c.2) Q) :
  SysLeads prog (.sys o :: rest, c) Q
  := by
  apply Inevitably.next .sys _ h
  rintro _ ⟨⟩
  rfl

/-- A branch that is taken. -/
theorem branch (hcond : cond.holds c.1 = true) (h : SysLeads prog (SysLine.goto prog l, c) Q) :
  SysLeads prog (.branch cond l :: rest, c) Q
  := by
  apply Inevitably.next (.branch hcond) _ h
  intro q hq
  cases hq with
  | branch => rfl
  | noBranch hcond' =>
      rw [hcond] at hcond'
      cases hcond'

/-- A branch that is not taken. -/
theorem noBranch (hcond : cond.holds c.1 = false) (h : SysLeads prog (rest, c) Q) :
  SysLeads prog (.branch cond l :: rest, c) Q
  := by
  apply Inevitably.next (.noBranch hcond) _ h
  intro q hq
  cases hq with
  | branch hcond' =>
      rw [hcond] at hcond'
      cases hcond'
  | noBranch => rfl

theorem jmp (h : SysLeads prog (SysLine.goto prog l, c) Q) : SysLeads prog (.jmp l :: rest, c) Q := by
  apply Inevitably.next .jmp _ h
  rintro _ ⟨⟩
  rfl

theorem jsr (h : SysLeads prog (SysLine.goto prog l, c.1.call ret, c.2) Q) :
  SysLeads prog (.jsr ret l :: rest, c) Q
  := by
  apply Inevitably.next .jsr _ h
  rintro _ ⟨⟩
  rfl

/-- A system call enters the handler of interrupts. -/
theorem brk (h : SysLeads prog (SysLine.goto prog l, c.1.brk ret, c.2) Q) :
  SysLeads prog (.brk ret l :: rest, c) Q
  := by
  apply Inevitably.next .brk _ h
  rintro _ ⟨⟩
  rfl

/-- A call of a routine that returns, with the return address on the stack as it was pushed. -/
theorem call {R : Cpu × δ → Cpu × δ → Prop} (hreturns : ∃ c', R (c.1.call ret, c.2) c')
    (hR : ∀ c', R (c.1.call ret, c.2) c' →
      c.1.Called ret c'.1 ∧ SysLeads prog (rest, { c'.1 with s := c.1.s }, c'.2) Q) :
  SysLeads prog (.call ret R :: rest, c) Q
  := by
  apply Inevitably.later
  · obtain ⟨c', hc'⟩ := hreturns
    have hrts := (hR c' hc').1.rts_eq
    exact ⟨_, .call hc' (by rw [hrts])⟩
  · intro q hq
    cases hq with
    | call hc' _ =>
        obtain ⟨hcalled, h⟩ := hR _ hc'
        rw [hcalled.rts_eq]
        exact h

/-- A jump to a routine that returns to the `jsr` in the state `cpu₀`. -/
theorem jmpInd {a : BitVec 16} {R : BitVec 16 → Cpu × δ → Cpu × δ → Prop} (cpu₀ : Cpu)
    {r : List (SysLine L (Cpu × δ))} (hresume : SysLine.resume prog ret = some r)
    (hreturns : ∃ c', R (c.1.mem.word a) c c')
    (hR : ∀ c', R (c.1.mem.word a) c c' →
      cpu₀.Called ret c'.1 ∧ SysLeads prog (r, { c'.1 with s := cpu₀.s }, c'.2) Q) :
  SysLeads prog (.jmpInd a R :: rest, c) Q
  := by
  apply Inevitably.later
  · obtain ⟨c', hc'⟩ := hreturns
    have hrts := (hR c' hc').1.rts_eq
    exact ⟨_, .jmpInd hc' (by rw [hrts]; exact hresume)⟩
  · intro q hq
    cases hq with
    | jmpInd hc' hresume' =>
        obtain ⟨hcalled, h⟩ := hR _ hc'
        rw [hcalled.rts_eq] at hresume' ⊢
        obtain rfl := Option.some.inj (hresume.symm.trans hresume')
        exact h

/-- A return from a `brk` of the program. -/
theorem rti {cpu₀ : Cpu} {r : List (SysLine L (Cpu × δ))}
    (hresume : SysLine.resume prog ret = some r) {flags : BitVec 8}
    (htrapped : cpu₀.Trapped ret flags c.1)
    (h : SysLeads prog (r, { c.1.setFlags flags with s := cpu₀.s }, c.2) Q) :
  SysLeads prog (.rti :: rest, c) Q
  := by
  have hrti := htrapped.rti_eq
  have hresume' : SysLine.resume prog c.1.rti.1 = some r := by
    rw [hrti]
    exact hresume
  have hstep : SysStep prog (.rti :: rest, c) (r, c.1.rti.2, c.2) := .rti hresume'
  rw [hrti] at hstep
  apply Inevitably.next hstep _ h
  intro q hq
  cases hq with
  | rti hq =>
      obtain rfl := Option.some.inj (hresume'.symm.trans hq)
      rw [hrti]

end SysLeads

end Mos6502
