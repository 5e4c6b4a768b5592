import Mosnix.Lib.Memory
import Mathlib.Logic.Relation

/-!
# The 6502

The programmer's model of the 6502 in binary mode, for the instructions that the programs verified
with it use; some of these are instructions of the 65C02.  A program is a list of labels and
instructions.  The position in a program is the
list of the instructions that remain, so that execution falls through labels, and a branch
continues at the part of the program that starts with its label.

`Leads prog p Q` says that execution from the position and state `p` reaches a position and state
with the property `Q`.  The rules of this module cover one instruction at a time, and sequences of
executions.  Calls of subroutines are covered in `Mos6502Io`.
-/

namespace Mos6502

/-! ### The state -/

/-- The registers, the flags and the memory. -/
structure Cpu where
  a : BitVec 8
  x : BitVec 8
  y : BitVec 8
  s : BitVec 8
  n : Bool
  v : Bool
  d : Bool
  i : Bool
  z : Bool
  c : Bool
  mem : Memory

namespace Cpu

/-- A processor with the memory `m` and an empty stack. -/
def ofMemory (m : Memory) : Cpu where
  a := 0
  x := 0
  y := 0
  s := 0xFF
  n := false
  v := false
  d := false
  i := false
  z := false
  c := false
  mem := m

/-- The address of the top of the stack when the stack pointer is `s`. -/
def stackAddr (s : BitVec 8) : BitVec 16 :=
  0x0100 + s.setWidth 16

theorem stackAddr_inj {s s' : BitVec 8} : stackAddr s = stackAddr s' ↔ s = s' := by
  rw [stackAddr, stackAddr]
  bv_omega

/-- The byte `b` pushed on the stack. -/
def push (cpu : Cpu) (b : BitVec 8) : Cpu :=
  { cpu with mem := cpu.mem.store (stackAddr cpu.s) b, s := cpu.s - 1 }

/-- The byte at the top of the stack. -/
def top (cpu : Cpu) : BitVec 8 :=
  cpu.mem (stackAddr (cpu.s + 1))

/-- The flags as the byte that `php` pushes. -/
def flags (cpu : Cpu) : BitVec 8 :=
  BitVec.ofBool cpu.n ++ BitVec.ofBool cpu.v ++ 0b11#2 ++ BitVec.ofBool cpu.d
    ++ BitVec.ofBool cpu.i ++ BitVec.ofBool cpu.z ++ BitVec.ofBool cpu.c

/-- The flags set from a byte. -/
def setFlags (cpu : Cpu) (p : BitVec 8) : Cpu :=
  { cpu with
    n := p.getLsbD 7
    v := p.getLsbD 6
    d := p.getLsbD 3
    i := p.getLsbD 2
    z := p.getLsbD 1
    c := p.getLsbD 0 }

/-- The sign and zero flags set for the result `r`. -/
def setNZ (cpu : Cpu) (r : BitVec 8) : Cpu :=
  { cpu with n := r.msb, z := r == 0 }

/-- The flags set for the comparison of a register that holds `r` with `b`. -/
def compare (cpu : Cpu) (r b : BitVec 8) : Cpu :=
  { cpu.setNZ (r - b) with c := decide (b ≤ r) }

/-- Return from an interrupt: the address that execution returns to, and the state. -/
def rti (cpu : Cpu) : BitVec 16 × Cpu :=
  let p := cpu.mem (stackAddr (cpu.s + 1))
  let lo := cpu.mem (stackAddr (cpu.s + 2))
  let hi := cpu.mem (stackAddr (cpu.s + 3))
  (hi ++ lo, { cpu.setFlags p with s := cpu.s + 3 })

/-- Return from a subroutine: the address that execution returns to, and the state. -/
def rts (cpu : Cpu) : BitVec 16 × Cpu :=
  let lo := cpu.mem (stackAddr (cpu.s + 1))
  let hi := cpu.mem (stackAddr (cpu.s + 2))
  ((hi ++ lo) + 1, { cpu with s := cpu.s + 2 })

end Cpu

/-! ### Instructions -/

/-- The addressing modes. -/
inductive Mode where
  | imm (b : BitVec 8)
  | abs (addr : BitVec 16)
  | absX (addr : BitVec 16)
  | absY (addr : BitVec 16)
  | zpX (addr : BitVec 8)
  | indY (addr : BitVec 8)

/-- The address of an operand in memory. -/
def Mode.addr (cpu : Cpu) : Mode → BitVec 16
  | .imm _ => 0
  | .abs addr => addr
  | .absX addr => addr + cpu.x.setWidth 16
  | .absY addr => addr + cpu.y.setWidth 16
  | .zpX addr => (addr + cpu.x).setWidth 16
  | .indY addr =>
      (cpu.mem ((addr + 1).setWidth 16) ++ cpu.mem (addr.setWidth 16)) + cpu.y.setWidth 16

/-- The value of an operand. -/
def Mode.read (cpu : Cpu) : Mode → BitVec 8
  | .imm b => b
  | m => cpu.mem (m.addr cpu)

/-- The instructions that execution continues after. -/
inductive Op where
  | lda (m : Mode) | ldx (m : Mode) | ldy (m : Mode)
  | sta (m : Mode) | stz (m : Mode)
  | tax | tay | txa | tya | tsx | txs
  | inx | iny | dex | dey
  | inc (m : Mode) | dec (m : Mode)
  | clc | sec | adc (m : Mode) | sbc (m : Mode) | and (m : Mode) | ora (m : Mode)
  | asl (m : Mode) | rol (m : Mode) | rolA
  | cmp (m : Mode) | cpx (m : Mode) | cpy (m : Mode)
  | bit (m : Mode) | tsb (m : Mode) | trb (m : Mode)
  | pha | php | phx | pla | plx
  | sei | cli

/-- A byte shifted left by one bit, with a carry as its new low bit. -/
def rotate (b : BitVec 8) (c : Bool) : BitVec 8 :=
  b <<< 1 ||| (BitVec.ofBool c).setWidth 8

/-- The effect of an instruction.  A subtraction adds the complement, and sets the carry if it does not
borrow. -/
def Op.exec (cpu : Cpu) : Op → Cpu
  | .lda m => { cpu with a := m.read cpu }.setNZ (m.read cpu)
  | .ldx m => { cpu with x := m.read cpu }.setNZ (m.read cpu)
  | .ldy m => { cpu with y := m.read cpu }.setNZ (m.read cpu)
  | .sta m => { cpu with mem := cpu.mem.store (m.addr cpu) cpu.a }
  | .stz m => { cpu with mem := cpu.mem.store (m.addr cpu) 0 }
  | .tax => { cpu with x := cpu.a }.setNZ cpu.a
  | .tay => { cpu with y := cpu.a }.setNZ cpu.a
  | .txa => { cpu with a := cpu.x }.setNZ cpu.x
  | .tya => { cpu with a := cpu.y }.setNZ cpu.y
  | .tsx => { cpu with x := cpu.s }.setNZ cpu.s
  | .txs => { cpu with s := cpu.x }
  | .inx => { cpu with x := cpu.x + 1 }.setNZ (cpu.x + 1)
  | .iny => { cpu with y := cpu.y + 1 }.setNZ (cpu.y + 1)
  | .dex => { cpu with x := cpu.x - 1 }.setNZ (cpu.x - 1)
  | .dey => { cpu with y := cpu.y - 1 }.setNZ (cpu.y - 1)
  | .inc m =>
      { cpu with mem := cpu.mem.store (m.addr cpu) (m.read cpu + 1) }.setNZ (m.read cpu + 1)
  | .dec m =>
      { cpu with mem := cpu.mem.store (m.addr cpu) (m.read cpu - 1) }.setNZ (m.read cpu - 1)
  | .clc => { cpu with c := false }
  | .sec => { cpu with c := true }
  | .adc m =>
      let sum := cpu.a.setWidth 9 + (m.read cpu).setWidth 9 + (BitVec.ofBool cpu.c).setWidth 9
      let r := sum.setWidth 8
      { cpu with
        a := r
        c := sum.msb
        v := (cpu.a.msb == (m.read cpu).msb) && (r.msb != cpu.a.msb) }.setNZ r
  | .sbc m =>
      let sum := cpu.a.setWidth 9 + (~~~ m.read cpu).setWidth 9 + (BitVec.ofBool cpu.c).setWidth 9
      let r := sum.setWidth 8
      { cpu with
        a := r
        c := sum.msb
        v := (cpu.a.msb != (m.read cpu).msb) && (r.msb != cpu.a.msb) }.setNZ r
  | .and m => { cpu with a := cpu.a &&& m.read cpu }.setNZ (cpu.a &&& m.read cpu)
  | .ora m => { cpu with a := cpu.a ||| m.read cpu }.setNZ (cpu.a ||| m.read cpu)
  | .asl m =>
      { cpu with
        mem := cpu.mem.store (m.addr cpu) (rotate (m.read cpu) false)
        c := (m.read cpu).msb }.setNZ (rotate (m.read cpu) false)
  | .rol m =>
      { cpu with
        mem := cpu.mem.store (m.addr cpu) (rotate (m.read cpu) cpu.c)
        c := (m.read cpu).msb }.setNZ (rotate (m.read cpu) cpu.c)
  | .rolA => { cpu with a := rotate cpu.a cpu.c, c := cpu.a.msb }.setNZ (rotate cpu.a cpu.c)
  | .cmp m => cpu.compare cpu.a (m.read cpu)
  | .cpx m => cpu.compare cpu.x (m.read cpu)
  | .cpy m => cpu.compare cpu.y (m.read cpu)
  | .bit m =>
      { cpu with
        n := (m.read cpu).msb
        v := (m.read cpu).getLsbD 6
        z := cpu.a &&& m.read cpu == 0 }
  | .tsb m =>
      { cpu with
        mem := cpu.mem.store (m.addr cpu) (m.read cpu ||| cpu.a)
        z := cpu.a &&& m.read cpu == 0 }
  | .trb m =>
      { cpu with
        mem := cpu.mem.store (m.addr cpu) (m.read cpu &&& ~~~ cpu.a)
        z := cpu.a &&& m.read cpu == 0 }
  | .pha => cpu.push cpu.a
  | .php => cpu.push cpu.flags
  | .phx => cpu.push cpu.x
  | .pla => { cpu with a := cpu.top, s := cpu.s + 1 }.setNZ cpu.top
  | .plx => { cpu with x := cpu.top, s := cpu.s + 1 }.setNZ cpu.top
  | .sei => { cpu with i := true }
  | .cli => { cpu with i := false }

/-- An addition with the carry clear. -/
theorem Op.adc_a {cpu : Cpu} (m : Mode) (hc : cpu.c = false) :
  ((Op.adc m).exec cpu).a = cpu.a + m.read cpu
  := by
  simp only [Op.exec, Cpu.setNZ, hc, BitVec.ofBool_false]
  bv_omega

/-- The conditions of the branches. -/
inductive Cond where
  | eq | ne | cs | cc | pl | vc

/-- A condition holds. -/
def Cond.holds (cpu : Cpu) : Cond → Bool
  | .eq => cpu.z
  | .ne => ! cpu.z
  | .cs => cpu.c
  | .cc => ! cpu.c
  | .pl => ! cpu.n
  | .vc => ! cpu.v

/-- The branch on a result that is not 0. -/
theorem Cond.holds_ne {cpu : Cpu} {r : BitVec 8} (hz : cpu.z = (r == 0)) (hr : r ≠ 0) :
  Cond.ne.holds cpu = true
  := by
  rw [Cond.holds, hz, beq_eq_false_iff_ne.mpr hr, Bool.not_false]

/-- The branch on a result that is not 0 is not taken if it is 0. -/
theorem Cond.not_holds_ne {cpu : Cpu} {r : BitVec 8} (hz : cpu.z = (r == 0)) (hr : r = 0) :
  Cond.ne.holds cpu = false
  := by
  rw [Cond.holds, hz, beq_iff_eq.mpr hr, Bool.not_true]

/-- The lines of a program with labels in `L`.  A `jsr` has the address that its subroutine returns
to. -/
inductive Line (L : Type*) where
  | label (l : L)
  | op (o : Op)
  | branch (c : Cond) (l : L)
  | jsr (ret : BitVec 16) (l : L)
  | rts
  | rti

/-! ### Execution -/

variable {L : Type*} [DecidableEq L] {prog rest : List (Line L)} {cpu : Cpu} {o : Op} {l : L}
  {c : Cond}

/-- The part of the program that starts with a label. -/
def goto (prog : List (Line L)) (l : L) : List (Line L) :=
  prog.dropWhile fun line =>
    match line with
    | .label l' => l' ≠ l
    | _ => true

/-- One step of execution, from a position and a state. -/
def step (prog : List (Line L)) : List (Line L) × Cpu → Option (List (Line L) × Cpu)
  | (.label _ :: rest, cpu) => some (rest, cpu)
  | (.op o :: rest, cpu) => some (rest, o.exec cpu)
  | (.branch c l :: rest, cpu) => some (if c.holds cpu then goto prog l else rest, cpu)
  | _ => none

/-- Execution leads to a position and a state with the property `Q`. -/
def Leads (prog : List (Line L)) (p : List (Line L) × Cpu)
    (Q : List (Line L) × Cpu → Prop) : Prop :=
  ∃ q, Relation.ReflTransGen (fun p q => step prog p = some q) p q ∧ Q q

namespace Leads

variable {p : List (Line L) × Cpu} {P Q : List (Line L) × Cpu → Prop}

theorem refl (h : Q p) : Leads prog p Q :=
  ⟨p, Relation.ReflTransGen.refl, h⟩

/-- Execution after one step. -/
theorem head {q : List (Line L) × Cpu} (hstep : step prog p = some q) (h : Leads prog q Q) :
  Leads prog p Q
  := by
  obtain ⟨r, hr, hQ⟩ := h
  exact ⟨r, Relation.ReflTransGen.head hstep hr, hQ⟩

/-- Executions in sequence. -/
theorem trans (h : Leads prog p P) (hPQ : ∀ q, P q → Leads prog q Q) : Leads prog p Q := by
  obtain ⟨q, hq, hP⟩ := h
  obtain ⟨r, hr, hQ⟩ := hPQ q hP
  exact ⟨r, hq.trans hr, hQ⟩

/-- Execution comes to one end only. -/
theorem of_end (h : Leads prog p Q) (hQ : ∀ q, Q q → step prog q = none)
    {q : List (Line L) × Cpu} (hq : Relation.ReflTransGen (fun p q => step prog p = some q) p q)
    (hend : step prog q = none) :
  Q q
  := by
  obtain ⟨r, hr, hQr⟩ := h
  have hunique : Relator.RightUnique fun p q => step prog p = some q := by
    intro p q q' hq hq'
    exact Option.some.inj (hq.symm.trans hq')
  have hstop {x y : List (Line L) × Cpu} (hx : step prog x = none)
      (hxy : Relation.ReflTransGen (fun p q => step prog p = some q) x y) : x = y := by
    obtain rfl | ⟨z, hz, -⟩ := hxy.cases_head
    · rfl
    · rw [hx] at hz
      cases hz
  obtain hrq | hqr := Relation.ReflTransGen.total_of_right_unique hunique hr hq
  · rw [← hstop (hQ r hQr) hrq]
    exact hQr
  · rw [hstop hend hqr]
    exact hQr

theorem label (h : Leads prog (rest, cpu) Q) : Leads prog (.label l :: rest, cpu) Q :=
  head rfl h

theorem op (h : Leads prog (rest, o.exec cpu) Q) : Leads prog (.op o :: rest, cpu) Q :=
  head rfl h

/-- A branch that is taken. -/
theorem branch (hc : c.holds cpu = true) (h : Leads prog (goto prog l, cpu) Q) :
  Leads prog (.branch c l :: rest, cpu) Q
  := by
  apply head _ h
  simp [step, hc]

/-- A branch that is not taken. -/
theorem noBranch (hc : c.holds cpu = false) (h : Leads prog (rest, cpu) Q) :
  Leads prog (.branch c l :: rest, cpu) Q
  := by
  apply head _ h
  simp [step, hc]

end Leads

/-! ### Returning from a subroutine -/

/-- Execution is at an `rts`, in a state with the property `P`. -/
def AtRts (P : Cpu → Prop) (q : List (Line L) × Cpu) : Prop :=
  q.1.head? = some .rts ∧ P q.2

/-- Execution stops at the end of a subroutine. -/
theorem AtRts.step_eq_none {P : Cpu → Prop} {q : List (Line L) × Cpu} (h : AtRts P q) :
  step prog q = none
  := by
  obtain ⟨_ | ⟨line, lines⟩, _⟩ := q
  · cases h.1
  · cases h.1
    rfl

/-- Execution from a label comes to an `rts` in the state `cpu'`. -/
def Returns (prog : List (Line L)) (l : L) (cpu cpu' : Cpu) : Prop :=
  ∃ rest, Relation.ReflTransGen (fun p q => step prog p = some q) (goto prog l, cpu)
    (.rts :: rest, cpu')

section Returns

variable {cpu' : Cpu} {P : Cpu → Prop}

/-- A routine returns only in the state that execution leads to. -/
theorem Returns.spec (hreturns : Returns prog l cpu cpu')
    (h : Leads prog (goto prog l, cpu) (AtRts P)) :
  P cpu'
  := by
  obtain ⟨rest, hrun⟩ := hreturns
  exact (h.of_end (fun _ hq => hq.step_eq_none) hrun rfl).2

/-- A routine returns if execution leads to an `rts`. -/
theorem Leads.returns (h : Leads prog (goto prog l, cpu) (AtRts P)) :
  ∃ cpu', Returns prog l cpu cpu' ∧ P cpu'
  := by
  obtain ⟨⟨_ | ⟨line, lines⟩, cpu'⟩, hrun, hrts, hP⟩ := h
  · cases hrts
  · cases hrts
    exact ⟨cpu', ⟨lines, hrun⟩, hP⟩

end Returns

/-! ### Copying bytes in a loop -/

/-- A loop that copies bytes while `Y` is less than `n`, from the operand `m₁` to the operand
`m₂`. -/
def copyLoop (l l' : L) (n : BitVec 8) (m₁ m₂ : Mode) : List (Line L) :=
  [ .label l,
    .op (.cpy (.imm n)),
    .branch .cs l',
    .op (.lda m₁),
    .op (.sta m₂),
    .op .iny,
    .branch .ne l ]

section CopyLoop

variable {l' : L} {n : BitVec 8} {m₁ m₂ : Mode} {src dst : ℕ → BitVec 16} {I : Memory → Prop}
  {Q : List (Line L) × Cpu → Prop}

/-- One round of a loop that copies bytes. -/
theorem copyLoop_round (hread : ∀ cpu : Cpu, I cpu.mem → m₁.read cpu = cpu.mem (src cpu.y.toNat))
    (haddr : ∀ cpu : Cpu, I cpu.mem → m₂.addr cpu = dst cpu.y.toNat)
    (hI : I cpu.mem) (hy : cpu.y < n)
    (hQ : ∀ cpu' : Cpu, cpu'.y = cpu.y + 1 → cpu'.s = cpu.s →
      cpu'.mem = cpu.mem.store (dst cpu.y.toNat) (cpu.mem (src cpu.y.toNat)) →
      Leads prog (goto prog l, cpu') Q) :
  Leads prog (copyLoop l l' n m₁ m₂ ++ rest, cpu) Q
  := by
  apply Leads.label
  apply Leads.op
  apply Leads.noBranch
  · apply decide_eq_false
    simp only [Mode.read]
    bv_omega
  apply Leads.op
  apply Leads.op
  apply Leads.op
  apply Leads.branch
  · simp only [Cond.holds, Op.exec, Cpu.compare, Cpu.setNZ, Bool.not_eq_true', beq_eq_false_iff_ne]
    bv_omega
  apply hQ
  · rfl
  · rfl
  · apply congrArg₂ (Memory.store cpu.mem)
    · apply haddr _ hI
    · apply hread _ hI

/-- A loop that copies bytes to other addresses, and keeps what the operands depend on. -/
theorem copyLoop_leads (hgoto : goto prog l = copyLoop l l' n m₁ m₂ ++ rest)
    (hread : ∀ cpu : Cpu, I cpu.mem → m₁.read cpu = cpu.mem (src cpu.y.toNat))
    (haddr : ∀ cpu : Cpu, I cpu.mem → m₂.addr cpu = dst cpu.y.toNat)
    (hstore : ∀ m i b, i < n.toNat → I m → I (m.store (dst i) b))
    (hsrc : ∀ i j, i < n.toNat → j < n.toNat → src i ≠ dst j)
    (hdst : ∀ i j, i < n.toNat → j < n.toNat → i ≠ j → dst i ≠ dst j)
    (hI : I cpu.mem) (hy : cpu.y ≤ n) :
  Leads prog (goto prog l, cpu) fun q =>
    q.1 = goto prog l' ∧ q.2.y = n ∧ q.2.s = cpu.s
      ∧ Memory.Copied cpu.mem q.2.mem src dst cpu.y.toNat n.toNat
  := by
  obtain ⟨k, hk⟩ := Nat.exists_eq_add_of_le (show cpu.y.toNat ≤ n.toNat from hy)
  induction k generalizing cpu with
  | zero =>
      have hn : cpu.y = n := by bv_omega
      rw [hgoto]
      apply Leads.label
      apply Leads.op
      apply Leads.branch
      · simp [Cond.holds, Op.exec, Cpu.compare, Mode.read, hn]
      · apply Leads.refl
        refine ⟨rfl, hn, rfl, ?_⟩
        rw [hn]
        apply Memory.Copied.refl
  | succ k ih =>
      have hlt : cpu.y.toNat < n.toNat := by omega
      rw [hgoto]
      apply copyLoop_round hread haddr hI hlt
      intro cpu' hy' hs' hmem'
      have hsucc : cpu'.y.toNat = cpu.y.toNat + 1 := by
        rw [hy']
        bv_omega
      have hI' : I cpu'.mem := hmem' ▸ hstore _ _ _ hlt hI
      apply (ih hI' (by bv_omega) (by omega)).trans
      rintro q ⟨hq, hqy, hqs, hcopied⟩
      apply Leads.refl
      refine ⟨hq, hqy, hqs.trans hs', ?_⟩
      rw [hmem', hsucc] at hcopied
      apply hcopied.cons hlt
      · intro i _ hi
        apply hsrc i _ hi hlt
      · intro i hi hi'
        apply hdst i _ hi' hlt (by omega)

end CopyLoop

end Mos6502
