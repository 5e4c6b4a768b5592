import Mosnix.Lib.Mos6502Trap

/-!
# Programs that are interrupted

A program runs while interrupts change the memory between its instructions.  An interrupt keeps the
registers and the flags, and changes only bytes of a set `F` that are its own, and free bytes of the
stack.  If the program alone accesses neither these bytes nor the free part of the stack, then it does
not notice the interrupts (`Agree.of_interrupted`): it comes to the same positions, with the same
registers and flags and with the same contents of the memory that is not the interrupts' own.
-/

namespace Mos6502

variable {F : Set (BitVec 16)} {cpu cpu' : Cpu}

/-! ### What a program may access -/

/-- The free part of the stack. -/
def free (s : BitVec 8) : Set (BitVec 16) :=
  {a | ∃ b ≤ s, a = Cpu.stackAddr b}

/-- The bytes that may change at any time. -/
def unstable (F : Set (BitVec 16)) (cpu : Cpu) : Set (BitVec 16) :=
  F ∪ free cpu.s

/-- An operand that does not depend on bytes that may change. -/
def Mode.Avoids (F : Set (BitVec 16)) (cpu : Cpu) : Mode → Prop
  | .imm _ => True
  | .indY addr => addr.setWidth 16 ∉ unstable F cpu ∧ (addr + 1).setWidth 16 ∉ unstable F cpu
      ∧ (Mode.indY addr).addr cpu ∉ unstable F cpu
  | m => m.addr cpu ∉ unstable F cpu

/-- An instruction that does not depend on bytes that may change, and does not write them.  An
instruction that moves the stack pointer down without a push makes free bytes a part of the stack. -/
def Op.Avoids (F : Set (BitVec 16)) (cpu : Cpu) (o : Op) : Prop :=
  match o with
  | .pla | .plx => cpu.s ≠ 0xFF
  | .txs => cpu.s ≤ cpu.x
  | _ => ∀ m ∈ o.operand, m.Avoids F cpu

/-- The state `cpu'` is `cpu`, except for bytes that may change. -/
structure Agree (F : Set (BitVec 16)) (cpu cpu' : Cpu) : Prop where
  cpu_eq : cpu' = { cpu with mem := cpu'.mem }
  eqOn : Set.EqOn cpu'.mem cpu.mem (unstable F cpu)ᶜ

namespace Agree

theorem s_eq (h : Agree F cpu cpu') : cpu'.s = cpu.s := by
  rw [h.cpu_eq]

theorem refl (F : Set (BitVec 16)) (cpu : Cpu) : Agree F cpu cpu :=
  ⟨rfl, Set.eqOn_refl _ _⟩

theorem trans {cpu'' : Cpu} (h : Agree F cpu cpu') (h' : Agree F cpu' cpu'') : Agree F cpu cpu'' where
  cpu_eq := by
    rw [h'.cpu_eq, h.cpu_eq]
  eqOn := by
    have heqOn := h'.eqOn
    rw [unstable, h.s_eq] at heqOn
    exact heqOn.trans h.eqOn

/-- The value and the address of an operand are the same. -/
theorem operand_eq (h : Agree F cpu cpu') {m : Mode} (hm : m.Avoids F cpu) :
  m.addr cpu' = m.addr cpu ∧ m.read cpu' = m.read cpu
  := by
  obtain ⟨hcpu, heqOn⟩ := h
  generalize cpu'.mem = mem at *
  subst hcpu
  cases m with
  | imm b => exact ⟨rfl, rfl⟩
  | abs addr => exact ⟨rfl, heqOn hm⟩
  | absX addr => exact ⟨rfl, heqOn hm⟩
  | absY addr => exact ⟨rfl, heqOn hm⟩
  | zpX addr => exact ⟨rfl, heqOn hm⟩
  | indY addr =>
      obtain ⟨hlo, hhi, haddr⟩ := hm
      have haddr' : (Mode.indY addr).addr { cpu with mem := mem } = (Mode.indY addr).addr cpu := by
        simp only [Mode.addr]
        rw [heqOn hlo, heqOn hhi]
      refine ⟨haddr', ?_⟩
      rw [Mode.read, haddr']
      · exact heqOn haddr
      · intro b hb
        cases hb

/-- A byte pushed in both states. -/
theorem push (h : Agree F cpu cpu') (b : BitVec 8) : Agree F (cpu.push b) (cpu'.push b) := by
  obtain ⟨hcpu, heqOn⟩ := h
  generalize cpu'.mem = mem at *
  subst hcpu
  refine ⟨rfl, ?_⟩
  intro a ha
  by_cases htop : a = Cpu.stackAddr cpu.s
  · simp only [Cpu.push, Memory.store, htop, if_true]
  · simp only [Cpu.push, Memory.store, htop, if_false]
    apply heqOn
    rintro (hF | ⟨b', hb', rfl⟩)
    · exact ha (.inl hF)
    · apply ha
      refine .inr ⟨b', ?_, rfl⟩
      have hne : b' ≠ cpu.s := fun heq => htop (by rw [heq])
      simp only [Cpu.push]
      bv_omega

/-- A byte pulled in both states, from a stack that is not empty. -/
theorem top_eq (h : Agree F cpu cpu') (hF : ∀ b, Cpu.stackAddr b ∉ F) (hs : cpu.s ≠ 0xFF) :
  cpu'.top = cpu.top
  := by
  rw [Cpu.top, Cpu.top, h.s_eq]
  apply h.eqOn
  rintro (hmem | ⟨b, hb, heq⟩)
  · exact hF _ hmem
  · rw [Cpu.stackAddr_inj] at heq
    bv_omega

/-- Fewer bytes are free when the stack pointer is higher. -/
theorem of_s_le {s : BitVec 8} {m m' : Memory} (h : Set.EqOn m' m (F ∪ free cpu.s)ᶜ) (hs : cpu.s ≤ s) :
  Set.EqOn m' m (F ∪ free s)ᶜ
  := by
  apply h.mono
  rw [Set.compl_subset_compl]
  apply Set.union_subset_union_right
  rintro a ⟨b, hb, rfl⟩
  exact ⟨b, by bv_omega, rfl⟩

/-- An instruction that does not depend on bytes that may change has the same effect. -/
theorem exec (h : Agree F cpu cpu') (hF : ∀ b, Cpu.stackAddr b ∉ F) {o : Op} (ho : o.Avoids F cpu) :
  Agree F (o.exec cpu) (o.exec cpu')
  := by
  have hpush := h.push
  have htop := h.top_eq hF
  have hoperand : ∀ m : Mode, m.Avoids F cpu → m.addr cpu' = m.addr cpu ∧ m.read cpu' = m.read cpu :=
    fun m hm => h.operand_eq hm
  obtain ⟨hcpu, heqOn⟩ := h
  generalize cpu'.mem = mem at *
  cases o
  case pha | phx | php =>
    subst hcpu
    apply hpush
  case pla | plx =>
    have hs : cpu.s ≤ cpu.s + 1 := by
      have hne : cpu.s ≠ 0xFF := ho
      bv_omega
    simp only [Op.exec, htop ho]
    subst hcpu
    exact ⟨rfl, of_s_le heqOn hs⟩
  case txs =>
    subst hcpu
    exact ⟨rfl, of_s_le heqOn ho⟩
  case sta m | stz m | inc m | dec m | asl m | rol m | tsb m | trb m =>
    obtain ⟨haddr, hread⟩ := hoperand m (ho m rfl)
    simp only [Op.exec, haddr, hread]
    subst hcpu
    exact ⟨rfl, Memory.store_congr heqOn⟩
  case lda m | ldx m | ldy m | adc m | sbc m | and m | ora m | cmp m | cpx m | cpy m | bit m =>
    obtain ⟨-, hread⟩ := hoperand m (ho m rfl)
    simp only [Op.exec, hread]
    subst hcpu
    exact ⟨rfl, heqOn⟩
  all_goals
    subst hcpu
    exact ⟨rfl, heqOn⟩

end Agree

/-! ### Runs -/

variable {L γ : Type*} [DecidableEq L] {prog : List (Line L)} {irq : Cpu × γ → Cpu × γ → Prop}

/-- A step of a program with subroutines, and without a device. -/
def next (prog : List (Line L)) : List (Line L) × Cpu → Option (List (Line L) × Cpu)
  | (.label _ :: rest, cpu) => some (rest, cpu)
  | (.op o :: rest, cpu) => some (rest, o.exec cpu)
  | (.branch cond l :: rest, cpu) => some (if cond.holds cpu then goto prog l else rest, cpu)
  | (.jsr ret l :: _, cpu) => some (goto prog l, cpu.call ret)
  | (.rts :: _, cpu) => (resume prog cpu.rts.1).map fun rest => (rest, cpu.rts.2)
  | _ => none

/-- A run of a program that is not interrupted. -/
def Run (prog : List (Line L)) : List (Line L) × Cpu → List (Line L) × Cpu → Prop :=
  Relation.ReflTransGen fun p q => next prog p = some q

/-- A step of a program that is interrupted: an instruction, or an interrupt. -/
inductive Interrupted (prog : List (Line L)) (irq : Cpu × γ → Cpu × γ → Prop) :
    List (Line L) × Cpu × γ → List (Line L) × Cpu × γ → Prop where
  | exec {pos pos' : List (Line L)} {cpu cpu' : Cpu} {g : γ} :
      next prog (pos, cpu) = some (pos', cpu') → Interrupted prog irq (pos, cpu, g) (pos', cpu', g)
  | irq {pos : List (Line L)} {c c' : Cpu × γ} : irq c c' → Interrupted prog irq (pos, c) (pos, c')

/-- The next line of a program does not depend on bytes that may change, and there is room for `n` bytes
on the stack. -/
structure Undisturbed (F : Set (BitVec 16)) (n : ℕ) (p : List (Line L) × Cpu) : Prop where
  room : n ≤ p.2.s.toNat
  op : ∀ o, p.1.head? = some (.op o) → o.Avoids F p.2
  rts : p.1.head? = some .rts → p.2.s ≤ 0xFD

namespace Agree

/-- The address that a subroutine returns to is in the part of the stack that is used. -/
theorem rts_eq (h : Agree F cpu cpu') (hF : ∀ b, Cpu.stackAddr b ∉ F) (hs : cpu.s ≤ 0xFD) :
  cpu'.rts.1 = cpu.rts.1 ∧ Agree F cpu.rts.2 cpu'.rts.2
  := by
  have hstack (b : BitVec 8) (hb : cpu.s < b) :
      cpu'.mem (Cpu.stackAddr b) = cpu.mem (Cpu.stackAddr b) := by
    apply h.eqOn
    rintro (hmem | ⟨b', hb', heq⟩)
    · exact hF _ hmem
    · rw [Cpu.stackAddr_inj] at heq
      bv_omega
  have h₁ := hstack (cpu.s + 1) (by bv_omega)
  have h₂ := hstack (cpu.s + 2) (by bv_omega)
  constructor
  · simp only [Cpu.rts, h.s_eq, h₁, h₂]
  · have hle : cpu.s ≤ cpu.s + 2 := by bv_omega
    obtain ⟨hcpu, heqOn⟩ := h
    generalize cpu'.mem = mem at *
    subst hcpu
    exact ⟨rfl, of_s_le heqOn hle⟩

/-- A step in two states that agree. -/
theorem next {pos pos' : List (Line L)} {cpu₁ : Cpu} (h : Agree F cpu cpu')
    (hF : ∀ b, Cpu.stackAddr b ∉ F) {n : ℕ} (hp : Undisturbed F n (pos, cpu))
    (hnext : next prog (pos, cpu') = some (pos', cpu₁)) :
  ∃ cpu₂, Mos6502.next prog (pos, cpu) = some (pos', cpu₂) ∧ Agree F cpu₂ cpu₁
  := by
  obtain _ | ⟨line, rest⟩ := pos
  · cases hnext
  cases line with
  | label l =>
      cases hnext
      exact ⟨cpu, rfl, h⟩
  | op o =>
      cases hnext
      exact ⟨o.exec cpu, rfl, h.exec hF (hp.op o rfl)⟩
  | branch cond l =>
      have hcond : cond.holds cpu' = cond.holds cpu := by
        rw [h.cpu_eq]
        cases cond <;> rfl
      cases hnext
      refine ⟨cpu, ?_, h⟩
      rw [Mos6502.next, hcond]
  | jsr ret l =>
      cases hnext
      exact ⟨cpu.call ret, rfl, (h.push _).push _⟩
  | rts =>
      obtain ⟨haddr, hagree⟩ := h.rts_eq hF (hp.rts rfl)
      rw [Mos6502.next, haddr, Option.map_eq_some_iff] at hnext
      obtain ⟨rest, hresume, heq⟩ := hnext
      cases heq
      refine ⟨cpu.rts.2, ?_, hagree⟩
      rw [Mos6502.next, hresume]
      rfl
  | rti => cases hnext

/-- A program does not notice interrupts that keep the registers and change only bytes that may change:
what it comes to while it is interrupted is what it comes to alone, except for these bytes. -/
theorem of_interrupted {p : List (Line L) × Cpu × γ} {q : List (Line L) × Cpu × γ} {n : ℕ}
    (hF : ∀ b, Cpu.stackAddr b ∉ F)
    (hirq : ∀ c c', n ≤ c.1.s.toNat → irq c c' → Agree F c.1 c'.1)
    (halone : ∀ r, Run prog (p.1, p.2.1) r → Undisturbed F n r)
    (hrun : Relation.ReflTransGen (Interrupted prog irq) p q) :
  ∃ cpu, Run prog (p.1, p.2.1) (q.1, cpu) ∧ Agree F cpu q.2.1
  := by
  induction hrun with
  | refl => exact ⟨p.2.1, .refl, refl F _⟩
  | tail _ hstep ih =>
      obtain ⟨cpu, hcpu, hagree⟩ := ih
      cases hstep with
      | exec hnext =>
          obtain ⟨cpu₂, hnext₂, hagree₂⟩ := hagree.next hF (halone _ hcpu) hnext
          exact ⟨cpu₂, hcpu.tail hnext₂, hagree₂⟩
      | irq hirq' =>
          have hroom := (halone _ hcpu).room
          dsimp only at hroom hagree
          rw [← hagree.s_eq] at hroom
          exact ⟨cpu, hcpu, hagree.trans (hirq _ _ hroom hirq')⟩

end Agree

/-! ### Routines that are interrupted -/

/-- A step of a routine: first what may happen between two instructions, and then an instruction. -/
def Preempted (prog : List (Line L)) (between : Cpu × γ → Cpu × γ → Prop)
    (p q : List (Line L) × Cpu × γ) : Prop :=
  ∃ c, between p.2 c ∧ next prog (p.1, c.1) = some (q.1, q.2.1) ∧ q.2.2 = c.2

/-- Whatever happens between the instructions, execution comes to a position and a state with the
property `Q`. -/
def IrqLeads (prog : List (Line L)) (between : Cpu × γ → Cpu × γ → Prop)
    (p : List (Line L) × Cpu × γ) (Q : List (Line L) × Cpu × γ → Prop) : Prop :=
  Inevitably (Preempted prog between) Q p

namespace IrqLeads

variable {between : Cpu × γ → Cpu × γ → Prop} {rest : List (Line L)} {c : Cpu × γ} {o : Op} {l : L}
  {cond : Cond} {P Q : List (Line L) × Cpu × γ → Prop} {p : List (Line L) × Cpu × γ}

theorem refl (h : Q p) : IrqLeads prog between p Q :=
  Inevitably.done h

/-- Executions in sequence. -/
theorem trans (h : IrqLeads prog between p P) (hPQ : ∀ q, P q → IrqLeads prog between q Q) :
  IrqLeads prog between p Q
  :=
  Inevitably.trans h hPQ

/-- A line that execution continues after, whatever has happened before it. -/
theorem line {pos : List (Line L)} (hbetween : ∃ c', between c c')
    (h : ∀ c', between c c' → ∃ q, next prog (pos, c'.1) = some q
      ∧ IrqLeads prog between (q.1, q.2, c'.2) Q) :
  IrqLeads prog between (pos, c) Q
  := by
  apply Inevitably.later
  · obtain ⟨c', hc'⟩ := hbetween
    obtain ⟨q, hq, -⟩ := h c' hc'
    exact ⟨(q.1, q.2, c'.2), c', hc', hq, rfl⟩
  · rintro ⟨pos', cpu', g'⟩ ⟨c', hc', hnext, hg⟩
    obtain ⟨q, hq, hleads⟩ := h c' hc'
    obtain rfl := Option.some.inj (hq.symm.trans hnext)
    cases hg
    exact hleads

section

variable (hbetween : between c c)

include hbetween

/-- The position after a label, if nothing may happen between two instructions. -/
theorem label (h : ∀ c', between c c' → IrqLeads prog between (rest, c') Q) :
  IrqLeads prog between (.label l :: rest, c) Q
  :=
  line ⟨c, hbetween⟩ fun c' hc' => ⟨_, rfl, h c' hc'⟩

/-- An instruction, after the interrupts before it. -/
theorem op (h : ∀ c', between c c' → IrqLeads prog between (rest, o.exec c'.1, c'.2) Q) :
  IrqLeads prog between (.op o :: rest, c) Q
  :=
  line ⟨c, hbetween⟩ fun c' hc' => ⟨_, rfl, h c' hc'⟩

/-- A branch, after the interrupts before it. -/
theorem branch (h : ∀ c', between c c' →
      if cond.holds c'.1 then IrqLeads prog between (goto prog l, c') Q
      else IrqLeads prog between (rest, c') Q) :
  IrqLeads prog between (.branch cond l :: rest, c) Q
  := by
  apply line ⟨c, hbetween⟩
  intro c' hc'
  have hleads := h c' hc'
  refine ⟨_, rfl, ?_⟩
  split_ifs with hcond
  · rw [if_pos hcond] at hleads
    exact hleads
  · rw [if_neg hcond] at hleads
    exact hleads

end

/-- Instructions that are not interrupted: what happens between them changes only the rest of the state,
and keeps a property of it. -/
theorem masked {W : γ → Prop} (ops : List Op) (hkeeps : ∀ o ∈ ops, ∀ cpu, (o.exec cpu).i = cpu.i)
    (hbetween : ∀ c, between c c)
    (hmasked : ∀ c c', c.1.i = true → between c c' → c'.1 = c.1 ∧ (W c.2 → W c'.2))
    (hi : c.1.i = true) (hW : W c.2)
    (h : ∀ g, W g → IrqLeads prog between (rest, run ops c.1, g) Q) :
  IrqLeads prog between (ops.map .op ++ rest, c) Q
  := by
  induction ops generalizing c with
  | nil => exact h _ hW
  | cons o ops ih =>
      apply op (hbetween _)
      intro c' hc'
      obtain ⟨hcpu, hW'⟩ := hmasked c c' hi hc'
      rw [hcpu]
      apply ih fun o' ho' => hkeeps o' (List.mem_cons_of_mem _ ho')
      · exact (hkeeps o List.mem_cons_self _).trans hi
      · exact hW' hW
      · exact h

/-- A routine that is interrupted comes to its end with the property, if all its runs do. -/
theorem of_rts {q : List (Line L) × Cpu × γ} (h : IrqLeads prog between p Q)
    (hresume : ∀ a, resume prog a = none) (hQ : ∀ r, Q r → r.1.head? = some .rts)
    (hrun : Relation.ReflTransGen (Preempted prog between) p q) (hq : q.1.head? = some .rts) :
  Q q
  := by
  have hend (r r' : List (Line L) × Cpu × γ) (hr : r.1.head? = some .rts) :
      ¬ Preempted prog between r r' := by
    rintro ⟨c', -, hnext, -⟩
    obtain ⟨rest', hpos⟩ := List.head?_eq_some_iff.mp hr
    rw [hpos, next, hresume] at hnext
    cases hnext
  apply Inevitably.of_end h (fun r r' hr => hend r r' (hQ r hr)) hrun
  intro r
  apply hend _ _ hq

end IrqLeads

end Mos6502
