import Mosnix.Lib.Mos6502Long

/-!
# The 6502 with a device and with subroutines

A device is mapped to some addresses.  An instruction whose operand is at such an address reads the
value that the device gives, and the device is told what the instruction writes.  The stack, and the
pointers in the zero page, are in memory.

A `jsr` pushes the address that it returns to, and an `rts` continues after the `jsr` that has the
address that it pops.  An `rts` that pops another address ends the execution: it returns to code
outside of the program.

`d.Leads prog p Q` says that execution with the device `d` from the position and state `p` reaches a
position and state with the property `Q`.
-/

namespace Mos6502

/-! ### Operands -/

/-- The address of an operand in memory. -/
def Mode.address? (cpu : Cpu) : Mode → Option (BitVec 16)
  | .imm _ => none
  | m => some (m.addr cpu)

/-- The operand of an instruction. -/
def Op.operand : Op → Option Mode
  | .lda m | .ldx m | .ldy m | .sta m | .stz m | .inc m | .dec m | .adc m | .sbc m | .and m | .ora m
  | .asl m | .rol m | .cmp m | .cpx m | .cpy m | .bit m | .tsb m | .trb m => some m
  | _ => none

/-- An instruction reads its operand. -/
def Op.reads : Op → Bool
  | .sta _ | .stz _ => false
  | _ => true

/-- An instruction writes its operand. -/
def Op.writes : Op → Bool
  | .sta _ | .stz _ | .inc _ | .dec _ | .asl _ | .rol _ | .tsb _ | .trb _ => true
  | _ => false

/-- The address of the operand of an instruction. -/
def Op.address? (cpu : Cpu) (o : Op) : Option (BitVec 16) :=
  o.operand.bind (Mode.address? cpu)

/-- The state after a byte of the memory is changed. -/
def Cpu.poke (cpu : Cpu) (a : BitVec 16) (b : BitVec 8) : Cpu :=
  { cpu with mem := cpu.mem.store a b }

/-! ### Devices -/

/-- A device with the states `δ`. -/
structure Device (δ : Type*) where
  /-- The addresses of its registers. -/
  mapped : BitVec 16 → Bool
  /-- The value that is read from a register. -/
  read : δ → BitVec 16 → BitVec 8
  /-- The state after a register is read. -/
  afterRead : δ → BitVec 16 → δ
  /-- The state after a register is written. -/
  write : δ → BitVec 16 → BitVec 8 → δ

namespace Device

variable {δ : Type*} (d : Device δ)

/-- The state after the register at `a` is read to the memory. -/
def fetch (a : BitVec 16) (c : Cpu × δ) : Cpu × δ :=
  (c.1.poke a (d.read c.2 a), d.afterRead c.2 a)

/-- The effect of an instruction on a register at `a`. -/
def access (o : Op) (a : BitVec 16) (c : Cpu × δ) : Cpu × δ :=
  let c' := if o.reads then d.fetch a c else c
  (o.exec c'.1, if o.writes then d.write c'.2 a ((o.exec c'.1).mem a) else c'.2)

/-- The effect of an instruction. -/
def exec (o : Op) (c : Cpu × δ) : Cpu × δ :=
  match o.address? c.1 with
  | some a => if d.mapped a then d.access o a c else (o.exec c.1, c.2)
  | none => (o.exec c.1, c.2)

/-- An instruction does not access the device. -/
def Plain (o : Op) (cpu : Cpu) : Prop :=
  ∀ a ∈ o.address? cpu, d.mapped a = false

variable {d} {o : Op} {c : Cpu × δ} {a : BitVec 16}

theorem exec_plain (h : d.Plain o c.1) : d.exec o c = (o.exec c.1, c.2) := by
  rw [exec]
  cases haddr : o.address? c.1 with
  | none => rfl
  | some a =>
      have hmapped := h a haddr
      simp only [hmapped, Bool.false_eq_true, if_false]

/-- An instruction without an operand in memory. -/
theorem plain_of_none {cpu : Cpu} (h : o.address? cpu = none) : d.Plain o cpu := by
  intro a ha
  rw [h] at ha
  cases ha

/-- An instruction with an operand in memory. -/
theorem plain_of_some {cpu : Cpu} (haddr : o.address? cpu = some a) (h : d.mapped a = false) :
  d.Plain o cpu
  := by
  intro a' ha'
  rw [haddr] at ha'
  cases ha'
  exact h

variable (haddr : o.address? c.1 = some a)

include haddr

/-- An instruction that accesses the device. -/
theorem exec_mapped (hmapped : d.mapped a = true) :
  d.exec o c = d.access o a c
  := by
  rw [exec, haddr]
  simp only [hmapped, if_true]

/-- An instruction that reads a register of the device. -/
theorem exec_load (hmapped : d.mapped a = true) (hreads : o.reads = true) (hwrites : o.writes = false) :
  d.exec o c = (o.exec (c.1.poke a (d.read c.2 a)), d.afterRead c.2 a)
  := by
  rw [exec_mapped haddr hmapped, access, hreads, hwrites, if_pos rfl]
  rfl

/-- An instruction that writes a register of the device. -/
theorem exec_store (hmapped : d.mapped a = true) (hreads : o.reads = false)
    (hwrites : o.writes = true) :
  d.exec o c = (o.exec c.1, d.write c.2 a ((o.exec c.1).mem a))
  := by
  rw [exec_mapped haddr hmapped, access, hreads, hwrites, if_neg Bool.false_ne_true, if_pos rfl]

end Device

/-! ### Execution -/

/-- The code after the `jsr` that returns to an address. -/
def resume {L : Type*} : List (Line L) → BitVec 16 → Option (List (Line L))
  | [], _ => none
  | .jsr ret _ :: rest, a => if ret = a then some rest else resume rest a
  | _ :: rest, a => resume rest a

/-- The state after a return address is pushed. -/
def Cpu.call (cpu : Cpu) (ret : BitVec 16) : Cpu :=
  (cpu.push ((ret - 1).extractLsb' 8 8)).push ((ret - 1).extractLsb' 0 8)

/-- The state `cpu'` has the address on the stack that a call in the state `cpu` has pushed. -/
structure Cpu.Called (cpu : Cpu) (ret : BitVec 16) (cpu' : Cpu) : Prop where
  s_eq : cpu'.s = cpu.s - 2
  low : cpu'.mem (stackAddr (cpu.s - 1)) = (ret - 1).extractLsb' 0 8
  high : cpu'.mem (stackAddr cpu.s) = (ret - 1).extractLsb' 8 8

/-- A call pushes its return address. -/
theorem Cpu.call_called (cpu : Cpu) (ret : BitVec 16) : cpu.Called ret (cpu.call ret) where
  s_eq := by
    rw [call, push, push]
    bv_omega
  low := Memory.store_self
  high := by
    have hne : stackAddr cpu.s ≠ stackAddr (cpu.s - 1) := by
      rw [Ne, stackAddr_inj]
      bv_omega
    exact (Memory.store_of_ne hne).trans Memory.store_self

/-- A subroutine returns to its call. -/
theorem Cpu.Called.rts_eq {cpu cpu' : Cpu} {ret : BitVec 16} (h : cpu.Called ret cpu') :
  cpu'.rts = (ret, { cpu' with s := cpu.s })
  := by
  have hlow : cpu'.s + 1 = cpu.s - 1 := by
    rw [h.s_eq]
    bv_omega
  have hhigh : cpu'.s + 2 = cpu.s := by
    rw [h.s_eq]
    bv_omega
  have hret : (ret - 1).extractLsb' 8 8 ++ (ret - 1).extractLsb' 0 8 = ret - 1 := by
    apply BitVec.extractLsb'_append_extractLsb'
  rw [rts, hlow, hhigh, h.low, h.high, hret, BitVec.sub_add_cancel]

namespace Device

variable {δ : Type*} (d : Device δ) {L : Type*} [DecidableEq L]

/-- One step of execution, from a position and a state. -/
def step (prog : List (Line L)) : List (Line L) × Cpu × δ → Option (List (Line L) × Cpu × δ)
  | (.label _ :: rest, c) => some (rest, c)
  | (.op o :: rest, c) => some (rest, d.exec o c)
  | (.branch cond l :: rest, c) => some (if cond.holds c.1 then goto prog l else rest, c)
  | (.jsr ret l :: _, c) => some (goto prog l, c.1.call ret, c.2)
  | (.rts :: _, c) => (resume prog c.1.rts.1).map fun rest => (rest, c.1.rts.2, c.2)
  | _ => none

/-- Execution leads to a position and a state with the property `Q`. -/
def Leads (prog : List (Line L)) (p : List (Line L) × Cpu × δ)
    (Q : List (Line L) × Cpu × δ → Prop) : Prop :=
  ∃ q, Relation.ReflTransGen (fun p q => d.step prog p = some q) p q ∧ Q q

namespace Leads

variable {d} {prog rest : List (Line L)} {p : List (Line L) × Cpu × δ} {c : Cpu × δ} {o : Op}
  {l : L} {cond : Cond} {P Q : List (Line L) × Cpu × δ → Prop}

theorem refl (h : Q p) : d.Leads prog p Q :=
  ⟨p, Relation.ReflTransGen.refl, h⟩

/-- Execution after one step. -/
theorem head {q : List (Line L) × Cpu × δ} (hstep : d.step prog p = some q)
    (h : d.Leads prog q Q) :
  d.Leads prog p Q
  := by
  obtain ⟨r, hr, hQ⟩ := h
  exact ⟨r, Relation.ReflTransGen.head hstep hr, hQ⟩

/-- Executions in sequence. -/
theorem trans (h : d.Leads prog p P) (hPQ : ∀ q, P q → d.Leads prog q Q) : d.Leads prog p Q := by
  obtain ⟨q, hq, hP⟩ := h
  obtain ⟨r, hr, hQ⟩ := hPQ q hP
  exact ⟨r, hq.trans hr, hQ⟩

theorem label (h : d.Leads prog (rest, c) Q) : d.Leads prog (.label l :: rest, c) Q :=
  head rfl h

theorem op (h : d.Leads prog (rest, d.exec o c) Q) : d.Leads prog (.op o :: rest, c) Q :=
  head rfl h

/-- An instruction that does not access the device. -/
theorem plain (hplain : d.Plain o c.1) (h : d.Leads prog (rest, o.exec c.1, c.2) Q) :
  d.Leads prog (.op o :: rest, c) Q
  := by
  apply op
  rw [exec_plain hplain]
  exact h

/-- An instruction that does not access the memory. -/
theorem internal (haddr : o.address? c.1 = none) (h : d.Leads prog (rest, o.exec c.1, c.2) Q) :
  d.Leads prog (.op o :: rest, c) Q
  :=
  plain (plain_of_none haddr) h

/-- An instruction that accesses the memory outside the device. -/
theorem ram {a : BitVec 16} (haddr : o.address? c.1 = some a) (hmapped : d.mapped a = false)
    (h : d.Leads prog (rest, o.exec c.1, c.2) Q) :
  d.Leads prog (.op o :: rest, c) Q
  :=
  plain (plain_of_some haddr hmapped) h

/-- A branch that is taken. -/
theorem branch (hcond : cond.holds c.1 = true) (h : d.Leads prog (goto prog l, c) Q) :
  d.Leads prog (.branch cond l :: rest, c) Q
  := by
  apply head _ h
  simp [step, hcond]

/-- A branch that is not taken. -/
theorem noBranch (hcond : cond.holds c.1 = false) (h : d.Leads prog (rest, c) Q) :
  d.Leads prog (.branch cond l :: rest, c) Q
  := by
  apply head _ h
  simp [step, hcond]

/-- The branch of a loop that goes on while `p`. -/
theorem branch_ne {p : Prop} [Decidable p] {r : BitVec 8} (hz : c.1.z = (r == 0)) (hr : r ≠ 0 ↔ p)
    (h : d.Leads prog (if p then goto prog l else rest, c) Q) :
  d.Leads prog (.branch .ne l :: rest, c) Q
  := by
  by_cases hp : p
  · rw [if_pos hp] at h
    apply branch (Cond.holds_ne hz (hr.mpr hp)) h
  · rw [if_neg hp] at h
    apply noBranch (Cond.not_holds_ne hz (not_not.mp fun hne => hp (hr.mp hne))) h

/-- A loop of `n` rounds.  Before the round `i` the state has the property `P i`. -/
theorem loop {P : ℕ → Cpu × δ → Prop} {R : Cpu × δ → Prop} {top out : List (Line L)} {i n : ℕ}
    (hround : ∀ i c, i < n → P i c → d.Leads prog (top, c) fun q =>
      q.1 = (if i + 1 < n then top else out) ∧ P (i + 1) q.2)
    (hR : ∀ c, P n c → R c) (hi : i < n) (h : P i c) :
  d.Leads prog (top, c) fun q => q.1 = out ∧ R q.2
  := by
  obtain ⟨r, hr⟩ : ∃ r, n = i + 1 + r := Nat.exists_eq_add_of_le hi
  induction r generalizing i c with
  | zero =>
      subst hr
      apply (hround i c hi h).trans
      rintro ⟨_, c'⟩ ⟨rfl, h'⟩
      apply refl
      exact ⟨if_neg (Nat.lt_irrefl _), hR c' h'⟩
  | succ r ih =>
      have hlt : i + 1 < n := by omega
      apply (hround i c hi h).trans
      rintro ⟨_, c'⟩ ⟨rfl, h'⟩
      rw [if_pos hlt]
      apply ih hlt h' (by omega)

/-- A jump to a subroutine. -/
theorem jsr {ret : BitVec 16} (h : d.Leads prog (goto prog l, c.1.call ret, c.2) Q) :
  d.Leads prog (.jsr ret l :: rest, c) Q
  :=
  head rfl h

/-- A return to a `jsr` of the program. -/
theorem rts {r : List (Line L)} (hresume : resume prog c.1.rts.1 = some r)
    (h : d.Leads prog (r, c.1.rts.2, c.2) Q) :
  d.Leads prog (.rts :: rest, c) Q
  := by
  apply head _ h
  rw [step, hresume]
  rfl

end Leads

/-! ### Calls -/

/-- A call of a subroutine that leaves the stack as it was, and the return address on it. -/
theorem Leads.call {d : Device δ} {prog rest : List (Line L)} {c : Cpu × δ} {l : L} {ret : BitVec 16}
    {P : Cpu × δ → Prop} (hresume : resume prog ret = some rest)
    (h : d.Leads prog (goto prog l, c.1.call ret, c.2) fun q =>
      q.1.head? = some .rts ∧ (c.1.Called ret q.2.1 ∧ P ({ q.2.1 with s := c.1.s }, q.2.2))) :
  d.Leads prog (.jsr ret l :: rest, c) fun q => q.1 = rest ∧ P q.2
  := by
  apply Leads.jsr
  apply h.trans
  rintro ⟨_ | ⟨line, lines⟩, c'⟩ ⟨hrts, hcalled, hP⟩
  · cases hrts
  · cases hrts
    have hreturn := hcalled.rts_eq
    apply Leads.rts (r := rest)
    · rw [hreturn]
      exact hresume
    · rw [hreturn]
      apply Leads.refl
      exact ⟨rfl, hP⟩

end Device

/-! ### Loops with a 16-bit count -/

section Counted

variable {L : Type*} [DecidableEq L] {prog rest body body₁ body₂ : List (Line L)} {l l₁ l₂ l₃ l₄ : L}
  {lo hi : BitVec 16}

/-- The end of a round of `pages`. -/
def pagesEnd (l : L) (hi : BitVec 16) (rest : List (Line L)) : List (Line L) :=
  .op .iny :: .branch .ne l :: .op (.inc (.abs hi)) :: .op .dex :: .branch .ne l :: rest

/-- A loop with 256 rounds for each page; the number of pages is in `X`, and `Y` counts the rounds of a
page.  The byte at `hi` is incremented after each page. -/
def pages (l : L) (body : List (Line L)) (hi : BitVec 16) (rest : List (Line L)) : List (Line L) :=
  .label l :: (body ++ pagesEnd l hi rest)

/-- The end of a round of `rounds`. -/
def roundsEnd (l : L) (rest : List (Line L)) : List (Line L) :=
  .op .iny :: .op .dex :: .branch .ne l :: rest

/-- A loop with the number of rounds in `X`, in which `Y` is incremented. -/
def rounds (l : L) (body : List (Line L)) (rest : List (Line L)) : List (Line L) :=
  .label l :: (body ++ roundsEnd l rest)

/-- The part of `counted` for the rounds that do not fill a page. -/
def countedLow (l₂ l₃ l₄ : L) (body : List (Line L)) (lo : BitVec 16) (rest : List (Line L)) :
    List (Line L) :=
  .label l₂ :: .op (.ldx (.abs lo)) :: .branch .eq l₄ :: rounds l₃ body (.label l₄ :: rest)

/-- A loop with the number of rounds in `X` and `A`: a loop over the pages, and one over the rounds that
do not fill a page. -/
def counted (l₁ l₂ l₃ l₄ : L) (body₁ body₂ : List (Line L)) (lo hi : BitVec 16)
    (rest : List (Line L)) : List (Line L) :=
  .op (.sta (.abs lo)) :: .op (.ldy (.imm 0)) :: .op (.cpx (.imm 0)) :: .branch .eq l₂
    :: pages l₁ body₁ hi (countedLow l₂ l₃ l₄ body₂ lo rest)

/-- The labels of a loop in a program. -/
structure IsCounted (prog : List (Line L)) (l₁ l₂ l₃ l₄ : L) (body₁ body₂ : List (Line L))
    (lo hi : BitVec 16) (rest : List (Line L)) : Prop where
  goto₁ : goto prog l₁ = pages l₁ body₁ hi (countedLow l₂ l₃ l₄ body₂ lo rest)
  goto₂ : goto prog l₂ = countedLow l₂ l₃ l₄ body₂ lo rest
  goto₃ : goto prog l₃ = rounds l₃ body₂ (.label l₄ :: rest)
  goto₄ : goto prog l₄ = .label l₄ :: rest

/-- The state after `i` rounds: `Y` and the byte at `hi` count the rounds, and `K i` holds. -/
structure AtRound {δ : Type*} (K : ℕ → Cpu × δ → Prop) (hi : BitVec 16) (h₀ : BitVec 8) (i : ℕ)
    (c : Cpu × δ) : Prop where
  y_eq : c.1.y = BitVec.ofNat 8 i
  hi_eq : c.1.mem hi = h₀ + BitVec.ofNat 8 (i / 256)
  inv : K i c

namespace Device

variable {δ : Type*} {d : Device δ} {c : Cpu × δ} {K : ℕ → Cpu × δ → Prop} {h₀ : BitVec 8} {i n : ℕ}

/-- A body takes a state after `i` rounds to one after `i + 1` rounds, except that it does not count
them. -/
def Rounds (d : Device δ) (prog body tail : List (Line L)) (K : ℕ → Cpu × δ → Prop) (hi : BitVec 16)
    (h₀ : BitVec 8) (i : ℕ) : Prop :=
  ∀ c, AtRound K hi h₀ i c → d.Leads prog (body ++ tail, c) fun q =>
    q.1 = tail ∧ q.2.1.x = c.1.x ∧ q.2.1.y = c.1.y ∧ q.2.1.mem hi = c.1.mem hi ∧ K (i + 1) q.2

section

variable (hK : ∀ i c cpu, K i c → cpu.s = c.1.s → Set.EqOn cpu.mem c.1.mem {hi}ᶜ → K i (cpu, c.2))

include hK

/-- The end of a round that is not the last one of a page.  What holds after it does not depend on the
registers `A`, `X` and `Y`, the flags, and the byte at `hi`. -/
theorem atRound_iny (hy : c.1.y = BitVec.ofNat 8 i) (hhi : c.1.mem hi = h₀ + BitVec.ofNat 8 (i / 256))
    (hinv : K (i + 1) c) (hdiv : (i + 1) / 256 = i / 256) :
  AtRound K hi h₀ (i + 1) (Op.iny.exec c.1, c.2)
  where
  y_eq := by
    rw [BitVec.ofNat_add, ← hy]
    rfl
  hi_eq := by
    rw [hdiv, ← hhi]
    rfl
  inv := hK _ _ _ hinv rfl (Set.eqOn_refl _ _)

/-- The end of the last round of a page. -/
theorem atRound_inc (hy : c.1.y = BitVec.ofNat 8 i) (hhi : c.1.mem hi = h₀ + BitVec.ofNat 8 (i / 256))
    (hinv : K (i + 1) c) (hdiv : (i + 1) / 256 = i / 256 + 1) :
  AtRound K hi h₀ (i + 1) (run [.iny, .inc (.abs hi), .dex] c.1, c.2)
  where
  y_eq := by
    rw [BitVec.ofNat_add, ← hy]
    rfl
  hi_eq := by
    rw [hdiv, BitVec.ofNat_add, ← BitVec.add_assoc, ← hhi]
    exact Memory.store_self
  inv := hK _ _ _ hinv rfl (store_eqOn (Set.eqOn_refl _ _) rfl)

omit hK in
/-- The body of a loop with the label `l`. -/
theorem Rounds.leads {tail : List (Line L)} (hbody : d.Rounds prog body tail K hi h₀ i)
    (h : AtRound K hi h₀ i c) :
  d.Leads prog (.label l :: (body ++ tail), c) fun q =>
    q.1 = tail ∧ q.2.1.x = c.1.x ∧ q.2.1.y = BitVec.ofNat 8 i
      ∧ q.2.1.mem hi = h₀ + BitVec.ofNat 8 (i / 256) ∧ K (i + 1) q.2
  := by
  have hleads := hbody c h
  rw [h.y_eq, h.hi_eq] at hleads
  apply Leads.label hleads

/-- A round of the loop over the pages. -/
theorem pages_round (hmapped : d.mapped hi = false)
    (hbody : d.Rounds prog body (pagesEnd l hi rest) K hi h₀ i) (hn : n < 256)
    (hi' : i < 256 * n) (hx : c.1.x = BitVec.ofNat 8 (n - i / 256)) (h : AtRound K hi h₀ i c) :
  d.Leads prog (pages l body hi rest, c) fun q => q.1 = (if i + 1 < 256 * n then goto prog l else rest)
    ∧ q.2.1.x = BitVec.ofNat 8 (n - (i + 1) / 256) ∧ AtRound K hi h₀ (i + 1) q.2
  := by
  apply (hbody.leads h).trans
  rintro ⟨_, c'⟩ ⟨rfl, hx', hy', hhi', hinv'⟩
  dsimp only at hx' hy' hhi' hinv'
  rw [hx] at hx'
  apply Leads.internal rfl
  apply Leads.branch_ne (r := c'.1.y + 1) (p := (i + 1) / 256 = i / 256) rfl
  · rw [hy']
    bv_omega
  by_cases hdiv : (i + 1) / 256 = i / 256
  · rw [if_pos hdiv]
    apply Leads.refl
    refine ⟨(if_pos (by omega)).symm, ?_, atRound_iny hK hy' hhi' hinv' hdiv⟩
    rw [hdiv, ← hx']
    rfl
  · rw [if_neg hdiv]
    have hdiv' : (i + 1) / 256 = i / 256 + 1 := by omega
    have hdex : c'.1.x - 1 = BitVec.ofNat 8 (n - (i + 1) / 256) := by
      rw [hx', hdiv']
      bv_omega
    apply Leads.ram rfl hmapped
    apply Leads.internal rfl
    apply Leads.branch_ne (r := c'.1.x - 1) (p := i + 1 < 256 * n) rfl
    · rw [hdex]
      bv_omega
    apply Leads.refl
    exact ⟨rfl, hdex, atRound_inc hK hy' hhi' hinv' hdiv'⟩

/-- The loop over the pages ends after 256 rounds for each page. -/
theorem pages_leads (hgoto : goto prog l = pages l body hi rest) (hmapped : d.mapped hi = false)
    (hbody : ∀ i < 256 * n, d.Rounds prog body (pagesEnd l hi rest) K hi h₀ i) (hn : n < 256)
    (hi' : i < 256 * n) (hx : c.1.x = BitVec.ofNat 8 (n - i / 256)) (h : AtRound K hi h₀ i c) :
  d.Leads prog (goto prog l, c) fun q => q.1 = rest ∧ AtRound K hi h₀ (256 * n) q.2
  := by
  apply Leads.loop (P := fun i c => c.1.x = BitVec.ofNat 8 (n - i / 256) ∧ AtRound K hi h₀ i c) _
    (fun _ h => h.2) hi' ⟨hx, h⟩
  rintro i c hi' ⟨hx, h⟩
  have hround := pages_round hK hmapped (hbody i hi') hn hi' hx h
  rw [← hgoto] at hround
  exact hround

/-- A round of a loop with a number of rounds. -/
theorem rounds_round (hbody : d.Rounds prog body (roundsEnd l rest) K hi h₀ i) (hn : n / 256 = i / 256)
    (hi' : i < n) (hx : c.1.x = BitVec.ofNat 8 (n - i)) (h : AtRound K hi h₀ i c) :
  d.Leads prog (rounds l body rest, c) fun q => q.1 = (if i + 1 < n then goto prog l else rest)
    ∧ q.2.1.x = BitVec.ofNat 8 (n - (i + 1)) ∧ AtRound K hi h₀ (i + 1) q.2
  := by
  apply (hbody.leads h).trans
  rintro ⟨_, c'⟩ ⟨rfl, hx', hy', hhi', hinv'⟩
  dsimp only at hx' hy' hhi' hinv'
  rw [hx] at hx'
  have hdex : c'.1.x - 1 = BitVec.ofNat 8 (n - (i + 1)) := by
    rw [hx']
    bv_omega
  have hround := atRound_iny hK hy' hhi' hinv' (by omega)
  apply Leads.internal rfl
  apply Leads.internal rfl
  apply Leads.branch_ne (r := c'.1.x - 1) (p := i + 1 < n) rfl
  · rw [hdex]
    bv_omega
  apply Leads.refl
  exact ⟨rfl, hdex, hround.y_eq, hround.hi_eq, hK _ _ _ hround.inv rfl (Set.eqOn_refl _ _)⟩

/-- The loop ends after the number of rounds that are left of a page. -/
theorem rounds_leads (hgoto : goto prog l = rounds l body rest)
    (hbody : ∀ i < n, d.Rounds prog body (roundsEnd l rest) K hi h₀ i) (hn : n / 256 = i / 256)
    (hi' : i < n) (hx : c.1.x = BitVec.ofNat 8 (n - i)) (h : AtRound K hi h₀ i c) :
  d.Leads prog (goto prog l, c) fun q => q.1 = rest ∧ AtRound K hi h₀ n q.2
  := by
  apply Leads.loop (P := fun i c => n / 256 = i / 256 ∧ c.1.x = BitVec.ofNat 8 (n - i)
    ∧ AtRound K hi h₀ i c) _ (fun _ h => h.2.2) hi' ⟨hn, hx, h⟩
  rintro i c hi' ⟨hn, hx, h⟩
  rw [hgoto]
  apply (rounds_round hK (hbody i hi') hn hi' hx h).trans
  rintro ⟨_, c'⟩ ⟨rfl, hx', h'⟩
  apply Leads.refl
  rw [hgoto]
  exact ⟨rfl, by omega, hx', h'⟩

/-- The rounds that do not fill a page. -/
theorem countedLow_leads {a : BitVec 8}
    (hcounted : IsCounted prog l₁ l₂ l₃ l₄ body₁ body₂ lo hi rest) (hmapped : d.mapped lo = false)
    (hlow : ∀ i c, K i c → c.1.mem lo = a)
    (hbody : ∀ i < 256 * n + a.toNat, d.Rounds prog body₂ (roundsEnd l₃ (.label l₄ :: rest)) K hi h₀ i)
    (h : AtRound K hi h₀ (256 * n) c) :
  d.Leads prog (countedLow l₂ l₃ l₄ body₂ lo rest, c) fun q =>
    q.1 = rest ∧ K (256 * n + a.toNat) q.2
  := by
  have ha := hlow _ _ h.inv
  have hlt := a.isLt
  have h' : AtRound K hi h₀ (256 * n) ((Op.ldx (.abs lo)).exec c.1, c.2) :=
    ⟨h.y_eq, h.hi_eq, hK _ _ _ h.inv rfl (Set.eqOn_refl _ _)⟩
  apply Leads.label
  apply Leads.ram rfl hmapped
  by_cases hzero : a = 0
  · apply Leads.branch
    · apply beq_iff_eq.mpr (ha.trans hzero)
    rw [hcounted.goto₄]
    apply Leads.label
    apply Leads.refl
    rw [hzero]
    exact ⟨rfl, h'.inv⟩
  · apply Leads.noBranch
    · apply beq_eq_false_iff_ne.mpr
      rw [← ha] at hzero
      exact hzero
    rw [← hcounted.goto₃]
    apply (rounds_leads hK hcounted.goto₃ hbody (by omega) (by bv_omega) _ h').trans
    · rintro ⟨_, c'⟩ ⟨rfl, hround⟩
      apply Leads.label
      apply Leads.refl
      exact ⟨rfl, hround.inv⟩
    · rw [Nat.add_sub_cancel_left, BitVec.ofNat_toNat, BitVec.setWidth_eq]
      exact ha

/-- The loop ends after the number of rounds in `X` and `A`. -/
theorem counted_leads (hcounted : IsCounted prog l₁ l₂ l₃ l₄ body₁ body₂ lo hi rest)
    (hmapped : d.mapped lo = false) (hmapped' : d.mapped hi = false) (hne : hi ≠ lo)
    (hlow : ∀ i c', K i c' → c'.1.mem lo = c.1.a)
    (hbody₁ : ∀ i < 256 * c.1.x.toNat + c.1.a.toNat, d.Rounds prog body₁
      (pagesEnd l₁ hi (countedLow l₂ l₃ l₄ body₂ lo rest)) K hi (c.1.mem hi) i)
    (hbody₂ : ∀ i < 256 * c.1.x.toNat + c.1.a.toNat, d.Rounds prog body₂
      (roundsEnd l₃ (.label l₄ :: rest)) K hi (c.1.mem hi) i)
    (hstart : K 0 ((Op.sta (.abs lo)).exec c.1, c.2)) :
  d.Leads prog (counted l₁ l₂ l₃ l₄ body₁ body₂ lo hi rest, c) fun q =>
    q.1 = rest ∧ K (256 * c.1.x.toNat + c.1.a.toNat) q.2
  := by
  have h₀ : AtRound K hi (c.1.mem hi) 0
      (run [.sta (.abs lo), .ldy (.imm 0), .cpx (.imm 0)] c.1, c.2) :=
    ⟨rfl, (Memory.store_of_ne hne).trans (BitVec.add_zero _).symm,
      hK _ ((Op.sta (.abs lo)).exec c.1, c.2) _ hstart rfl (Set.eqOn_refl _ _)⟩
  apply Leads.ram rfl hmapped
  apply Leads.internal rfl
  apply Leads.internal rfl
  by_cases hzero : c.1.x = 0
  · apply Leads.branch
    · apply beq_iff_eq.mpr
      apply (BitVec.sub_zero _).trans hzero
    rw [hcounted.goto₂, hzero]
    rw [hzero] at hbody₂
    apply countedLow_leads hK hcounted hmapped hlow hbody₂ h₀
  · apply Leads.noBranch
    · apply beq_eq_false_iff_ne.mpr
      apply (BitVec.sub_zero c.1.x).symm ▸ hzero
    rw [← hcounted.goto₁]
    apply (pages_leads hK hcounted.goto₁ hmapped' (fun i hi' => hbody₁ i (by omega)) c.1.x.isLt
      (by bv_omega) _ h₀).trans
    · rintro ⟨_, c'⟩ ⟨rfl, hround⟩
      apply countedLow_leads hK hcounted hmapped hlow hbody₂ hround
    · rw [Nat.zero_div, Nat.sub_zero, BitVec.ofNat_toNat, BitVec.setWidth_eq]
      rfl

end

end Device

end Counted

end Mos6502
