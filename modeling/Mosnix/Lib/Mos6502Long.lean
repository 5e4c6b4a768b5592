import Mosnix.Lib.Mos6502
import Mathlib.Data.Set.Function

/-!
# 32-bit arithmetic on the 6502

Programs for the 6502 compute with 32-bit values one byte at a time, from the low byte to the high
byte, with the carry between the bytes.  The bytes that a chain of additions, subtractions or
rotations leaves are those of the sum, the difference or the shifted value.

The bytes of a value may be anywhere in memory: a `Place` has the addresses of the four bytes.
-/

namespace Mos6502

/-! ### Values of four bytes -/

/-- The 32-bit value of four bytes. -/
def long (b₃ b₂ b₁ b₀ : BitVec 8) : BitVec 32 :=
  b₃ ++ b₂ ++ b₁ ++ b₀

theorem append_toNat {m n : ℕ} (x : BitVec m) (y : BitVec n) :
  (x ++ y).toNat = x.toNat * 2 ^ n + y.toNat
  := by
  rw [BitVec.toNat_append, ← Nat.shiftLeft_add_eq_or_of_lt y.isLt, Nat.shiftLeft_eq]

/-- The value of a number of four bytes. -/
theorem long_toNat (b₃ b₂ b₁ b₀ : BitVec 8) :
  (long b₃ b₂ b₁ b₀).toNat
    = b₃.toNat * 2 ^ 24 + b₂.toNat * 2 ^ 16 + b₁.toNat * 2 ^ 8 + b₀.toNat
  := by
  simp only [long, append_toNat]
  omega

theorem long_msb (b₃ b₂ b₁ b₀ : BitVec 8) : (long b₃ b₂ b₁ b₀).msb = b₃.msb := by
  rw [BitVec.msb_eq_decide, BitVec.msb_eq_decide, decide_eq_decide, long_toNat]
  omega

/-! ### Sums -/

/-- The sum of two bytes and a carry, with its own carry as the high bit. -/
def sum (a b : BitVec 8) (c : Bool) : BitVec 9 :=
  a.setWidth 9 + b.setWidth 9 + (BitVec.ofBool c).setWidth 9

/-- The sum of two bytes, with the carry. -/
theorem sum_toNat (a b : BitVec 8) (c : Bool) :
  ((sum a b c).setWidth 8).toNat + 2 ^ 8 * (sum a b c).msb.toNat = a.toNat + b.toNat + c.toNat
  := by
  have hsum : (sum a b c).toNat = a.toNat + b.toNat + c.toNat := by
    simp only [sum, BitVec.toNat_add, BitVec.toNat_setWidth, BitVec.toNat_ofBool]
    have := c.toNat_le
    omega
  rw [← hsum, BitVec.toNat_setWidth, BitVec.msb_eq_decide]
  have := (sum a b c).isLt
  by_cases h : 2 ^ 8 ≤ (sum a b c).toNat
  · simp only [Nat.add_one_sub_one, h, decide_true, Bool.toNat_true]
    omega
  · simp only [Nat.add_one_sub_one, h, decide_false, Bool.toNat_false]
    omega

/-- An addition with the carry clear. -/
theorem sum_add (a b : BitVec 8) : (sum a b false).setWidth 8 = a + b := by
  have h := sum_toNat a b false
  rw [Bool.toNat_false] at h
  bv_omega

/-- A subtraction with the carry set. -/
theorem sum_sub (a b : BitVec 8) : (sum a (~~~ b) true).setWidth 8 = a - b := by
  have h := sum_toNat a (~~~ b) true
  rw [Bool.toNat_true] at h
  bv_omega

/-- The sums of the bytes of two values, each with the carry of the one before. -/
def sums (a₃ a₂ a₁ a₀ b₃ b₂ b₁ b₀ : BitVec 8) (c : Bool) : BitVec 32 × Bool :=
  let s₀ := sum a₀ b₀ c
  let s₁ := sum a₁ b₁ s₀.msb
  let s₂ := sum a₂ b₂ s₁.msb
  let s₃ := sum a₃ b₃ s₂.msb
  (long (s₃.setWidth 8) (s₂.setWidth 8) (s₁.setWidth 8) (s₀.setWidth 8), s₃.msb)

section Sums

variable (a₃ a₂ a₁ a₀ b₃ b₂ b₁ b₀ : BitVec 8) (c : Bool)

/-- The sum of two numbers of four bytes, with the carry. -/
theorem sums_toNat :
  (sums a₃ a₂ a₁ a₀ b₃ b₂ b₁ b₀ c).1.toNat + 2 ^ 32 * (sums a₃ a₂ a₁ a₀ b₃ b₂ b₁ b₀ c).2.toNat
    = (long a₃ a₂ a₁ a₀).toNat + (long b₃ b₂ b₁ b₀).toNat + c.toNat
  := by
  simp only [sums, long_toNat]
  have h₀ := sum_toNat a₀ b₀ c
  have h₁ := sum_toNat a₁ b₁ (sum a₀ b₀ c).msb
  have h₂ := sum_toNat a₂ b₂ (sum a₁ b₁ (sum a₀ b₀ c).msb).msb
  have h₃ := sum_toNat a₃ b₃ (sum a₂ b₂ (sum a₁ b₁ (sum a₀ b₀ c).msb).msb).msb
  omega

/-- A chain of additions gives the sum of the values. -/
theorem sums_add :
  (sums a₃ a₂ a₁ a₀ b₃ b₂ b₁ b₀ false).1 = long a₃ a₂ a₁ a₀ + long b₃ b₂ b₁ b₀
  := by
  have h := sums_toNat a₃ a₂ a₁ a₀ b₃ b₂ b₁ b₀ false
  rw [Bool.toNat_false] at h
  bv_omega

/-- A chain of subtractions gives the difference of the values. -/
theorem sums_sub :
  (sums a₃ a₂ a₁ a₀ (~~~ b₃) (~~~ b₂) (~~~ b₁) (~~~ b₀) true).1
    = long a₃ a₂ a₁ a₀ - long b₃ b₂ b₁ b₀
  := by
  have h := sums_toNat a₃ a₂ a₁ a₀ (~~~ b₃) (~~~ b₂) (~~~ b₁) (~~~ b₀) true
  have hb := long_toNat b₃ b₂ b₁ b₀
  simp only [long_toNat, BitVec.toNat_not, Bool.toNat_true] at h
  have ha := long_toNat a₃ a₂ a₁ a₀
  bv_omega

/-- A chain of subtractions borrows unless the first value is at least the second. -/
theorem sums_sub_carry :
  (sums a₃ a₂ a₁ a₀ (~~~ b₃) (~~~ b₂) (~~~ b₁) (~~~ b₀) true).2
    = decide (long b₃ b₂ b₁ b₀ ≤ long a₃ a₂ a₁ a₀)
  := by
  have h := sums_toNat a₃ a₂ a₁ a₀ (~~~ b₃) (~~~ b₂) (~~~ b₁) (~~~ b₀) true
  have hb := long_toNat b₃ b₂ b₁ b₀
  have hsum := (sums a₃ a₂ a₁ a₀ (~~~ b₃) (~~~ b₂) (~~~ b₁) (~~~ b₀) true).1.isLt
  rw [long_toNat (~~~ b₃)] at h
  simp only [BitVec.toNat_not, Bool.toNat_true] at h
  cases hc : (sums a₃ a₂ a₁ a₀ (~~~ b₃) (~~~ b₂) (~~~ b₁) (~~~ b₀) true).2 with
  | false =>
      rw [hc, Bool.toNat_false] at h
      symm
      apply decide_eq_false
      bv_omega
  | true =>
      rw [hc, Bool.toNat_true] at h
      symm
      apply decide_eq_true
      bv_omega

/-! ### Comparisons -/

/-- Values are compared by their highest bytes that differ. -/
theorem long_lt_iff :
  long a₃ a₂ a₁ a₀ < long b₃ b₂ b₁ b₀
    ↔ a₃ < b₃ ∨ a₃ = b₃ ∧ (a₂ < b₂ ∨ a₂ = b₂ ∧ (a₁ < b₁ ∨ a₁ = b₁ ∧ a₀ < b₀))
  := by
  have ha := long_toNat a₃ a₂ a₁ a₀
  have hb := long_toNat b₃ b₂ b₁ b₀
  bv_omega

end Sums

/-! ### Rotations -/

/-- The bit that is shifted out has the weight 256. -/
theorem rotate_toNat (b : BitVec 8) (c : Bool) :
  (rotate b c).toNat + 2 ^ 8 * b.msb.toNat = 2 * b.toNat + c.toNat
  := by
  revert b c
  decide +kernel

/-- A chain of rotations shifts a value by one bit. -/
theorem long_rotate (b₃ b₂ b₁ b₀ : BitVec 8) :
  long (rotate b₃ b₂.msb) (rotate b₂ b₁.msb) (rotate b₁ b₀.msb) (rotate b₀ false)
    = long b₃ b₂ b₁ b₀ <<< 1
  := by
  have h₀ := rotate_toNat b₀ false
  have h₁ := rotate_toNat b₁ b₀.msb
  have h₂ := rotate_toNat b₂ b₁.msb
  have h₃ := rotate_toNat b₃ b₂.msb
  rw [Bool.toNat_false] at h₀
  apply BitVec.eq_of_toNat_eq
  rw [BitVec.toNat_shiftLeft, Nat.shiftLeft_eq, long_toNat, long_toNat]
  have := b₃.msb.toNat_le
  omega

/-! ### Instructions in sequence -/

/-- A store to an address that may change. -/
theorem store_eqOn {S : Set (BitVec 16)} {m m' : Memory} {a : BitVec 16} {b : BitVec 8}
    (h : Set.EqOn m' m Sᶜ) (ha : a ∈ S) :
  Set.EqOn (m'.store a b) m Sᶜ
  := by
  intro a' ha'
  have hne : a' ≠ a := by
    rintro rfl
    exact ha' ha
  rw [Memory.store_of_ne hne, h ha']

/-- The state after a sequence of instructions. -/
def run (ops : List Op) (cpu : Cpu) : Cpu :=
  ops.foldl Op.exec cpu

section Programs

variable {L : Type*} [DecidableEq L] {prog rest : List (Line L)} {cpu : Cpu} {l l' : L}
  {Q : List (Line L) × Cpu → Prop}

/-- Instructions one after the other. -/
theorem Leads.ops (ops : List Op) (h : Leads prog (rest, run ops cpu) Q) :
  Leads prog (ops.map Line.op ++ rest, cpu) Q
  := by
  induction ops generalizing cpu with
  | nil => exact h
  | cons o ops ih =>
      apply Leads.op
      apply ih h

/-- A comparison of the accumulator with a byte, which leaves when they differ. -/
theorem Leads.compare {m : Mode}
    (hlt : cpu.a < m.read cpu → Leads prog (goto prog l, (Op.cmp m).exec cpu) Q)
    (hgt : m.read cpu < cpu.a → Leads prog (goto prog l', (Op.cmp m).exec cpu) Q)
    (heq : cpu.a = m.read cpu → Leads prog (rest, (Op.cmp m).exec cpu) Q) :
  Leads prog (.op (.cmp m) :: .branch .cc l :: .branch .ne l' :: rest, cpu) Q
  := by
  apply Leads.op
  by_cases h : cpu.a < m.read cpu
  · apply Leads.branch _ (hlt h)
    simp only [Cond.holds, Op.exec, Cpu.compare, Bool.not_eq_true', decide_eq_false_iff_not]
    bv_omega
  apply Leads.noBranch
  · simp only [Cond.holds, Op.exec, Cpu.compare, Bool.not_eq_false', decide_eq_true_eq]
    bv_omega
  by_cases h' : cpu.a = m.read cpu
  · apply Leads.noBranch _ (heq h')
    simp [Cond.holds, Op.exec, Cpu.compare, Cpu.setNZ, h']
  · apply Leads.branch _ (hgt (by bv_omega))
    simp only [Cond.holds, Op.exec, Cpu.compare, Cpu.setNZ, Bool.not_eq_true', beq_eq_false_iff_ne]
    bv_omega

/-! ### Values in memory -/

/-- The addresses of the bytes of a 32-bit value. -/
structure Place where
  b₀ : BitVec 16
  b₁ : BitVec 16
  b₂ : BitVec 16
  b₃ : BitVec 16
  nodup : [b₀, b₁, b₂, b₃].Nodup

namespace Place

variable (p : Place) (cpu : Cpu)

/-- The addresses as a set. -/
def bytes : Set (BitVec 16) :=
  {p.b₀, p.b₁, p.b₂, p.b₃}

/-- The value in a memory. -/
def get (m : Memory) : BitVec 32 :=
  long (m p.b₃) (m p.b₂) (m p.b₁) (m p.b₀)

/-- The instructions that shift a value by one bit. -/
def shift : List Op :=
  [.asl (.abs p.b₀), .rol (.abs p.b₁), .rol (.abs p.b₂), .rol (.abs p.b₃)]

/-- A memory with the four bytes stored. -/
def store (m : Memory) (c₀ c₁ c₂ c₃ : BitVec 8) : Memory :=
  (((m.store p.b₀ c₀).store p.b₁ c₁).store p.b₂ c₂).store p.b₃ c₃

variable {m : Memory} {c₀ c₁ c₂ c₃ : BitVec 8}

theorem get_store : p.get (p.store m c₀ c₁ c₂ c₃) = long c₃ c₂ c₁ c₀ := by
  have h := p.nodup
  simp only [List.nodup_cons, List.mem_cons, List.not_mem_nil, not_or, or_false] at h
  simp [get, store, Memory.store, h]

theorem store_eqOn_bytes : Set.EqOn (p.store m c₀ c₁ c₂ c₃) m p.bytesᶜ := by
  apply store_eqOn (store_eqOn (store_eqOn (store_eqOn (Set.eqOn_refl _ _) _) _) _)
  all_goals simp [bytes]

/-- The memory after a shift by one bit. -/
theorem shift_mem :
  (run p.shift cpu).mem = p.store cpu.mem (rotate (cpu.mem p.b₀) false)
    (rotate (cpu.mem p.b₁) (cpu.mem p.b₀).msb) (rotate (cpu.mem p.b₂) (cpu.mem p.b₁).msb)
    (rotate (cpu.mem p.b₃) (cpu.mem p.b₂).msb)
  := by
  have h := p.nodup
  simp only [List.nodup_cons, List.mem_cons, List.not_mem_nil, not_or, or_false] at h
  obtain ⟨⟨h₀₁, h₀₂, h₀₃⟩, ⟨h₁₂, h₁₃⟩, h₂₃, -⟩ := h
  simp [run, shift, Op.exec, Cpu.setNZ, Mode.addr, Mode.read, store, Memory.store, Ne.symm h₀₁,
    Ne.symm h₀₂, Ne.symm h₀₃, Ne.symm h₁₂, Ne.symm h₁₃, Ne.symm h₂₃]

/-- The carry after the shift is the bit that was shifted out. -/
theorem shift_c : (run p.shift cpu).c = (p.get cpu.mem).msb := by
  have h := p.nodup
  simp only [List.nodup_cons, List.mem_cons, List.not_mem_nil, not_or, or_false] at h
  obtain ⟨⟨h₀₁, h₀₂, h₀₃⟩, ⟨h₁₂, h₁₃⟩, h₂₃, -⟩ := h
  rw [get, long_msb]
  simp [run, shift, Op.exec, Cpu.setNZ, Mode.addr, Mode.read, Memory.store, Ne.symm h₀₃,
    Ne.symm h₁₃, Ne.symm h₂₃]

/-- The value with its low byte stored. -/
theorem get_store_b₀ : p.get (m.store p.b₀ c₀) = long (m p.b₃) (m p.b₂) (m p.b₁) c₀ := by
  have h := p.nodup
  simp only [List.nodup_cons, List.mem_cons, List.not_mem_nil, not_or, or_false] at h
  simp [get, Memory.store, Ne.symm h.1.1, Ne.symm h.1.2.1, Ne.symm h.1.2.2]

/-- The instructions shift the value. -/
theorem get_shift : p.get (run p.shift cpu).mem = p.get cpu.mem <<< 1 := by
  rw [shift_mem, get_store]
  apply long_rotate

theorem shift_eqOn : Set.EqOn (run p.shift cpu).mem cpu.mem p.bytesᶜ := by
  rw [shift_mem]
  apply store_eqOn_bytes

/-! ### Shifts by a count -/

/-- A loop that shifts a value by the number of bits in `X`. -/
def shiftLoop (l : L) : List (Line L) :=
  .label l :: (p.shift.map Line.op ++ [.op .dex, .branch .ne l])

omit [DecidableEq L] in
theorem shiftLoop_append :
  p.shiftLoop l ++ rest
    = .label l :: (p.shift.map Line.op ++ .op .dex :: .branch .ne l :: rest)
  := rfl

/-- The memory `m'` has the value shifted by `n` bits, and differs from `m` in no other byte. -/
structure Shifted (n : ℕ) (m m' : Memory) : Prop where
  get_eq : p.get m' = p.get m <<< n
  eqOn : Set.EqOn m' m p.bytesᶜ

variable {p cpu}

/-- Shifts one after the other. -/
theorem Shifted.trans {i j : ℕ} {m m' m'' : Memory} (h : p.Shifted i m m')
    (h' : p.Shifted j m' m'') :
  p.Shifted (i + j) m m''
  where
  get_eq := by rw [h'.get_eq, h.get_eq, BitVec.shiftLeft_add]
  eqOn := h'.eqOn.trans h.eqOn

/-- One round of the loop. -/
theorem shifted_round : p.Shifted 1 cpu.mem (run p.shift cpu).mem where
  get_eq := p.get_shift cpu
  eqOn := p.shift_eqOn cpu

/-- The loop ends, with the value shifted by the count. -/
theorem shiftLoop_leads (hgoto : goto prog l = p.shiftLoop l ++ rest) (hx : cpu.x ≠ 0) :
  Leads prog (goto prog l, cpu) fun q =>
    q.1 = rest ∧ q.2.s = cpu.s ∧ p.Shifted cpu.x.toNat cpu.mem q.2.mem
  := by
  obtain ⟨n, hn⟩ : ∃ n, cpu.x.toNat = n + 1 := Nat.exists_eq_succ_of_ne_zero (by bv_omega)
  induction n generalizing cpu with
  | zero =>
      rw [hgoto, hn, shiftLoop_append]
      apply Leads.label
      apply Leads.ops
      apply Leads.op
      apply Leads.noBranch
      · have hx' : cpu.x - 1 = 0 := by bv_omega
        simp only [Cond.holds, Op.exec, Cpu.setNZ, Bool.not_eq_false', beq_iff_eq]
        exact hx'
      · apply Leads.refl
        exact ⟨rfl, rfl, shifted_round⟩
  | succ n ih =>
      have hx' : cpu.x - 1 ≠ 0 := by bv_omega
      rw [hgoto, shiftLoop_append]
      apply Leads.label
      apply Leads.ops
      apply Leads.op
      apply Leads.branch
      · simp only [Cond.holds, Op.exec, Cpu.setNZ, Bool.not_eq_true', beq_eq_false_iff_ne]
        exact hx'
      · have hcount : (cpu.x - 1).toNat = n + 1 := by bv_omega
        apply (@ih (Op.dex.exec (run p.shift cpu)) hx' hcount).trans
        rintro q ⟨hq, hs, hshifted⟩
        apply Leads.refl
        refine ⟨hq, hs, ?_⟩
        have htotal : cpu.x.toNat = 1 + (cpu.x - 1).toNat := by omega
        rw [htotal]
        apply shifted_round.trans hshifted

/-- A value shifted by a count `n` that is tested before the loop; the instructions `ops` move it to
`X`. -/
theorem shiftBy_leads {n : BitVec 8} (ops : List Op)
    (hgoto : goto prog l = p.shiftLoop l ++ .label l' :: rest)
    (hgoto' : goto prog l' = .label l' :: rest) (hz : cpu.z = (n == 0)) (hx : (run ops cpu).x = n)
    (hs : (run ops cpu).s = cpu.s) (hmem : (run ops cpu).mem = cpu.mem) :
  Leads prog (.branch .eq l' :: (ops.map Line.op ++ (p.shiftLoop l ++ .label l' :: rest)), cpu)
    fun q => q.1 = rest ∧ q.2.s = cpu.s ∧ p.Shifted n.toNat cpu.mem q.2.mem
  := by
  by_cases hn : n = 0
  · apply Leads.branch
    · rw [Cond.holds, hz, hn, beq_self_eq_true]
    · rw [hgoto']
      apply Leads.label
      apply Leads.refl
      rw [hn]
      exact ⟨rfl, rfl, (BitVec.shiftLeft_zero _).symm, fun _ _ => rfl⟩
  · apply Leads.noBranch
    · rw [Cond.holds, hz, beq_eq_false_iff_ne]
      exact hn
    · apply Leads.ops
      rw [← hx] at hn
      rw [← hgoto, ← hx, ← hs, ← hmem]
      apply (shiftLoop_leads hgoto hn).trans
      rintro ⟨_, cpu'⟩ ⟨rfl, hq⟩
      apply Leads.label
      apply Leads.refl
      exact ⟨rfl, hq⟩

end Place

end Programs

end Mos6502
