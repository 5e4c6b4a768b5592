import Mosnix.Lib.LongDivision
import Mosnix.Lib.Mos6502Long
import Mosnix.Shell.Print

/-!
# Division by 10

The routine `div10` of `div10.S`.  It shifts a value of 32 bits, one bit at a time, into `A`, from which
it subtracts 10 when it can.  The instruction that should set `A` to 0 before the first shift is
followed by a load to `A`, so that the division starts with the high byte of the value in `A`, and is
wrong unless that byte is 0 or 128 (`div10_iff`).
-/

namespace Mosnix.Shell

open Mos6502 LongDivision

/-- The address of the imaginary registers, which the linker assigns. -/
structure Link where
  rc0 : Byte
  rc0_le : rc0.toNat + 32 ≤ 0x100

/-- The labels of the routine. -/
inductive Label where
  | div10Loop
  | div10ZeroBit
  deriving DecidableEq

namespace Link

variable (k : Link)

/-- The zero page address of the imaginary register `__rc<i>`. -/
def zp (i : ℕ) : Byte :=
  k.rc0 + BitVec.ofNat 8 i

/-- The address of the imaginary register `__rc<i>`. -/
def rc (i : ℕ) : Word :=
  (k.zp i).setWidth 16

/-- An imaginary register as an operand. -/
def reg (i : ℕ) : Mode := .abs (k.rc i)

/-- The operand `(__rc2),y`. -/
def valueY : Mode := .indY (k.zp 2)

/-! ### The code -/

/-- The copy of the value to the registers `rc4:rc5:rc6:rc7`. -/
def load : List Op :=
  [ .ldy (.imm 0),
    .tya,
    .lda k.valueY,
    .sta (k.reg 4),
    .iny,
    .lda k.valueY,
    .sta (k.reg 5),
    .iny,
    .lda k.valueY,
    .sta (k.reg 6),
    .iny,
    .lda k.valueY,
    .sta (k.reg 7) ]

/-- The loop over the bits. -/
def loop : List (Line Label) :=
  [ .label .div10Loop,
    .op (.asl (k.reg 4)),
    .op (.rol (k.reg 5)),
    .op (.rol (k.reg 6)),
    .op (.rol (k.reg 7)),
    .op .rolA,
    .op (.cmp (.imm 10)),
    .branch .cc .div10ZeroBit,
    .op (.sbc (.imm 10)),
    .op (.inc (k.reg 4)),
    .label .div10ZeroBit,
    .op .dey,
    .branch .ne .div10Loop ]

/-- The copy of the registers back to the value. -/
def save : List Op :=
  [ .pha,
    .lda (k.reg 4),
    .sta k.valueY,
    .iny,
    .lda (k.reg 5),
    .sta k.valueY,
    .iny,
    .lda (k.reg 6),
    .sta k.valueY,
    .iny,
    .lda (k.reg 7),
    .sta k.valueY,
    .pla ]

/-- `div10` -/
def div10 : List (Line Label) :=
  k.load.map .op ++ .op (.ldy (.imm 32)) :: (k.loop ++ (k.save.map .op ++ [.rts]))

/-! ### Addresses -/

theorem rc_toNat {i : ℕ} (hi : i < 32) : (k.rc i).toNat = k.rc0.toNat + i := by
  have hle := k.rc0_le
  rw [rc, zp]
  bv_omega

theorem rc_ne {i j : ℕ} (hi : i < 32) (hj : j < 32) (hij : i ≠ j) : k.rc i ≠ k.rc j := by
  intro heq
  have htoNat := congrArg BitVec.toNat heq
  rw [k.rc_toNat hi, k.rc_toNat hj] at htoNat
  omega

/-- The value in the registers `rc4:rc5:rc6:rc7`. -/
def work : Place where
  b₀ := k.rc 4
  b₁ := k.rc 5
  b₂ := k.rc 6
  b₃ := k.rc 7
  nodup := by simp [k.rc_ne]

/-- The pointer `value`. -/
def ptr (m : Memory) : Word :=
  m (k.rc 3) ++ m (k.rc 2)

end Link

/-- The value of four bytes at an address. -/
def valueAt (p : Word) : Place where
  b₀ := p
  b₁ := p + 1
  b₂ := p + 2
  b₃ := p + 3
  nodup := by simp

/-- The value at `p` does not overlap the registers that the routine uses, or its byte on the stack. -/
structure Link.Apart (k : Link) (p : Word) (s : Byte) : Prop where
  reg : ∀ j < 4, ∀ i, 2 ≤ i → i < 8 → p + BitVec.ofNat 16 j ≠ k.rc i
  stack : ∀ j < 4, p + BitVec.ofNat 16 j ≠ Cpu.stackAddr s

section

variable {k : Link} {cpu : Cpu}

/-! ### The copies -/

theorem Link.valueY_addr (k : Link) (cpu : Cpu) :
  k.valueY.addr cpu = k.ptr cpu.mem + cpu.y.setWidth 16
  := by
  have hzp : k.zp 2 + 1 = k.zp 3 := BitVec.add_assoc _ _ _
  rw [valueY, Mode.addr, hzp]
  rfl

theorem Link.valueY_read (k : Link) (cpu : Cpu) :
  k.valueY.read cpu = cpu.mem (k.ptr cpu.mem + cpu.y.setWidth 16)
  := by
  rw [← k.valueY_addr]
  rfl

/-- The dividend is in four registers. -/
theorem Link.work_bytes {y : Word} (k : Link) :
  y ∈ k.work.bytes ↔ ∃ i < 4, y = k.rc (4 + i)
  := by
  constructor
  · rintro (rfl | rfl | rfl | rfl)
    · exact ⟨0, by decide, rfl⟩
    · exact ⟨1, by decide, rfl⟩
    · exact ⟨2, by decide, rfl⟩
    · exact ⟨3, by decide, rfl⟩
  · rintro ⟨i, hi, rfl⟩
    interval_cases i
    · exact .inl rfl
    · exact .inr (.inl rfl)
    · exact .inr (.inr (.inl rfl))
    · exact .inr (.inr (.inr rfl))

/-- The dividend is not part of the pointer. -/
theorem Link.ptr_of_eqOn (k : Link) {m m' : Memory} (h : Set.EqOn m' m k.work.bytesᶜ) :
  k.ptr m' = k.ptr m
  := by
  have hreg (i : ℕ) (hi : i < 4) : k.rc i ∈ k.work.bytesᶜ := by
    rw [Set.mem_compl_iff, k.work_bytes]
    rintro ⟨j, hj, heq⟩
    exact k.rc_ne (by omega) (by omega) (by omega) heq
  rw [ptr, ptr, h (hreg 2 (by decide)), h (hreg 3 (by decide))]

/-- A byte of the value is not in a register. -/
theorem Link.Apart.notMem_work {p : Word} {s : Byte} (h : k.Apart p s) {j : ℕ} (hj : j < 4) :
  p + BitVec.ofNat 16 j ∈ k.work.bytesᶜ
  := by
  rw [Set.mem_compl_iff, k.work_bytes]
  rintro ⟨i, hi, heq⟩
  exact h.reg j hj (4 + i) (by omega) (by omega) heq

/-- The state after `n` bytes of the value in the memory `m` were copied to the registers. -/
structure Link.Loaded (k : Link) (m : Memory) (s : Byte) (n : ℕ) (y : Byte) (cpu : Cpu) : Prop where
  y_eq : cpu.y = y
  s_eq : cpu.s = s
  frame : Set.EqOn cpu.mem m k.work.bytesᶜ
  loaded : ∀ i < n, cpu.mem (k.rc (4 + i)) = m (k.ptr m + BitVec.ofNat 16 i)

theorem setWidth_ofNat {n : ℕ} (hn : n < 256) :
  (BitVec.ofNat 8 n).setWidth 16 = BitVec.ofNat 16 n
  := by
  apply BitVec.eq_of_toNat_eq
  simp
  omega

variable {m : Memory} {s y : Byte} {n : ℕ}

theorem Link.Loaded.iny (h : k.Loaded m s (n + 1) (BitVec.ofNat 8 n) cpu) :
  k.Loaded m s (n + 1) (BitVec.ofNat 8 (n + 1)) (run [.iny] cpu)
  where
  y_eq := by rw [BitVec.ofNat_add, ← h.y_eq]; rfl
  s_eq := h.s_eq
  frame := h.frame
  loaded := h.loaded

/-- The instructions that copy a byte of the value to a register. -/
def Link.loadByte (k : Link) (i : ℕ) : List Op :=
  [.lda k.valueY, .sta (k.reg (4 + i))]

theorem Link.run_loadByte (k : Link) (i : ℕ) (cpu : Cpu) :
  (run (k.loadByte i) cpu).a = k.valueY.read cpu ∧ (run (k.loadByte i) cpu).y = cpu.y
    ∧ (run (k.loadByte i) cpu).s = cpu.s
    ∧ (run (k.loadByte i) cpu).mem = cpu.mem.store (k.rc (4 + i)) (k.valueY.read cpu)
  :=
  ⟨rfl, rfl, rfl, rfl⟩

/-- The next byte is copied. -/
theorem Link.Loaded.byte (h : k.Loaded m s n (BitVec.ofNat 8 n) cpu) {s' : Byte}
    (hapart : k.Apart (k.ptr m) s') (hn : n < 4) :
  k.Loaded m s (n + 1) (BitVec.ofNat 8 n) (run (k.loadByte n) cpu)
    ∧ (run (k.loadByte n) cpu).a = m (k.ptr m + BitVec.ofNat 16 n)
  := by
  have hread : k.valueY.read cpu = m (k.ptr m + BitVec.ofNat 16 n) := by
    rw [k.valueY_read, h.y_eq, k.ptr_of_eqOn h.frame, setWidth_ofNat (by omega),
      h.frame (hapart.notMem_work hn)]
  obtain ⟨ha, hy, hs, hmem⟩ := k.run_loadByte n cpu
  rw [hread] at ha hmem
  refine ⟨⟨hy.trans h.y_eq, hs.trans h.s_eq, ?_, ?_⟩, ha⟩
  · rw [hmem]
    apply store_eqOn h.frame
    rw [k.work_bytes]
    exact ⟨n, hn, rfl⟩
  · intro i hi
    rw [hmem]
    obtain rfl | hlt := Nat.eq_or_lt_of_le (Nat.le_of_lt_succ hi)
    · apply Memory.store_self
    · rw [Memory.store_of_ne (k.rc_ne (by omega) (by omega) (by omega)), h.loaded i hlt]

/-- The copy to the registers, which leaves the high byte of the value in `A`. -/
theorem Link.load_spec (k : Link) (hapart : k.Apart (k.ptr cpu.mem) cpu.s) :
  k.Loaded cpu.mem cpu.s 4 (BitVec.ofNat 8 3) (run k.load cpu)
    ∧ (run k.load cpu).a = cpu.mem (k.ptr cpu.mem + BitVec.ofNat 16 3)
  := by
  have h₀ : k.Loaded cpu.mem cpu.s 0 (BitVec.ofNat 8 0) (run [.ldy (.imm 0), .tya] cpu) :=
    ⟨rfl, rfl, Set.eqOn_refl _ _, fun i hi => absurd hi (Nat.not_lt_zero i)⟩
  have h₁ := (h₀.byte hapart (by decide)).1.iny
  have h₂ := (h₁.byte hapart (by decide)).1.iny
  have h₃ := (h₂.byte hapart (by decide)).1.iny
  have hload : run k.load cpu = run (k.loadByte 3) (run [.iny] (run (k.loadByte 2) (run [.iny]
      (run (k.loadByte 1) (run [.iny] (run (k.loadByte 0) (run [.ldy (.imm 0), .tya] cpu))))))) := by
    simp only [run, Link.load, Link.loadByte, List.foldl_cons, List.foldl_nil]
  rw [hload]
  apply h₃.byte hapart (by decide)

/-- The number that is loaded. -/
theorem Link.Loaded.get_eq (h : k.Loaded m s 4 y cpu) :
  k.work.get cpu.mem = (valueAt (k.ptr m)).get m
  := by
  have h₀ := h.loaded 0 (by decide)
  rw [BitVec.add_zero] at h₀
  exact congrArg₂ (· ++ ·) (congrArg₂ (· ++ ·) (congrArg₂ (· ++ ·) (h.loaded 3 (by decide))
    (h.loaded 2 (by decide))) (h.loaded 1 (by decide))) h₀

/-! ### The loop -/

/-- A bit shifted into the remainder in `A`: the remainder after it, and the bit of the quotient. -/
def divBit (a : Byte) (b : Bool) : Byte × Bool :=
  if rotate a b < 10 then (rotate a b, false) else (rotate a b - 10, true)

/-- The instructions before the branch. -/
def Link.shiftOps (k : Link) : List Op :=
  k.work.shift ++ [.rolA, .cmp (.imm 10)]

theorem Link.run_shiftOps (k : Link) (cpu : Cpu) :
  run k.shiftOps cpu = (Op.cmp (.imm 10)).exec (Op.rolA.exec (run k.work.shift cpu))
  := by
  simp only [run, Link.shiftOps, List.foldl_append, List.foldl_cons, List.foldl_nil]

theorem Link.run_shift (k : Link) (cpu : Cpu) :
  (run k.work.shift cpu).a = cpu.a ∧ (run k.work.shift cpu).y = cpu.y
    ∧ (run k.work.shift cpu).s = cpu.s
  :=
  ⟨rfl, rfl, rfl⟩

/-- The state after a bit is shifted into `A`. -/
theorem Link.shiftOps_spec (k : Link) (cpu : Cpu) :
  (run k.shiftOps cpu).a = rotate cpu.a (k.work.get cpu.mem).msb
    ∧ (run k.shiftOps cpu).c = decide (10 ≤ rotate cpu.a (k.work.get cpu.mem).msb)
    ∧ (run k.shiftOps cpu).y = cpu.y ∧ (run k.shiftOps cpu).s = cpu.s
    ∧ (run k.shiftOps cpu).mem = (run k.work.shift cpu).mem
  := by
  obtain ⟨ha, hy, hs⟩ := k.run_shift cpu
  have hc := k.work.shift_c cpu
  rw [k.run_shiftOps]
  generalize run k.work.shift cpu = cpu₁ at *
  simp only [Op.exec, Cpu.compare, Cpu.setNZ, Mode.read, ha, hc, hy, hs, and_self]

/-- The subtraction of 10, and the bit of the quotient. -/
def Link.subtractOps (k : Link) : List Op :=
  [.sbc (.imm 10), .inc (k.reg 4)]

/-- The divisor is subtracted from the remainder. -/
theorem Link.subtractOps_spec (k : Link) (hc : cpu.c = true) :
  (run k.subtractOps cpu).a = cpu.a - 10 ∧ (run k.subtractOps cpu).y = cpu.y
    ∧ (run k.subtractOps cpu).s = cpu.s
    ∧ (run k.subtractOps cpu).mem = cpu.mem.store (k.rc 4) (cpu.mem (k.rc 4) + 1)
  := by
  refine ⟨?_, rfl, rfl, rfl⟩
  have hsum : (run k.subtractOps cpu).a = (sum cpu.a (~~~ 10) cpu.c).setWidth 8 := rfl
  rw [hsum, hc, sum_sub]

/-- The low byte of a value that is even is incremented. -/
theorem Link.get_inc (k : Link) {m : Memory} (heven : (k.work.get m).toNat % 2 = 0) :
  (k.work.get (m.store (k.rc 4) (m (k.rc 4) + 1))).toNat = (k.work.get m).toNat + 1
  := by
  have hget : k.work.get (m.store (k.rc 4) (m (k.rc 4) + 1))
      = Mos6502.long (m (k.rc 7)) (m (k.rc 6)) (m (k.rc 5)) (m (k.rc 4) + 1) :=
    k.work.get_store_b₀
  have hget' : k.work.get m
      = Mos6502.long (m (k.rc 7)) (m (k.rc 6)) (m (k.rc 5)) (m (k.rc 4)) := rfl
  rw [hget'] at heven ⊢
  rw [hget, long_toNat, long_toNat] at *
  bv_omega

/-- The state after the bits `qs` of the quotient were found; the bits of the value that are left are
`bs`. -/
structure Link.Dividing (k : Link) (m : Memory) (s : Byte) (a : Byte) (bs qs : List Bool)
    (cpu : Cpu) : Prop where
  a_eq : cpu.a = a
  y_eq : cpu.y = BitVec.ofNat 8 bs.length
  s_eq : cpu.s = s
  frame : Set.EqOn cpu.mem m k.work.bytesᶜ
  work_eq : (k.work.get cpu.mem).toNat = value (bs ++ qs)
  length_eq : bs.length + qs.length = 32

/-- The next bit of the dividend is shifted out. -/
theorem Link.Dividing.msb {a : Byte} {b : Bool} {bs qs : List Bool}
    (h : k.Dividing m s a (b :: bs) qs cpu) :
  (k.work.get cpu.mem).msb = b
    ∧ (k.work.get (run k.work.shift cpu).mem).toNat = 2 * value (bs ++ qs)
  := by
  have hlength := h.length_eq
  have hvalue := h.work_eq
  rw [List.length_cons] at hlength
  have hlt := value_lt (bs ++ qs)
  have hpow : (bs ++ qs).length = 31 := by
    rw [List.length_append]
    omega
  rw [List.cons_append, value, hpow] at hvalue
  rw [hpow] at hlt
  constructor
  · rw [BitVec.msb_eq_decide, hvalue]
    cases b with
    | false => simpa using hlt
    | true => simp
  · rw [k.work.get_shift, BitVec.toNat_shiftLeft, hvalue, Nat.shiftLeft_eq]
    have := b.toNat_le
    omega

section

variable {a : Byte} {b : Bool} {bs qs : List Bool} (h : k.Dividing m s a (b :: bs) qs cpu)

include h

theorem Link.Dividing.y_dey : cpu.y - 1 = BitVec.ofNat 8 bs.length := by
  have hlength := h.length_eq
  rw [List.length_cons] at hlength
  rw [h.y_eq, List.length_cons]
  bv_omega

theorem Link.Dividing.length_snoc (q : Bool) : bs.length + (qs ++ [q]).length = 32 := by
  have hlength := h.length_eq
  rw [List.length_cons] at hlength
  rw [List.length_append, List.length_singleton]
  omega

/-- A bit of the quotient that is 0. -/
theorem Link.Dividing.zeroBit (hlt : rotate a b < 10) :
  k.Dividing m s (divBit a b).1 bs (qs ++ [(divBit a b).2]) (Op.dey.exec (run k.shiftOps cpu))
  := by
  obtain ⟨ha, -, hy, hs, hmem⟩ := k.shiftOps_spec cpu
  obtain ⟨hmsb, hvalue⟩ := h.msb
  generalize run k.shiftOps cpu = cpu₁ at *
  rw [divBit, if_pos hlt]
  refine ⟨?_, ?_, hs.trans h.s_eq, ?_, ?_, h.length_snoc _⟩
  · apply ha.trans
    rw [hmsb, h.a_eq]
  · apply Eq.trans (congrArg (· - 1) hy)
    apply h.y_dey
  · apply Set.EqOn.trans _ h.frame
    apply Set.EqOn.trans (fun x _ => congrFun hmem x) (k.work.shift_eqOn cpu)
  · apply Eq.trans (congrArg (fun m => (k.work.get m).toNat) hmem)
    rw [hvalue, ← List.append_assoc, value_snoc, Bool.toNat_false, Nat.add_zero]

/-- A bit of the quotient that is 1. -/
theorem Link.Dividing.oneBit (hle : 10 ≤ rotate a b) :
  k.Dividing m s (divBit a b).1 bs (qs ++ [(divBit a b).2])
    (Op.dey.exec (run k.subtractOps (run k.shiftOps cpu)))
  := by
  obtain ⟨ha, hc, hy, hs, hmem⟩ := k.shiftOps_spec cpu
  obtain ⟨hmsb, hvalue⟩ := h.msb
  rw [hmsb, h.a_eq] at ha hc
  obtain ⟨ha', hy', hs', hmem'⟩ := k.subtractOps_spec (hc.trans (decide_eq_true hle))
  rw [hmem] at hmem'
  generalize run k.shiftOps cpu = cpu₁ at *
  generalize run k.subtractOps cpu₁ = cpu₂ at *
  rw [divBit, if_neg (BitVec.not_lt.mpr hle)]
  refine ⟨?_, ?_, (hs'.trans hs).trans h.s_eq, ?_, ?_, h.length_snoc _⟩
  · apply ha'.trans
    rw [ha]
  · apply Eq.trans (congrArg (· - 1) (hy'.trans hy))
    apply h.y_dey
  · apply Set.EqOn.trans (fun x _ => congrFun hmem' x)
    apply store_eqOn ((k.work.shift_eqOn cpu).trans h.frame)
    exact .inl rfl
  · apply Eq.trans (congrArg (fun m => (k.work.get m).toNat) hmem')
    rw [k.get_inc (by omega), hvalue, ← List.append_assoc, value_snoc, Bool.toNat_true]

end

theorem Link.loop_append (k : Link) (rest : List (Line Label)) :
  k.loop ++ rest = .label .div10Loop :: (k.shiftOps.map .op ++ .branch .cc .div10ZeroBit
    :: (k.subtractOps.map .op ++ .label .div10ZeroBit :: .op .dey :: .branch .ne .div10Loop :: rest))
  := rfl

/-- One round of the loop, up to the branch at its end. -/
theorem Link.round_leads {prog rest : List (Line Label)} {a : Byte} {b : Bool} {bs qs : List Bool}
    {Q : List (Line Label) × Cpu → Prop}
    (hgoto : goto prog .div10ZeroBit
      = .label .div10ZeroBit :: .op .dey :: .branch .ne .div10Loop :: rest)
    (h : k.Dividing m s a (b :: bs) qs cpu)
    (hQ : ∀ cpu', cpu'.z = (cpu'.y == 0) →
      k.Dividing m s (divBit a b).1 bs (qs ++ [(divBit a b).2]) cpu' →
      Leads prog (.branch .ne .div10Loop :: rest, cpu') Q) :
  Leads prog (k.loop ++ rest, cpu) Q
  := by
  have hc : (run k.shiftOps cpu).c = decide (10 ≤ rotate a b) := by
    rw [(k.shiftOps_spec cpu).2.1, h.msb.1, h.a_eq]
  rw [k.loop_append]
  apply Leads.label
  apply Leads.ops
  by_cases hlt : rotate a b < 10
  · apply Leads.branch
    · rw [Cond.holds, hc, decide_eq_false (BitVec.not_le.mpr hlt), Bool.not_false]
    rw [hgoto]
    apply Leads.label
    apply Leads.op
    apply hQ _ rfl (h.zeroBit hlt)
  · have hle := BitVec.not_lt.mp hlt
    apply Leads.noBranch
    · rw [Cond.holds, hc, decide_eq_true hle, Bool.not_true]
    apply Leads.ops
    apply Leads.label
    apply Leads.op
    apply hQ _ rfl (h.oneBit hle)

/-- The loop reads the bits of the value, and leaves the quotient and the remainder. -/
theorem Link.loop_leads {prog rest : List (Line Label)} {a : Byte} {b : Bool} {bs qs : List Bool}
    (hgoto : goto prog .div10Loop = k.loop ++ rest)
    (hgoto' : goto prog .div10ZeroBit
      = .label .div10ZeroBit :: .op .dey :: .branch .ne .div10Loop :: rest)
    (h : k.Dividing m s a (b :: bs) qs cpu) :
  Leads prog (k.loop ++ rest, cpu) fun q =>
    q.1 = rest ∧ k.Dividing m s (scan divBit a (b :: bs)).1 [] (qs ++ (scan divBit a (b :: bs)).2) q.2
  := by
  induction bs generalizing cpu a b qs with
  | nil =>
      apply k.round_leads hgoto' h
      intro cpu' hz h'
      apply Leads.noBranch
      · rw [Cond.holds, hz, h'.y_eq]
        rfl
      · apply Leads.refl
        exact ⟨rfl, h'⟩
  | cons b' bs ih =>
      apply k.round_leads hgoto' h
      intro cpu' hz h'
      apply Leads.branch
      · have hlength := h'.length_eq
        rw [Cond.holds, hz, h'.y_eq, List.length_cons, Bool.not_eq_true', beq_eq_false_iff_ne]
        rw [List.length_cons] at hlength
        bv_omega
      · rw [hgoto]
        have hih := ih h'
        rw [List.append_assoc] at hih
        exact hih

/-! ### The copy back -/

/-- The addresses that the copy back changes. -/
def savedBytes (p : Word) (s : Byte) : Set Word :=
  insert (Cpu.stackAddr s) {x | ∃ i < 4, x = p + BitVec.ofNat 16 i}

/-- The state after `n` bytes were copied from the registers of the memory `m` to the value at `p`, with
`a` on the stack. -/
structure Link.Saved (k : Link) (m : Memory) (p : Word) (s a : Byte) (n : ℕ) (y : Byte) (cpu : Cpu) :
    Prop where
  y_eq : cpu.y = y
  s_eq : cpu.s = s - 1
  pushed : cpu.mem (Cpu.stackAddr s) = a
  frame : Set.EqOn cpu.mem m (savedBytes p s)ᶜ
  saved : ∀ i < n, cpu.mem (p + BitVec.ofNat 16 i) = m (k.rc (4 + i))

theorem Link.rc_ne_stackAddr (k : Link) (i : ℕ) (s : Byte) : k.rc i ≠ Cpu.stackAddr s := by
  rw [rc, Cpu.stackAddr]
  bv_omega

section

variable {p : Word} {a : Byte}

/-- A register is not changed by the copy back. -/
theorem Link.Apart.notMem_saved (h : k.Apart p s) {i : ℕ} (hi : 2 ≤ i) (hi' : i < 8) :
  k.rc i ∈ (savedBytes p s)ᶜ
  := by
  rintro (heq | ⟨j, hj, heq⟩)
  · exact k.rc_ne_stackAddr i s heq
  · exact h.reg j hj i hi hi' heq.symm

theorem Link.Saved.iny (h : k.Saved m p s a (n + 1) (BitVec.ofNat 8 n) cpu) :
  k.Saved m p s a (n + 1) (BitVec.ofNat 8 (n + 1)) (run [.iny] cpu)
  where
  y_eq := by rw [BitVec.ofNat_add, ← h.y_eq]; rfl
  s_eq := h.s_eq
  pushed := h.pushed
  frame := h.frame
  saved := h.saved

/-- The instructions that copy a register to a byte of the value. -/
def Link.saveByte (k : Link) (i : ℕ) : List Op :=
  [.lda (k.reg (4 + i)), .sta k.valueY]

theorem Link.run_saveByte (k : Link) (i : ℕ) (cpu : Cpu) :
  (run (k.saveByte i) cpu).y = cpu.y ∧ (run (k.saveByte i) cpu).s = cpu.s
    ∧ (run (k.saveByte i) cpu).mem
      = cpu.mem.store (k.ptr cpu.mem + cpu.y.setWidth 16) (cpu.mem (k.rc (4 + i)))
  := by
  rw [← k.valueY_addr]
  exact ⟨rfl, rfl, rfl⟩

/-- The next byte is copied back. -/
theorem Link.Saved.byte (h : k.Saved m p s a n (BitVec.ofNat 8 n) cpu) (hp : k.ptr m = p)
    (hapart : k.Apart p s) (hn : n < 4) :
  k.Saved m p s a (n + 1) (BitVec.ofNat 8 n) (run (k.saveByte n) cpu)
  := by
  obtain ⟨hy, hs, hmem⟩ := k.run_saveByte n cpu
  have hreg {i : ℕ} (hi : 2 ≤ i) (hi' : i < 8) : cpu.mem (k.rc i) = m (k.rc i) :=
    h.frame (hapart.notMem_saved hi hi')
  have hptr : k.ptr cpu.mem = p := by
    rw [← hp, ptr, ptr, hreg (by decide) (by decide), hreg (by decide) (by decide)]
  rw [hptr, h.y_eq, setWidth_ofNat (by omega), hreg (by omega) (by omega)] at hmem
  refine ⟨hy.trans h.y_eq, hs.trans h.s_eq, ?_, ?_, ?_⟩
  · rw [hmem, Memory.store_of_ne (hapart.stack n hn).symm, h.pushed]
  · rw [hmem]
    apply store_eqOn h.frame
    exact .inr ⟨n, hn, rfl⟩
  · intro i hi
    rw [hmem]
    obtain rfl | hlt := Nat.eq_or_lt_of_le (Nat.le_of_lt_succ hi)
    · apply Memory.store_self
    · rw [Memory.store_of_ne (by bv_omega), h.saved i hlt]

/-- The copy back, with the remainder in `A` again at its end. -/
theorem Link.save_spec (hapart : k.Apart (k.ptr cpu.mem) cpu.s) (hy : cpu.y = 0) :
  (run k.save cpu).a = cpu.a ∧ (run k.save cpu).s = cpu.s
    ∧ (valueAt (k.ptr cpu.mem)).get (run k.save cpu).mem = k.work.get cpu.mem
    ∧ Set.EqOn (run k.save cpu).mem cpu.mem (savedBytes (k.ptr cpu.mem) cpu.s)ᶜ
  := by
  have h₀ : k.Saved cpu.mem (k.ptr cpu.mem) cpu.s cpu.a 0 (BitVec.ofNat 8 0) (run [.pha] cpu) :=
    ⟨hy, rfl, Memory.store_self, store_eqOn (Set.eqOn_refl _ _) (.inl rfl),
      fun i hi => absurd hi (Nat.not_lt_zero i)⟩
  have h₁ := (h₀.byte rfl hapart (by decide)).iny
  have h₂ := (h₁.byte rfl hapart (by decide)).iny
  have h₃ := (h₂.byte rfl hapart (by decide)).iny
  have h₄ := h₃.byte rfl hapart (by decide)
  have hsave : run k.save cpu = run [.pla] (run (k.saveByte 3) (run [.iny] (run (k.saveByte 2)
      (run [.iny] (run (k.saveByte 1) (run [.iny] (run (k.saveByte 0) (run [.pha] cpu)))))))) := by
    simp only [run, Link.save, Link.saveByte, List.foldl_cons, List.foldl_nil]
  rw [hsave]
  generalize run (k.saveByte 3) _ = cpu₄ at *
  have hs : cpu₄.s + 1 = cpu.s := by
    rw [h₄.s_eq, BitVec.sub_add_cancel]
  have htop : (run [.pla] cpu₄).a = cpu₄.mem (Cpu.stackAddr (cpu₄.s + 1)) := rfl
  refine ⟨?_, hs, ?_, h₄.frame⟩
  · rw [htop, hs, h₄.pushed]
  · have hsaved₀ := h₄.saved 0 (by decide)
    rw [BitVec.add_zero] at hsaved₀
    exact congrArg₂ (· ++ ·) (congrArg₂ (· ++ ·) (congrArg₂ (· ++ ·) (h₄.saved 3 (by decide))
      (h₄.saved 2 (by decide))) (h₄.saved 1 (by decide))) hsaved₀

end

/-! ### The routine -/

theorem Link.goto_div10Loop (k : Link) :
  goto k.div10 .div10Loop = k.loop ++ (k.save.map .op ++ [.rts])
  := rfl

theorem Link.goto_div10ZeroBit (k : Link) :
  goto k.div10 .div10ZeroBit
    = .label .div10ZeroBit :: .op .dey :: .branch .ne .div10Loop :: (k.save.map .op ++ [.rts])
  := rfl

/-- The value before the routine. -/
def Link.argument (k : Link) (cpu : Cpu) : Long :=
  (valueAt (k.ptr cpu.mem)).get cpu.mem

/-- The remainder and the bits of the quotient that the routine finds.  It starts with the high byte of
the value as the remainder. -/
def divBits (v : ℕ) : Byte × List Bool :=
  scan divBit (BitVec.ofNat 8 (v / 2 ^ 24)) (bits 32 v)

theorem Link.argument_high (k : Link) (cpu : Cpu) :
  cpu.mem (k.ptr cpu.mem + BitVec.ofNat 16 3) = BitVec.ofNat 8 ((k.argument cpu).toNat / 2 ^ 24)
  := by
  have hget : k.argument cpu = Mos6502.long (cpu.mem (k.ptr cpu.mem + BitVec.ofNat 16 3))
      (cpu.mem (k.ptr cpu.mem + 2)) (cpu.mem (k.ptr cpu.mem + 1)) (cpu.mem (k.ptr cpu.mem)) := rfl
  rw [hget, long_toNat]
  bv_omega

/-- The state at the start of the loop. -/
theorem Link.dividing_start (k : Link) (hapart : k.Apart (k.ptr cpu.mem) cpu.s) :
  k.Dividing cpu.mem cpu.s (BitVec.ofNat 8 ((k.argument cpu).toNat / 2 ^ 24))
    (bits 32 (k.argument cpu).toNat) [] ((Op.ldy (.imm 32)).exec (run k.load cpu))
  := by
  obtain ⟨hloaded, ha⟩ := k.load_spec hapart
  have hget := hloaded.get_eq
  generalize run k.load cpu = cpu₁ at *
  refine ⟨?_, ?_, hloaded.s_eq, hloaded.frame, ?_, ?_⟩
  · apply ha.trans
    apply k.argument_high
  · rw [length_bits]
    rfl
  · apply (congrArg BitVec.toNat hget).trans
    rw [List.append_nil, value_bits, Nat.mod_eq_of_lt (k.argument cpu).isLt]
    rfl
  · rw [length_bits, List.length_nil]

/-- The routine comes to its end, with the remainder in `A` and the quotient stored, and changes nothing
else but the registers and its byte on the stack. -/
theorem Link.div10_leads (k : Link) (hapart : k.Apart (k.ptr cpu.mem) cpu.s) :
  Leads k.div10 (k.div10, cpu) fun q =>
    q.1 = [.rts] ∧ q.2.a = (divBits (k.argument cpu).toNat).1
      ∧ ((valueAt (k.ptr cpu.mem)).get q.2.mem).toNat = value (divBits (k.argument cpu).toNat).2
      ∧ q.2.s = cpu.s
      ∧ Set.EqOn q.2.mem cpu.mem (savedBytes (k.ptr cpu.mem) cpu.s ∪ k.work.bytes)ᶜ
  := by
  apply Leads.ops
  apply Leads.op
  apply (k.loop_leads k.goto_div10Loop k.goto_div10ZeroBit (k.dividing_start hapart)).trans
  rintro ⟨_, cpu'⟩ ⟨rfl, h⟩
  have hptr : k.ptr cpu'.mem = k.ptr cpu.mem := k.ptr_of_eqOn h.frame
  rw [← hptr, ← h.s_eq] at hapart
  obtain ⟨ha, hs, hget, hframe⟩ := k.save_spec hapart h.y_eq
  rw [hptr, h.s_eq] at hframe
  rw [hptr] at hget
  apply Leads.ops
  apply Leads.refl
  refine ⟨rfl, ha.trans h.a_eq, ?_, hs.trans h.s_eq, ?_⟩
  · apply (congrArg BitVec.toNat hget).trans
    apply h.work_eq
  · rw [Set.compl_union]
    intro x hx
    rw [hframe hx.1, h.frame hx.2]

/-! ### The quotient and the remainder -/

/-- A remainder less than 10 is not cut off by the shift. -/
theorem rotate_remainder {r : Byte} (hr : r.toNat < 10) (b : Bool) :
  (rotate r b).toNat = 2 * r.toNat + b.toNat
  := by
  have h := rotate_toNat r b
  have hmsb : r.msb = false := by
    rw [BitVec.msb_eq_decide, decide_eq_false_iff_not]
    omega
  rw [hmsb, Bool.toNat_false] at h
  exact h

/-- A round divides by 10. -/
theorem divBit_divides : Divides 10 BitVec.toNat divBit := by
  intro r b hr
  have hrotate := rotate_remainder hr b
  have hb := b.toNat_le
  by_cases hlt : rotate r b < 10
  · rw [divBit, if_pos hlt, Bool.toNat_false]
    bv_omega
  · rw [divBit, if_neg hlt, Bool.toNat_true]
    bv_omega

/-- If the high byte is less than 10, then the routine divides the 40-bit value that has the high byte
twice. -/
theorem divBits_eq {v : ℕ} (hv : v / 2 ^ 24 < 10) :
  value (divBits v).2 = (v / 2 ^ 24 * 2 ^ 32 + v) / 10
    ∧ (divBits v).1.toNat = (v / 2 ^ 24 * 2 ^ 32 + v) % 10
  := by
  have htoNat : (BitVec.ofNat 8 (v / 2 ^ 24)).toNat = v / 2 ^ 24 := by
    rw [BitVec.toNat_ofNat]
    omega
  have h := divBit_divides.scan_eq (htoNat.trans_lt hv) (bits 32 v)
  rw [htoNat, length_bits, value_bits, Nat.mod_eq_of_lt (by omega)] at h
  exact h

/-- The first eight bits of the quotient are right only for two values of the high byte. -/
theorem scan_high (t : Byte) :
  value (scan divBit t (bits 8 t.toNat)).2 = t.toNat / 10 ↔ t.toNat = 0 ∨ t.toNat = 128
  := by
  revert t
  decide +kernel

/-- The remainder after the first eight bits for these values. -/
theorem scan_high_remainder {t : Byte} (ht : t.toNat = 0 ∨ t.toNat = 128) :
  (scan divBit t (bits 8 t.toNat)).1.toNat = t.toNat % 10
  := by
  obtain rfl | rfl : t = 0 ∨ t = 128 := by bv_omega
  · decide
  · decide

/-- The division is right if and only if its first eight bits are. -/
theorem divBits_iff {v : ℕ} (hv : v < 2 ^ 32) :
  (divBits v).1.toNat = v % 10 ∧ value (divBits v).2 = v / 10 ↔ v / 2 ^ 24 = 0 ∨ v / 2 ^ 24 = 128
  := by
  obtain ⟨t, ht⟩ : ∃ t : Byte, t.toNat = v / 2 ^ 24 := ⟨⟨v / 2 ^ 24, by omega⟩, rfl⟩
  have hbits : bits 32 v = bits 8 t.toNat ++ bits 24 v := by
    rw [ht]
    apply bits_add 8 24
  simp only [divBits, hbits, ← ht, BitVec.ofNat_toNat, BitVec.setWidth_eq, scan_append, value_append,
    length_scan, length_bits]
  constructor
  · rintro ⟨-, hquotient⟩
    have hlt := value_lt (scan divBit (scan divBit t (bits 8 t.toNat)).1 (bits 24 v)).2
    rw [length_scan, length_bits] at hlt
    apply (scan_high t).mp
    omega
  · intro ht'
    have hquotient := (scan_high t).mpr ht'
    have hremainder := scan_high_remainder ht'
    obtain ⟨hquotient', hremainder'⟩ := divBit_divides.scan_eq (hremainder.trans_lt (by omega))
      (bits 24 v)
    rw [hremainder, length_bits, value_bits] at hquotient' hremainder'
    rw [hquotient, hquotient', hremainder']
    omega

/-- The routine returns with the remainder in `A` and the quotient in place of the value. -/
def Link.Divides10 (k : Link) (cpu : Cpu) : Prop :=
  Leads k.div10 (k.div10, cpu) fun q =>
    q.1 = [.rts] ∧ q.2.s = cpu.s
      ∧ (q.2.a, (valueAt (k.ptr cpu.mem)).get q.2.mem) = divide10 (k.argument cpu)

/-- The division in terms of its rounds. -/
theorem Link.divides10_iff_divBits (k : Link) (hapart : k.Apart (k.ptr cpu.mem) cpu.s) :
  k.Divides10 cpu
    ↔ (divBits (k.argument cpu).toNat).1.toNat = (k.argument cpu).toNat % 10
      ∧ value (divBits (k.argument cpu).toNat).2 = (k.argument cpu).toNat / 10
  := by
  have hlt := (k.argument cpu).isLt
  have hleads := k.div10_leads hapart
  have hend (q : List (Line Label) × Cpu) (hq : q.1 = [.rts]) : step k.div10 q = none := by
    obtain ⟨_, cpu'⟩ := q
    cases hq
    rfl
  constructor
  · rintro ⟨q, hq, hrts, -, hdivides⟩
    obtain ⟨-, ha, hget, -⟩ := hleads.of_end (fun q hq => hend q hq.1) hq (hend q hrts)
    obtain ⟨ha', hget'⟩ := Prod.mk.inj hdivides
    rw [← ha, ← hget, ha', hget', BitVec.toNat_ofNat, BitVec.toNat_ofNat]
    omega
  · rintro ⟨ha, hget⟩
    apply hleads.trans
    rintro q ⟨hrts, ha', hget', hs, -⟩
    apply Leads.refl
    refine ⟨hrts, hs, Prod.ext ?_ ?_⟩
    · apply BitVec.eq_of_toNat_eq
      rw [ha', ha, divide10, BitVec.toNat_ofNat]
      omega
    · apply BitVec.eq_of_toNat_eq
      rw [hget', hget, divide10, BitVec.toNat_ofNat]
      omega

/-- The routine divides by 10 if and only if the high byte of the value is 0 or 128. -/
theorem Link.div10_iff (k : Link) (cpu : Cpu) (hapart : k.Apart (k.ptr cpu.mem) cpu.s) :
  k.Divides10 cpu
    ↔ (k.argument cpu).toNat < 2 ^ 24
      ∨ 2 ^ 31 ≤ (k.argument cpu).toNat ∧ (k.argument cpu).toNat < 2 ^ 31 + 2 ^ 24
  := by
  rw [k.divides10_iff_divBits hapart, divBits_iff (k.argument cpu).isLt]
  omega

end

/-! ### Two values -/

/-- The shell's imaginary registers. -/
def shellLink : Link where
  rc0 := 0x40
  rc0_le := by decide

/-- A state in which the value at `0x0300` has the bytes `b₀` and `b₃` and is the argument. -/
def cpuWith (b₀ b₃ : Byte) : Cpu :=
  .ofMemory fun x => if x = 0x43 then 0x03 else if x = 0x0300 then b₀ else if x = 0x0303 then b₃ else 0

theorem ptr_cpuWith (b₀ b₃ : Byte) : shellLink.ptr (cpuWith b₀ b₃).mem = 0x0300 := by
  have hlow : (cpuWith b₀ b₃).mem 0x42 = 0 := rfl
  have hhigh : (cpuWith b₀ b₃).mem 0x43 = 3 := rfl
  exact congrArg₂ (· ++ ·) hhigh hlow

theorem apart_cpuWith (b₀ b₃ : Byte) :
  shellLink.Apart (shellLink.ptr (cpuWith b₀ b₃).mem) (cpuWith b₀ b₃).s
  := by
  have hs : (cpuWith b₀ b₃).s = 0xFF := rfl
  rw [ptr_cpuWith, hs]
  exact ⟨by decide, by decide⟩

/-- The value 2 ^ 24 is divided as if it were 2 ^ 32 + 2 ^ 24. -/
theorem div10_16777216 :
  (shellLink.argument (cpuWith 0 1)).toNat = 16777216 ∧ ¬ shellLink.Divides10 (cpuWith 0 1)
    ∧ Leads shellLink.div10 (shellLink.div10, cpuWith 0 1) fun q =>
        q.1 = [.rts] ∧ q.2.a = 2
          ∧ ((valueAt (shellLink.ptr (cpuWith 0 1).mem)).get q.2.mem).toNat = 431174451
  := by
  have hargument : (shellLink.argument (cpuWith 0 1)).toNat = 16777216 := by decide
  obtain ⟨hquotient, hremainder⟩ := divBits_eq (show 16777216 / 2 ^ 24 < 10 by decide)
  have hapart := apart_cpuWith 0 1
  refine ⟨hargument, ?_, ?_⟩
  · rw [shellLink.divides10_iff_divBits hapart, hargument, hquotient]
    omega
  · apply (shellLink.div10_leads hapart).trans
    rintro q ⟨hrts, ha, hget, -⟩
    rw [hargument] at ha hget
    apply Leads.refl
    exact ⟨hrts, ha.trans (BitVec.eq_of_toNat_eq hremainder), hget.trans hquotient⟩

/-- The value 123. -/
theorem div10_123 :
  (shellLink.argument (cpuWith 123 0)).toNat = 123 ∧ shellLink.Divides10 (cpuWith 123 0)
  := by
  have hargument : (shellLink.argument (cpuWith 123 0)).toNat = 123 := by decide
  refine ⟨hargument, (shellLink.div10_iff _ (apart_cpuWith 123 0)).mpr (.inl ?_)⟩
  rw [hargument]
  decide

end Mosnix.Shell
