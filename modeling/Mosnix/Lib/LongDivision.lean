import Mathlib.Data.Nat.Bitwise
import Mathlib.Tactic

/-!
# Long division in binary

A number is given by its bits, the highest one first.  A machine that reads them one at a time, with a
remainder as its state, and puts out a bit of the quotient each time, divides the number if its steps
do (`Divides.scan_eq`).  It may be started with a remainder that is not 0, so that a division can be
cut into several parts (`scan_append`).
-/

namespace LongDivision

/-! ### Bits -/

/-- The number with the given bits. -/
def value : List Bool → ℕ
  | [] => 0
  | b :: bs => b.toNat * 2 ^ bs.length + value bs

/-- The `n` low bits of a number. -/
def bits : ℕ → ℕ → List Bool
  | 0, _ => []
  | n + 1, v => v.testBit n :: bits n v

/-- The value of bits one after the other. -/
theorem value_append (xs ys : List Bool) :
  value (xs ++ ys) = value xs * 2 ^ ys.length + value ys
  := by
  induction xs with
  | nil => simp [value]
  | cons x xs ih =>
      rw [List.cons_append, value, value, ih, List.length_append, pow_add]
      ring

/-- A number with one more bit. -/
theorem value_snoc (bs : List Bool) (b : Bool) : value (bs ++ [b]) = 2 * value bs + b.toNat := by
  rw [value_append, value, value, List.length_singleton, List.length_nil]
  ring

theorem value_lt (bs : List Bool) : value bs < 2 ^ bs.length := by
  induction bs with
  | nil => simp [value]
  | cons b bs ih =>
      have hb := b.toNat_le
      have hmul := Nat.mul_le_mul_right (2 ^ bs.length) hb
      rw [value, List.length_cons, pow_succ]
      omega

@[simp]
theorem length_bits (n v : ℕ) : (bits n v).length = n := by
  induction n with
  | zero => rfl
  | succ n ih => rw [bits, List.length_cons, ih]

/-- The bits of a number have its value. -/
theorem value_bits (n v : ℕ) : value (bits n v) = v % 2 ^ n := by
  induction n with
  | zero => simp [bits, value, Nat.mod_one]
  | succ n ih =>
      rw [bits, value, ih, length_bits, Nat.mod_pow_succ, Nat.toNat_testBit, Nat.mul_comm,
        Nat.add_comm]

/-- The high bits of a number, and its low bits. -/
theorem bits_add (m n v : ℕ) : bits (m + n) v = bits m (v / 2 ^ n) ++ bits n v := by
  induction m with
  | zero => rw [Nat.zero_add, bits, List.nil_append]
  | succ m ih =>
      rw [Nat.add_right_comm, bits, bits, ih, List.cons_append, Nat.testBit_div_two_pow]

/-! ### Machines that read bits -/

variable {ρ : Type*} {step : ρ → Bool → ρ × Bool} {val : ρ → ℕ} {d : ℕ}

/-- The state of a machine after it has read some bits, and the bits that it has put out. -/
def scan (step : ρ → Bool → ρ × Bool) : ρ → List Bool → ρ × List Bool
  | r, [] => (r, [])
  | r, b :: bs =>
      ((scan step (step r b).1 bs).1, (step r b).2 :: (scan step (step r b).1 bs).2)

@[simp]
theorem length_scan (r : ρ) (bs : List Bool) : (scan step r bs).2.length = bs.length := by
  induction bs generalizing r with
  | nil => rfl
  | cons b bs ih => rw [scan, List.length_cons, ih, List.length_cons]

/-- A scan in two parts. -/
theorem scan_append (r : ρ) (xs ys : List Bool) :
  scan step r (xs ++ ys)
    = ((scan step (scan step r xs).1 ys).1,
        (scan step r xs).2 ++ (scan step (scan step r xs).1 ys).2)
  := by
  induction xs generalizing r with
  | nil => rfl
  | cons x xs ih => simp only [List.cons_append, scan, ih]

/-- The steps of a machine whose state is a remainder divide by `d`. -/
def Divides (d : ℕ) (val : ρ → ℕ) (step : ρ → Bool → ρ × Bool) : Prop :=
  ∀ r b, val r < d → val (step r b).1 < d
    ∧ 2 * val r + b.toNat = (step r b).2.toNat * d + val (step r b).1

/-- A machine whose steps divide gives the quotient and the remainder. -/
theorem Divides.scan_spec (h : Divides d val step) {r : ρ} (hr : val r < d) (bs : List Bool) :
  val (scan step r bs).1 < d
    ∧ val r * 2 ^ bs.length + value bs = value (scan step r bs).2 * d + val (scan step r bs).1
  := by
  induction bs generalizing r with
  | nil => simpa [scan, value] using hr
  | cons b bs ih =>
      obtain ⟨hlt, heq⟩ := h r b hr
      obtain ⟨hlt', heq'⟩ := ih hlt
      refine ⟨hlt', ?_⟩
      rw [scan, value, value, length_scan, List.length_cons]
      calc val r * 2 ^ (bs.length + 1) + (b.toNat * 2 ^ bs.length + value bs)
          = (2 * val r + b.toNat) * 2 ^ bs.length + value bs := by ring
        _ = (step r b).2.toNat * d * 2 ^ bs.length
              + (val (step r b).1 * 2 ^ bs.length + value bs) := by rw [heq]; ring
        _ = ((step r b).2.toNat * 2 ^ bs.length + value (scan step (step r b).1 bs).2) * d
              + val (scan step (step r b).1 bs).1 := by rw [heq']; ring

/-- The scan of a dividend gives its quotient and its remainder. -/
theorem Divides.scan_eq (h : Divides d val step) {r : ρ} (hr : val r < d) (bs : List Bool) :
  value (scan step r bs).2 = (val r * 2 ^ bs.length + value bs) / d
    ∧ val (scan step r bs).1 = (val r * 2 ^ bs.length + value bs) % d
  := by
  obtain ⟨hlt, heq⟩ := h.scan_spec hr bs
  rw [heq, Nat.add_comm, Nat.add_mul_div_right _ _ (by omega), Nat.div_eq_of_lt hlt, Nat.zero_add,
    Nat.add_mul_mod_self_right, Nat.mod_eq_of_lt hlt]
  exact ⟨rfl, rfl⟩

end LongDivision
