import Mosnix.Machine
import Mosnix.Lib.FixedBuffer

/-!
# Printing numbers

The function `print_number` of `print.c`.  It collects the digits of a number in a buffer that has the
size of the field, the last digit first, and prints the buffer from its end.  The digits that do not
fit in the field are dropped, so that the number is printed if and only if it has at most as many
digits as the field (`printNumber_iff`).

The function `div10` is a parameter: it gives the remainder that it returns, and the quotient that it
stores.
-/

namespace Mosnix.Shell

open FixedBuffer

/-! ### The code -/

section

variable (div10 : Long → Byte × Long)

/-- The loop of `print_number` over the digits, with a bound on its iterations: the buffer and
`count` after it. -/
def digitLoop (size : ℕ) : ℕ → List Byte → ℕ → Long → Option (List Byte × ℕ)
  | 0, buf, count, _ => some (buf, count)
  | n + 1, buf, count, value =>
      if count < size ∧ value ≠ 0 then do
        let (digit, value) := div10 value
        let buf ← store? buf count (digit + chr '0')
        digitLoop size n buf (count + 1) value
      else some (buf, count)

/-- The step of `print_number` that stores the digit 0 if there is no digit. -/
def zeroDigit (buf : List Byte) (count : ℕ) : Option (List Byte × ℕ) :=
  if count = 0 then (store? buf count (chr '0')).map (·, count + 1) else some (buf, count)

/-- The loop of `print_number` that pads the buffer with `n` spaces. -/
def padLoop : ℕ → List Byte → ℕ → Option (List Byte)
  | 0, buf, _ => some buf
  | n + 1, buf, count => do
      let buf ← store? buf count (chr ' ')
      padLoop n buf (count + 1)

/-- The loop of `print_number` that prints the buffer from its end: the characters. -/
def printLoop (buf : List Byte) : ℕ → Option (List Byte)
  | 0 => some []
  | count + 1 => do
      let c ← buf[count]?
      let rest ← printLoop buf count
      return c :: rest

/-- `print_number`: the characters that are printed.  It fails if an access is outside the array `buf`,
which has `size` bytes. -/
def printNumber (buf : List Byte) (value : Long) (size : Byte) : Option (List Byte) := do
  let (buf, count) ← digitLoop div10 size.toNat 10 buf 0 value
  let (buf, count) ← zeroDigit buf count
  let buf ← padLoop (size.toNat - count) buf count
  printLoop buf (max count size.toNat)

end

/-! ### The digits -/

/-- The character of a digit. -/
def digitChr (d : ℕ) : Byte :=
  BitVec.ofNat 8 d + chr '0'

/-- The decimal numeral of a number. -/
def numeral (n : ℕ) : List Byte :=
  (Nat.toDigits 10 n).map chr

/-- A number in a field of `size` characters, with spaces on its left. -/
def field (size n : ℕ) : List Byte :=
  (numeral n).leftpad size (chr ' ')

theorem chr_digitChar {d : ℕ} (hd : d < 10) : chr d.digitChar = digitChr d := by
  have hall : ∀ d < 10, chr (Nat.digitChar d) = digitChr d := by decide
  apply hall d hd

/-- The numeral has the digits of the number, the first one last. -/
theorem numeral_eq {n : ℕ} (hn : n ≠ 0) :
  numeral n = ((Nat.digits 10 n).map digitChr).reverse
  := by
  induction n using Nat.strongRecOn with
  | _ n ih =>
      rw [numeral, Nat.toDigits_eq_if (by decide), Nat.digits_def' (by decide) (by omega),
        List.map_cons, List.reverse_cons]
      split_ifs with hlt
      · rw [Nat.div_eq_of_lt hlt, Nat.mod_eq_of_lt hlt, Nat.digits_zero, List.map_singleton,
          chr_digitChar hlt]
        rfl
      · have hdiv := ih (n / 10) (by omega) (by omega)
        rw [List.map_append, List.map_singleton, chr_digitChar (Nat.mod_lt n (by decide)), ← hdiv]
        rfl

/-- The digits that fit in a field of `size` characters, the last one first. -/
def storedDigits (size n : ℕ) : List Byte :=
  if n = 0 then [chr '0'] else ((Nat.digits 10 n).take size).map digitChr

/-! ### The loops -/

/-- `div10` replaces the value by its quotient by 10, and returns the remainder. -/
def DividesBy10 (div10 : Long → Byte × Long) : Prop :=
  ∀ v, div10 v = (BitVec.ofNat 8 (v.toNat % 10), BitVec.ofNat 32 (v.toNat / 10))

variable {div10 : Long → Byte × Long} {buf : List Byte} {size n count : ℕ}

/-- The digits are stored, the last one first. -/
theorem digitLoop_eq (hdiv : DividesBy10 div10) (hbuf : buf.length = size) (value : Long) :
  digitLoop div10 size n buf count value
    = some (overwrite buf count
          (((Nat.digits 10 value.toNat).take (min n (size - count))).map digitChr),
        count + (((Nat.digits 10 value.toNat).take (min n (size - count))).map digitChr).length)
  := by
  induction n generalizing buf count value with
  | zero => simp [digitLoop]
  | succ n ih =>
      rw [digitLoop]
      split_ifs with hmore
      · obtain ⟨hcount, hvalue⟩ := hmore
        have hpos : 0 < value.toNat := by
          rw [Nat.pos_iff_ne_zero]
          intro hzero
          exact hvalue (BitVec.eq_of_toNat_eq hzero)
        have hquot : (BitVec.ofNat 32 (value.toNat / 10)).toNat = value.toNat / 10 := by
          rw [BitVec.toNat_ofNat, Nat.mod_eq_of_lt]
          have hlt := value.isLt
          omega
        have hmin : min (n + 1) (size - count) = min n (size - (count + 1)) + 1 := by omega
        simp only [hdiv value, store?, if_pos (hbuf ▸ hcount), Option.bind_eq_bind, Option.bind_some]
        rw [ih (by rw [List.length_set, hbuf]), hquot, Nat.digits_def' (by decide) hpos, hmin,
          List.take_succ_cons, List.map_cons, ← overwrite_set (hbuf ▸ hcount), List.length_cons,
          Nat.add_assoc, Nat.add_comm 1]
        rfl
      · have htake : (Nat.digits 10 value.toNat).take (min (n + 1) (size - count)) = [] := by
          by_cases hcount : count < size
          · have hzero : value = 0 := by
              by_contra hne
              exact hmore ⟨hcount, hne⟩
            simp [hzero]
          · rw [Nat.sub_eq_zero_of_le (not_lt.mp hcount), Nat.min_zero, List.take_zero]
        rw [htake, List.map_nil, overwrite_nil, List.length_nil, Nat.add_zero]

theorem padLoop_eq (hbuf : count + n ≤ buf.length) :
  padLoop n buf count = some (overwrite buf count (List.replicate n (chr ' ')))
  := by
  induction n generalizing buf count with
  | zero => simp [padLoop]
  | succ n ih =>
      rw [padLoop, store?, if_pos (by omega), Option.bind_eq_bind, Option.bind_some,
        ih (by rw [List.length_set]; omega), overwrite_set (by omega), List.replicate_succ]

/-- The buffer is printed from its end. -/
theorem printLoop_eq (hcount : count ≤ buf.length) :
  printLoop buf count = some (buf.take count).reverse
  := by
  induction count with
  | zero => simp [printLoop]
  | succ count ih =>
      rw [printLoop, ih (by omega), List.getElem?_eq_getElem (by omega),
        List.take_succ_eq_append_getElem (by omega), List.reverse_append]
      rfl

/-- A buffer that is overwritten from its start to its end. -/
theorem overwrite_all {s : List Byte} (h : s.length = buf.length) : overwrite buf 0 s = s := by
  simp [overwrite, h]

theorem length_storedDigits_le (hsize : 1 ≤ size) : (storedDigits size n).length ≤ size := by
  unfold storedDigits
  split_ifs
  · simpa using hsize
  · simp

/-- The first two steps store the digits that fit in the field, or the digit 0. -/
theorem digitLoop_storedDigits (hdiv : DividesBy10 div10) (hbuf : buf.length = size)
    (hsize : 1 ≤ size) (value : Long) :
  ∃ buf₁ count, digitLoop div10 size 10 buf 0 value = some (buf₁, count)
    ∧ zeroDigit buf₁ count
      = some (overwrite buf 0 (storedDigits size value.toNat),
          (storedDigits size value.toNat).length)
  := by
  refine ⟨_, _, digitLoop_eq hdiv hbuf value, ?_⟩
  rw [zeroDigit, Nat.sub_zero, Nat.zero_add]
  by_cases hzero : value.toNat = 0
  · rw [storedDigits, if_pos hzero, hzero, Nat.digits_zero, List.take_nil, List.map_nil, overwrite_nil,
      List.length_nil, if_pos rfl, store?, if_pos (by omega), set_eq_overwrite (by omega)]
    rfl
  · have hlength : (Nat.digits 10 value.toNat).length ≤ 10 := by
      rw [Nat.digits_length_le_iff (by decide)]
      exact value.isLt.trans (by decide)
    have htake : (Nat.digits 10 value.toNat).take (min 10 size)
        = (Nat.digits 10 value.toNat).take size := by
      rw [← List.take_take, List.take_eq_self_iff, List.length_take]
      omega
    have hne : ((Nat.digits 10 value.toNat).take size).map digitChr ≠ [] := by
      rw [Nat.digits_def' (by decide) (Nat.pos_of_ne_zero hzero)]
      obtain ⟨k, rfl⟩ := Nat.exists_eq_add_of_le' hsize
      simp
    rw [htake, storedDigits, if_neg hzero, if_neg (List.length_pos_of_ne_nil hne).ne']

/-- The digits that fit in the field are printed, with spaces on their left. -/
theorem printNumber_eq {size : Byte} (hdiv : DividesBy10 div10) (hbuf : buf.length = size.toNat)
    (hsize : 1 ≤ size.toNat) (value : Long) :
  printNumber div10 buf value size
    = some ((storedDigits size.toNat value.toNat).reverse.leftpad size.toNat (chr ' '))
  := by
  obtain ⟨buf₁, count, hdigits, hfirst⟩ := digitLoop_storedDigits hdiv hbuf hsize value
  have hle := length_storedDigits_le (n := value.toNat) hsize
  rw [printNumber, hdigits]
  simp only [Option.bind_eq_bind, Option.bind_some, hfirst]
  generalize storedDigits size.toNat value.toNat = ds at hle
  have hall : (ds ++ List.replicate (size.toNat - ds.length) (chr ' ')).length = buf.length := by
    rw [List.length_append, List.length_replicate]
    omega
  have happend := overwrite_append (s := ds) (t := List.replicate (size.toNat - ds.length) (chr ' '))
    (Nat.zero_le buf.length)
  rw [Nat.zero_add] at happend
  rw [padLoop_eq (by rw [length_overwrite (by omega)]; omega), happend, overwrite_all hall,
    Option.bind_some, max_eq_right hle, printLoop_eq (by omega), List.take_of_length_le (by omega),
    List.reverse_append, List.reverse_replicate, List.leftpad, List.length_reverse]

/-- A number is printed in its field, or longer than it, if and only if it has at most as many digits
as the field. -/
theorem printNumber_iff {size : Byte} (hdiv : DividesBy10 div10) (hbuf : buf.length = size.toNat)
    (hsize : 1 ≤ size.toNat) (value : Long) :
  printNumber div10 buf value size = some (field size.toNat value.toNat)
    ↔ value.toNat < 10 ^ size.toNat
  := by
  rw [printNumber_eq hdiv hbuf hsize, Option.some.injEq, field]
  by_cases hzero : value.toNat = 0
  · have hnumeral : numeral 0 = [chr '0'] := rfl
    simp [storedDigits, hzero, hnumeral]
  rw [numeral_eq hzero, storedDigits, if_neg hzero, ← Nat.digits_length_le_iff (by decide)]
  constructor
  · intro hsame
    have hlength := congrArg List.length hsame
    simp only [List.length_leftpad, List.length_reverse, List.length_map, List.length_take] at hlength
    omega
  · intro hle
    rw [List.take_of_length_le hle]

/-- A division by 10. -/
def divide10 (v : Long) : Byte × Long :=
  (BitVec.ofNat 8 (v.toNat % 10), BitVec.ofNat 32 (v.toNat / 10))

/-- The number 10 in a field of one character is printed as 0. -/
theorem printNumber_10 :
  DividesBy10 divide10 ∧ printNumber divide10 [0] 10 1 = some [chr '0']
    ∧ field 1 10 = [chr '1', chr '0'] ∧ printNumber divide10 [0] 10 1 ≠ some (field 1 10)
  :=
  ⟨fun _ => rfl, by decide, by decide, by decide⟩

/-- The number 2023 in a field of 6 characters. -/
theorem printNumber_2023 :
  printNumber divide10 (List.replicate 6 0) 2023 6
    = some ([' ', ' ', '2', '0', '2', '3'].map chr)
  :=
  (printNumber_iff (fun _ => rfl) (by decide) (by decide) 2023).mpr (by decide)

end Mosnix.Shell
