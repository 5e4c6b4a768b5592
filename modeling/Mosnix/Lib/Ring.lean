import Mathlib.Data.BitVec
import Mathlib.Tactic

/-!
# Rings with free-running indices

A ring has a slot for each value of a `w`-bit index, and two indices that are only ever incremented:
one for the slot that the next element is put into, and one for the slot that the next element is
taken from.  The indices are equal when the ring is empty, so that it has room for `2 ^ w - 1`
elements.  Its contents are a list, to which `contents_put` adds an element at the end, and from which
`contents_take` takes the first.
-/

namespace Ring

variable {α : Type*} {w : ℕ} {slots slots' : BitVec w → α} {i o : BitVec w} {b : α}

/-- The elements of a ring that puts into the slot `i` and takes from the slot `o`, in the order in
which they are taken. -/
def contents (slots : BitVec w → α) (i o : BitVec w) : List α :=
  (List.range (i - o).toNat).map fun j => slots (o + BitVec.ofNat w j)

@[simp]
theorem length_contents : (contents slots i o).length = (i - o).toNat := by
  rw [contents, List.length_map, List.length_range]

theorem contents_self : contents slots i i = [] := by
  rw [contents, BitVec.sub_self, BitVec.toNat_zero, List.range_zero, List.map_nil]

/-- An index that is incremented, unless it wraps to 0. -/
theorem toNat_add_one {d : BitVec w} (h : d.toNat + 1 < 2 ^ w) : (d + 1#w).toNat = d.toNat + 1 := by
  have hone : 1 % 2 ^ w = 1 := Nat.mod_eq_of_lt (by omega)
  rw [BitVec.toNat_add, BitVec.toNat_ofNat, hone, Nat.mod_eq_of_lt h]

/-- One more element is in the ring after a put. -/
theorem toNat_put (h : (i - o).toNat + 1 < 2 ^ w) : (i + 1#w - o).toNat = (i - o).toNat + 1 := by
  have hsub : i + 1#w - o = i - o + 1#w := by ring
  rw [hsub, toNat_add_one h]

/-- One element less is in the ring after a take. -/
theorem toNat_take (h : i ≠ o) : (i - o).toNat = (i - (o + 1#w)).toNat + 1 := by
  have hsub : i - o = i - (o + 1#w) + 1#w := by ring
  rw [hsub, toNat_add_one]
  obtain hlt | heq : _ ∨ (i - (o + 1#w)).toNat + 1 = 2 ^ w :=
    Nat.lt_or_eq_of_le (Nat.succ_le_of_lt (i - (o + 1#w)).isLt)
  · exact hlt
  · exfalso
    apply sub_ne_zero.mpr h
    apply BitVec.eq_of_toNat_eq
    rw [hsub, BitVec.toNat_add, BitVec.toNat_ofNat, Nat.add_mod_mod, heq, Nat.mod_self]
    rfl

/-- An element is put into a ring that is not full. -/
theorem contents_put (h : (i - o).toNat + 1 < 2 ^ w) (hslot : slots' i = b)
    (hother : ∀ j, j ≠ i → slots' j = slots j) :
  contents slots' (i + 1#w) o = contents slots i o ++ [b]
  := by
  have hlast : o + BitVec.ofNat w (i - o).toNat = i := by
    rw [BitVec.ofNat_toNat, BitVec.setWidth_eq, add_sub_cancel]
  rw [contents, contents, toNat_put h, List.range_succ, List.map_append, List.map_singleton, hlast,
    hslot]
  congr 1
  apply List.map_congr_left
  intro j hj
  apply hother
  intro heq
  have hsub : i - o = BitVec.ofNat w j := by rw [← heq, add_sub_cancel_left]
  have hlt := List.mem_range.mp hj
  rw [hsub, BitVec.toNat_ofNat, Nat.mod_eq_of_lt (by omega)] at hlt
  exact Nat.lt_irrefl j hlt

/-- An element is taken from a ring that is not empty. -/
theorem contents_take (h : i ≠ o) :
  contents slots i o = slots o :: contents slots i (o + 1#w)
  := by
  rw [contents, contents, toNat_take h, List.range_succ_eq_map, List.map_cons, List.map_map,
    BitVec.add_zero]
  congr 1
  apply List.map_congr_left
  intro j _
  apply congrArg slots
  rw [Nat.succ_eq_one_add, BitVec.ofNat_add, add_assoc]

end Ring
