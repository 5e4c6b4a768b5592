import Mosnix.Machine
import Mathlib.Data.List.Lex

/-!
# Strings of the C library

`strcmp`, on strings that are given by their characters before the terminating NUL, and strings in
the memory, with their characters and `strchr`.
-/

namespace Mosnix

/-- The characters of a string literal. -/
def str (s : String) : List Byte :=
  s.toList.map chr

/-- `strcmp` -/
def strcmp : List Byte → List Byte → Int
  | [], [] => 0
  | [], _ :: _ => -1
  | _ :: _, [] => 1
  | a :: s, b :: t => if a = b then strcmp s t else (a.toNat : Int) - b.toNat

/-- The key by which `strcmp` orders strings. -/
def strKey (s : List Byte) : List ℕ :=
  s.map BitVec.toNat

theorem strKey_injective : Function.Injective strKey :=
  List.map_injective_iff.mpr fun _ _ h => BitVec.eq_of_toNat_eq h

variable {c : Byte} {cs t : List Byte}

theorem strcmp_eq_zero_iff {s : List Byte} : strcmp s t = 0 ↔ s = t := by
  induction s generalizing t with
  | nil => cases t <;> simp [strcmp]
  | cons a s ih =>
      cases t with
      | nil => simp [strcmp]
      | cons b t =>
          by_cases h : a = b
          · simp [strcmp, h, ih]
          · have hn : a.toNat ≠ b.toNat := fun e => h (BitVec.eq_of_toNat_eq e)
            rw [strcmp, if_neg h, List.cons.injEq, iff_false_right (fun e => h e.1)]
            omega

/-- `strcmp` is negative if the first string sorts before the second one. -/
theorem strcmp_neg_iff {s : List Byte} : strcmp s t < 0 ↔ strKey s < strKey t := by
  induction s generalizing t with
  | nil => cases t <;> simp [strcmp, strKey]
  | cons a s ih =>
      cases t with
      | nil => simp [strcmp, strKey]
      | cons b t =>
          rw [strKey, strKey, List.map_cons, List.map_cons, List.cons_lt_cons_iff]
          by_cases h : a = b
          · simpa [strcmp, h, strKey] using ih (t := t)
          · have hn : a.toNat ≠ b.toNat := fun e => h (BitVec.eq_of_toNat_eq e)
            rw [strcmp, if_neg h, or_iff_left (fun e => hn e.1)]
            omega

/-- `strcmp` is positive if the first string sorts after the second one. -/
theorem strcmp_pos_iff {s : List Byte} : 0 < strcmp s t ↔ strKey t < strKey s := by
  rw [← not_le, le_iff_lt_or_eq, strcmp_neg_iff, strcmp_eq_zero_iff, ← strKey_injective.eq_iff,
    ← le_iff_lt_or_eq, not_le]

/-! ### Strings in the memory -/

/-- The character at an index, up to the terminating NUL. -/
def CStr.charAt (s : CStr) (i : ℕ) : Option Byte :=
  (s.chars ++ [0])[i]?

/-- `strchr`: the index of the first occurrence of a character, which may be the terminating NUL. -/
def strchr (s : CStr) (c : Byte) : Option ℕ :=
  (s.chars ++ [0]).findIdx? (· = c)

namespace CStr

variable {s : CStr} {i : ℕ}

theorem charAt_of_le (h : i ≤ s.chars.length) : s.charAt i = some ((s.chars.drop i).headD 0) := by
  rw [charAt]
  rcases Nat.lt_or_eq_of_le h with hlt | rfl
  · rw [List.getElem?_append_left hlt, List.drop_eq_getElem_cons hlt, List.getElem?_eq_getElem hlt]
    rfl
  · simp

/-- The rest of a string after a character. -/
theorem drop_succ (h : s.chars.drop i = c :: cs) :
  s.chars.drop (i + 1) = cs
  := by
  rw [← List.drop_drop, h]
  rfl

theorem charAt_of_drop (h : s.chars.drop i = c :: cs) :
  s.charAt i = some c ∧ s.charAt (i + 1) = some (cs.headD 0)
  := by
  have hlt : i < s.chars.length := by
    by_contra hle
    rw [List.drop_eq_nil_of_le (not_lt.mp hle)] at h
    cases h
  constructor
  · rw [charAt_of_le hlt.le, h]
    rfl
  · rw [charAt_of_le hlt, drop_succ h]

theorem charAt_length_succ (s : CStr) : s.charAt (s.chars.length + 1) = none := by
  simp [charAt]

theorem ne_nul_of_drop (h : s.chars.drop i = c :: cs) : c ≠ 0 := by
  rintro rfl
  apply s.zero_notMem
  apply List.mem_of_mem_drop (i := i)
  rw [h]
  apply List.mem_cons_self

/-- The next character of a string is NUL if and only if the string ends here. -/
theorem headD_eq_nul_iff (h : s.chars.drop i = c :: cs) :
  cs.headD 0 = 0 ↔ cs = []
  := by
  cases cs with
  | nil => simp
  | cons d cs => simpa using ne_nul_of_drop (drop_succ h)

end CStr

theorem strchr_nul (s : CStr) : strchr s 0 = some s.chars.length := by
  have h : s.chars.findIdx? (· = 0) = none := by
    rw [List.findIdx?_eq_none_iff]
    intro c hc
    simp only [decide_eq_false_iff_not]
    rintro rfl
    exact s.zero_notMem hc
  rw [strchr, List.findIdx?_append, h]
  simp

theorem strchr_lt {s : CStr} {p : ℕ} (hc : c ≠ 0) (h : strchr s c = some p) :
  p < s.chars.length
  := by
  rw [strchr, List.findIdx?_append] at h
  cases hfind : s.chars.findIdx? (· = c) with
  | none =>
      simp only [hfind, List.findIdx?_cons] at h
      simp at h
      exact absurd h.1.symm hc
  | some q =>
      rw [hfind] at h
      obtain rfl : q = p := by simpa using h
      exact (List.findIdx?_eq_some_iff_getElem.mp hfind).1

end Mosnix
