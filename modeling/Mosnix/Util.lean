import Mosnix.Machine
import Mosnix.Lib.FixedBuffer

/-!
# String utilities

The functions of `util.c`, and the size of path buffers from `config.h`.  A string is the list
of its characters before the terminating NUL; a function that stops at NUL also stops at the end
of the list.
-/

namespace Mosnix

/-- Maximum length of a path, including the terminating NUL. -/
def CONFIG_PATH_MAX : ℕ := 64

/-- `strlen_constrained`, on a pointer that is not NULL. -/
def strlenConstrained : List Byte → ℕ → ℕ
  | c :: s, max + 1 => if c = 0 then 0 else strlenConstrained s max + 1
  | _, _ => 0

/-- `str_is_too_long`. -/
def strIsTooLong : List Byte → ℕ → Bool
  | c :: s, max + 1 => if c = 0 then false else strIsTooLong s max
  | [], _ + 1 => false
  | _, 0 => true

/-- `strlen_path_component`. -/
def strlenPathComponent : List Byte → ℕ → ℕ
  | c :: s, max + 1 => if c = chr '/' ∨ c = 0 then 0 else strlenPathComponent s max + 1
  | _, _ => 0

/-- `strcpy_constrained` of a string that is not NULL to the buffer `dest`, from the position `posn`
on. -/
def strcpyConstrained (dest : List Byte) (posn : ℕ) : List Byte → ℕ → Option (List Byte)
  | c :: src, max + 2 =>
      if c = 0 then FixedBuffer.store? dest posn 0
      else do strcpyConstrained (← FixedBuffer.store? dest posn c) (posn + 1) src (max + 1)
  | _, _ => FixedBuffer.store? dest posn 0

/-- A buffer of at most `max` bytes is measured up to its NUL. -/
theorem strlenConstrained_eq {s : List Byte} {max : ℕ} (h : s.length ≤ max) :
  strlenConstrained s max = (cString s).length
  := by
  induction s generalizing max with
  | nil => simp [strlenConstrained, cString]
  | cons c s ih =>
      cases max with
      | zero => simp at h
      | succ max =>
          have hs : s.length ≤ max := by simpa using h
          by_cases hc : c = 0
          · simp [strlenConstrained, cString, hc]
          · rw [strlenConstrained, if_neg hc, ih hs, cString_cons hc, List.length_cons]

/-- A string that is not too long has fewer characters than the limit. -/
theorem strIsTooLong_eq_false_iff {s : List Byte} {max : ℕ} (hnul : 0 ∉ s) :
  strIsTooLong s max = false ↔ s.length < max
  := by
  induction s generalizing max with
  | nil =>
      cases max with
      | zero => simp [strIsTooLong]
      | succ max => simp [strIsTooLong]
  | cons c s ih =>
      rw [List.mem_cons, not_or] at hnul
      cases max with
      | zero => simp [strIsTooLong]
      | succ max =>
          rw [strIsTooLong, if_neg (Ne.symm hnul.1), ih hnul.2, List.length_cons,
            Nat.succ_lt_succ_iff]

/-- The first component of a string that is not longer than the limit. -/
theorem strlenPathComponent_eq {s : List Byte} {max : ℕ} (hnul : 0 ∉ s) (h : s.length ≤ max) :
  strlenPathComponent s max = (s.takeWhile (· ≠ chr '/')).length
  := by
  induction s generalizing max with
  | nil => simp [strlenPathComponent]
  | cons c s ih =>
      rw [List.mem_cons, not_or] at hnul
      cases max with
      | zero => simp at h
      | succ max =>
          have hs : s.length ≤ max := by simpa using h
          by_cases hc : c = chr '/'
          · simp [strlenPathComponent, hc]
          · rw [strlenPathComponent, if_neg (not_or.mpr ⟨hc, Ne.symm hnul.1⟩), ih hnul.2 hs,
              List.takeWhile_cons_of_pos (p := (· ≠ chr '/')) (decide_eq_true hc),
              List.length_cons]

/-- The first component of a string, if it is not longer than the limit. -/
theorem strlenPathComponent_append {c rest : List Byte} {max : ℕ} (hsep : chr '/' ∉ c)
    (hnul : 0 ∉ c) (hrest : rest.head?.getD (chr '/') = chr '/') (h : c.length ≤ max) :
  strlenPathComponent (c ++ rest) max = c.length
  := by
  induction c generalizing max with
  | nil =>
      cases rest with
      | nil => simp [strlenPathComponent]
      | cons x rest =>
          obtain rfl : x = chr '/' := hrest
          cases max with
          | zero => rfl
          | succ n => simp [strlenPathComponent]
  | cons x c ih =>
      rw [List.mem_cons, not_or] at hsep hnul
      cases max with
      | zero => simp at h
      | succ n =>
          rw [List.cons_append, strlenPathComponent,
            if_neg (not_or.mpr ⟨Ne.symm hsep.1, Ne.symm hnul.1⟩), ih hsep.2 hnul.2 (by simpa using h),
            List.length_cons]

end Mosnix
