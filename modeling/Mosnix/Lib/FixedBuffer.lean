import Mathlib.Data.List.Basic
import Mathlib.Tactic

/-!
# Writing into a buffer

A buffer is a list of fixed length.  `overwrite buf posn s` is the buffer after the elements
of `s` are stored from position `posn` on.  A loop that stores one element at a time and
advances its position amounts to one `overwrite` (`set_eq_overwrite`, `overwrite_append`).
-/

namespace FixedBuffer

variable {α : Type*} {buf s t : List α} {posn : ℕ} {c : α}

/-- The buffer `buf` after `s` is stored at position `posn`. -/
def overwrite (buf : List α) (posn : ℕ) (s : List α) : List α :=
  buf.take posn ++ s ++ buf.drop (posn + s.length)

/-- The buffer `buf` after `c` is stored at position `posn`, if the position is inside it. -/
def store? (buf : List α) (posn : ℕ) (c : α) : Option (List α) :=
  if posn < buf.length then some (buf.set posn c) else none

/-- The buffer `buf` after `s` is copied to position `posn`, if all of it is inside. -/
def copy? (buf : List α) (posn : ℕ) (s : List α) : Option (List α) :=
  if posn + s.length ≤ buf.length then some (overwrite buf posn s) else none

@[simp]
theorem overwrite_nil : overwrite buf posn [] = buf := by
  simp [overwrite]

@[simp]
theorem length_overwrite (h : posn + s.length ≤ buf.length) :
  (overwrite buf posn s).length = buf.length
  := by
  simp [overwrite]
  omega

/-- Storing one element. -/
theorem set_eq_overwrite (h : posn < buf.length) :
  buf.set posn c = overwrite buf posn [c]
  := by
  simp [overwrite, List.set_eq_take_append_cons_drop, h]

section

variable (h : posn ≤ buf.length)

include h

/-- The buffer up to the end of what was stored. -/
theorem take_overwrite :
  (overwrite buf posn s).take (posn + s.length) = buf.take posn ++ s
  := by
  have hlen : (buf.take posn ++ s).length = posn + s.length := by simp [h]
  rw [overwrite, ← hlen, List.take_left]

/-- The buffer before what was stored is unchanged. -/
theorem take_overwrite_of_le {n : ℕ} (hn : n ≤ posn) :
  (overwrite buf posn s).take n = buf.take n
  := by
  have hlen : n ≤ (buf.take posn).length := by
    rw [List.length_take, Nat.min_eq_left h]
    exact hn
  rw [overwrite, List.append_assoc, List.take_append_of_le_length hlen, List.take_take,
    Nat.min_eq_left hn]

/-- The buffer from the start of what was stored on. -/
theorem drop_overwrite_start :
  (overwrite buf posn s).drop posn = s ++ buf.drop (posn + s.length)
  := by
  have hlen : (buf.take posn).length = posn := by rw [List.length_take, Nat.min_eq_left h]
  rw [overwrite, List.append_assoc]
  nth_rewrite 1 [← hlen]
  rw [List.drop_left]

/-- The buffer after what was stored is unchanged. -/
theorem drop_overwrite :
  (overwrite buf posn s).drop (posn + s.length) = buf.drop (posn + s.length)
  := by
  have hlen : (buf.take posn ++ s).length = posn + s.length := by simp [h]
  nth_rewrite 1 [overwrite]
  nth_rewrite 1 [← hlen]
  rw [List.drop_left]

/-- Storing `s` and then `t` right after it. -/
theorem overwrite_append :
  overwrite (overwrite buf posn s) (posn + s.length) t = overwrite buf posn (s ++ t)
  := by
  have hdrop : (overwrite buf posn s).drop (posn + s.length + t.length)
      = buf.drop (posn + (s ++ t).length) := by
    rw [← List.drop_drop, drop_overwrite h, List.drop_drop, List.length_append, Nat.add_assoc]
  rw [overwrite, take_overwrite h, hdrop]
  simp [overwrite]

end

/-- Storing `s` and then `c` right after it. -/
theorem set_overwrite (h : posn + s.length < buf.length) :
  (overwrite buf posn s).set (posn + s.length) c = overwrite buf posn (s ++ [c])
  := by
  rw [set_eq_overwrite (by rw [length_overwrite (by omega)]; omega)]
  apply overwrite_append
  omega

/-- Storing `c` and then `t` right after it. -/
theorem overwrite_set (h : posn < buf.length) :
  overwrite (buf.set posn c) (posn + 1) t = overwrite buf posn (c :: t)
  := by
  rw [set_eq_overwrite h]
  apply overwrite_append (s := [c])
  omega

end FixedBuffer
