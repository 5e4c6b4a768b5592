import Mathlib.Tactic

/-!
# Machine integers

The integer types of the 16-bit target: `uint8_t` and `char`, `uint16_t` with `size_t` and
the pointers, and `uint32_t`.  Their arithmetic wraps around.
-/

namespace Mosnix

/-- `uint8_t`, and the characters of a string. -/
abbrev Byte := BitVec 8

/-- `uint16_t`, `size_t`, `mode_t`, and addresses. -/
abbrev Word := BitVec 16

/-- `uint32_t`. -/
abbrev Long := BitVec 32

/-- The byte of an ASCII character. -/
abbrev chr (c : Char) : Byte := BitVec.ofNat 8 c.toNat

/-- The string a character buffer holds: the bytes before its first NUL. -/
def cString (buf : List Byte) : List Byte :=
  buf.takeWhile (· ≠ 0)

/-- A string goes on after a character that is not 0. -/
theorem cString_cons {c : Byte} (h : c ≠ 0) (buf : List Byte) :
  cString (c :: buf) = c :: cString buf
  := List.takeWhile_cons_of_pos (decide_eq_true h)

theorem take_length_cString (buf : List Byte) : buf.take (cString buf).length = cString buf :=
  (List.prefix_iff_eq_take.mp (List.takeWhile_prefix _)).symm

/-- A string does not contain its terminator. -/
theorem zero_notMem_cString (buf : List Byte) : 0 ∉ cString buf := by
  intro h
  have h0 := List.all_takeWhile (l := buf) (p := (· ≠ 0))
  simpa using List.all_eq_true.mp h0 0 h

/-- A buffer that holds the characters of `s` and a NUL. -/
theorem cString_append {s : List Byte} (h : 0 ∉ s) (rest : List Byte) :
  cString (s ++ 0 :: rest) = s
  := by
  induction s with
  | nil => simp [cString]
  | cons c s ih =>
      rw [List.mem_cons, not_or] at h
      rw [List.cons_append, cString_cons (Ne.symm h.1), ih h.2]

/-- A string of C: its characters before the terminating NUL. -/
structure CStr where
  chars : List Byte
  zero_notMem : 0 ∉ chars
  deriving DecidableEq

/-! ### Error codes -/

def EPERM : Int := 1
def ENOENT : Int := 2
def EINTR : Int := 4
def EIO : Int := 5
def ENXIO : Int := 6
def E2BIG : Int := 7
def EBADF : Int := 9
def ENOMEM : Int := 12
def EACCES : Int := 13
def EFAULT : Int := 14
def ENOTBLK : Int := 15
def EBUSY : Int := 16
def EEXIST : Int := 17
def ENODEV : Int := 19
def ENOTDIR : Int := 20
def EISDIR : Int := 21
def EINVAL : Int := 22
def ENFILE : Int := 23
def EMFILE : Int := 24
def ENOSPC : Int := 28
def EROFS : Int := 30
def ENAMETOOLONG : Int := 36

end Mosnix
