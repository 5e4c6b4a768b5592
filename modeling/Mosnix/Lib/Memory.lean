import Mathlib.Data.BitVec
import Mathlib.Tactic

/-!
# Byte memory

A memory of bytes with 16-bit addresses, and 16-bit words stored in it with the low byte first.
Words at addresses that differ, and are not next to each other, do not interfere.
-/

/-- A memory with 16-bit addresses. -/
abbrev Memory := BitVec 16 → BitVec 8

namespace Memory

variable {m : Memory} {a b : BitVec 16} {v : BitVec 16} {c : BitVec 8}

/-- The memory after the byte `c` is stored at `a`. -/
def store (m : Memory) (a : BitVec 16) (c : BitVec 8) : Memory :=
  fun b => if b = a then c else m b

/-- The word at `a`. -/
def word (m : Memory) (a : BitVec 16) : BitVec 16 :=
  m (a + 1) ++ m a

/-- The memory after the word `v` is stored at `a`. -/
def storeWord (m : Memory) (a : BitVec 16) (v : BitVec 16) : Memory :=
  (m.store a (v.extractLsb' 0 8)).store (a + 1) (v.extractLsb' 8 8)

/-- The memory after `n` bytes from the address `a` on are set to `c`. -/
def fill (m : Memory) (a : BitVec 16) (n : ℕ) (c : BitVec 8) : Memory :=
  fun b => if (b - a).toNat < n then c else m b

@[simp]
theorem store_self : m.store a c a = c := by
  simp [store]

theorem store_of_ne (h : b ≠ a) : m.store a c b = m b := by
  simp [store, h]

/-- A byte stored in two memories that agree on a set. -/
theorem store_congr {m' : Memory} {S : Set (BitVec 16)} (h : Set.EqOn m' m S) :
  Set.EqOn (m'.store a c) (m.store a c) S
  := by
  intro a' ha'
  simp only [store, h ha']

theorem storeWord_of_ne (h : b ≠ a) (h' : b ≠ a + 1) : m.storeWord a v b = m b := by
  rw [storeWord, store_of_ne h', store_of_ne h]

/-- The word read at the address it was stored at. -/
@[simp]
theorem word_storeWord_self : (m.storeWord a v).word a = v := by
  have hne : a ≠ a + 1 := by bv_omega
  rw [word, storeWord, store_self, store_of_ne hne, store_self]
  apply BitVec.eq_of_getLsbD_eq
  intro i hi
  rw [BitVec.getLsbD_append]
  split_ifs with h
  · simp [h]
  · have hsum : 8 + (i - 8) = i := by omega
    have hlt : i - 8 < 8 := by omega
    simp [hsum, hlt]

/-- A word that a stored word does not overlap. -/
theorem word_storeWord_of_ne (h : b ≠ a) (h₁ : b + 1 ≠ a) (h₂ : b ≠ a + 1) :
  (m.storeWord a v).word b = m.word b
  := by
  have h₃ : b + 1 ≠ a + 1 := by
    intro h'
    apply h (add_right_cancel h')
  rw [word, word, storeWord_of_ne h h₂, storeWord_of_ne h₁ h₃]

/-- A word that a stored byte does not overlap. -/
theorem word_store_of_ne (h : b ≠ a) (h₁ : b + 1 ≠ a) : (m.store a c).word b = m.word b := by
  rw [word, word, store_of_ne h, store_of_ne h₁]

/-! ### Copies -/

/-- The memory `m'` is `m` after the bytes at `src k` are copied to `dst k`, for `k` from `lo` up
to `hi`. -/
structure Copied (m m' : Memory) (src dst : ℕ → BitVec 16) (lo hi : ℕ) : Prop where
  copied : ∀ k, lo ≤ k → k < hi → m' (dst k) = m (src k)
  frame : ∀ a, (∀ k, lo ≤ k → k < hi → a ≠ dst k) → m' a = m a

/-- A copy before its first byte. -/
theorem Copied.refl {src dst : ℕ → BitVec 16} {n : ℕ} : Copied m m src dst n n where
  copied k hlo hhi := by omega
  frame _ _ := rfl

/-- A byte copied before the others. -/
theorem Copied.cons {m' : Memory} {src dst : ℕ → BitVec 16} {lo hi : ℕ} (hlt : lo < hi)
    (hsrc : ∀ k, lo ≤ k → k < hi → src k ≠ dst lo)
    (hdst : ∀ k, lo < k → k < hi → dst k ≠ dst lo)
    (h : Copied (m.store (dst lo) (m (src lo))) m' src dst (lo + 1) hi) :
  Copied m m' src dst lo hi
  where
  copied k hlo hhi := by
    obtain rfl | hlo := Nat.eq_or_lt_of_le hlo
    · rw [h.frame, store_self]
      intro j hj hj'
      apply (hdst j hj hj').symm
    · rw [h.copied k hlo hhi, store_of_ne (hsrc k (by omega) hhi)]
  frame a ha := by
    rw [h.frame a fun k hk hk' => ha k (by omega) hk', store_of_ne (ha lo le_rfl hlt)]

/-! ### Blocks of bytes -/

/-- The memory after the bytes `l` are stored at `a` and the addresses after it. -/
def write (m : Memory) (a : BitVec 16) : List (BitVec 8) → Memory
  | [] => m
  | c :: l => (m.store a c).write (a + 1) l

/-- The `n` bytes at `a` and the addresses after it. -/
def read (m : Memory) (a : BitVec 16) : ℕ → List (BitVec 8)
  | 0 => []
  | n + 1 => m a :: m.read (a + 1) n

/-- A write in two parts. -/
theorem write_append (m : Memory) (a : BitVec 16) (l₁ l₂ : List (BitVec 8)) :
  m.write a (l₁ ++ l₂) = (m.write a l₁).write (a + BitVec.ofNat 16 l₁.length) l₂
  := by
  induction l₁ generalizing m a with
  | nil =>
      have hzero : a + BitVec.ofNat 16 0 = a := by simp
      rw [List.nil_append, List.length_nil, hzero, write]
  | cons c l₁ ih =>
      have hsucc : a + 1 + BitVec.ofNat 16 l₁.length = a + BitVec.ofNat 16 (l₁.length + 1) := by
        bv_omega
      rw [List.cons_append, write, write, ih, hsucc, List.length_cons]

/-- A byte after a write depends on the byte before it only. -/
theorem write_congr {m' : Memory} (l : List (BitVec 8)) (h : m' b = m b) :
  m'.write a l b = m.write a l b
  := by
  induction l generalizing m m' a with
  | nil => exact h
  | cons c l ih =>
      apply ih
      simp only [store, h]

/-- The bytes before and after those that are written. -/
theorem write_of_lt_or_le {l : List (BitVec 8)} (hle : a.toNat + l.length ≤ 2 ^ 16)
    (hb : b.toNat < a.toNat ∨ a.toNat + l.length ≤ b.toNat) :
  m.write a l b = m b
  := by
  induction l generalizing m a with
  | nil => rfl
  | cons c l ih =>
      rw [List.length_cons] at hle hb
      have hne : b ≠ a := by
        rintro rfl
        omega
      rw [write]
      by_cases hlast : l = []
      · rw [hlast, write, store_of_ne hne]
      · have hpos := List.length_pos_iff.mpr hlast
        rw [ih (by bv_omega) (by bv_omega), store_of_ne hne]

/-- A read depends on the bytes that it reads only. -/
theorem read_congr {m' : Memory} {n : ℕ} (hle : a.toNat + n ≤ 2 ^ 16)
    (h : ∀ b, a.toNat ≤ b.toNat → b.toNat < a.toNat + n → m' b = m b) :
  m'.read a n = m.read a n
  := by
  induction n generalizing a with
  | zero => rfl
  | succ n ih =>
      rw [read, read, h a le_rfl (by omega)]
      by_cases hlast : n = 0
      · rw [hlast, read, read]
      · rw [ih (by bv_omega)]
        intro b hb hb'
        apply h b (by bv_omega) (by bv_omega)

end Memory
