import Mosnix.Libc.String

/-!
# Words of a command line

The words of a line that is typed into the shell.  Words are separated by white space.  In a word,
quotes are removed, and joined with the text around them; a backslash that is not in single quotes
stands for the character after it.  An unquoted `#` at the start of a word starts a comment.
-/

namespace Mosnix.Shell

def SINGLE_QUOTE : Byte := 0x27
def DOUBLE_QUOTE : Byte := 0x22
def BACKSLASH : Byte := 0x5C

/-- Maximum number of words of a command. -/
def CONFIG_ARGC_MAX : ℕ := 64

/-- `cmd_isspace` -/
def cmdIsspace (ch : Byte) : Bool :=
  ch = chr ' ' || (0x09 ≤ ch && ch ≤ 0x0D)

/-- The quotes around a character of a word. -/
inductive Quote where
  | none
  | single
  | double
  deriving DecidableEq

/-- A character of a word before the rest of it. -/
def consWord (c : Byte) (r : List Byte × Bool × List Byte) : List Byte × Bool × List Byte :=
  (c :: r.1, r.2)

/-- The word at the start of a line, whether its quotes are closed, and the rest of the line. -/
def takeWord : Quote → List Byte → List Byte × Bool × List Byte
  | q, [] => ([], q = .none, [])
  | .none, c :: cs =>
      if cmdIsspace c then ([], true, cs)
      else if c = SINGLE_QUOTE then takeWord .single cs
      else if c = DOUBLE_QUOTE then takeWord .double cs
      else if c = BACKSLASH then
        match cs with
        | [] => ([BACKSLASH], true, [])
        | d :: cs => consWord d (takeWord .none cs)
      else consWord c (takeWord .none cs)
  | .single, c :: cs =>
      if c = SINGLE_QUOTE then takeWord .none cs
      else consWord c (takeWord .single cs)
  | .double, c :: cs =>
      if c = DOUBLE_QUOTE then takeWord .none cs
      else if c = BACKSLASH then
        match cs with
        | [] => ([BACKSLASH], false, [])
        | d :: cs => consWord d (takeWord .double cs)
      else consWord c (takeWord .double cs)

theorem length_takeWord_le (q : Quote) (line : List Byte) :
  (takeWord q line).2.2.length ≤ line.length
  := by
  fun_induction takeWord q line <;> simp_all [consWord] <;> omega

/-- A word has at least one character of its line. -/
theorem length_takeWord_lt (c : Byte) (cs : List Byte) :
  (takeWord .none (c :: cs)).2.2.length < (c :: cs).length
  := by
  have hle (q : Quote) (line : List Byte) := length_takeWord_le q line
  rw [takeWord.eq_def, List.length_cons, Nat.lt_succ_iff]
  dsimp only
  split_ifs
  · exact le_rfl
  · apply hle
  · apply hle
  · cases cs with
    | nil => exact le_rfl
    | cons d cs => exact (hle .none cs).trans (Nat.le_succ _)
  · apply hle

variable {line : List Byte} {q : Quote} {c : Byte}

/-- The characters of a word are characters of its line. -/
theorem mem_of_mem_takeWord (h : c ∈ (takeWord q line).1) :
  c ∈ line
  := by
  fun_induction takeWord q line <;> simp_all [consWord] <;> tauto

/-- The characters of the rest are characters of the line. -/
theorem mem_of_mem_rest (h : c ∈ (takeWord q line).2.2) :
  c ∈ line
  := by
  fun_induction takeWord q line <;> simp_all [consWord]

/-- A word whose quotes are not closed takes the whole line. -/
theorem rest_eq_nil_of_not_closed (h : (takeWord q line).2.1 = false) :
  (takeWord q line).2.2 = []
  := by
  fun_induction takeWord q line <;> simp_all [consWord]

/-- The words of a line, each with whether its quotes are closed. -/
def splitWords (line : List Byte) : List (List Byte × Bool) :=
  match _h : line.dropWhile cmdIsspace with
  | [] => []
  | c :: cs =>
      if c = chr '#' then []
      else
        let r := takeWord .none (c :: cs)
        (r.1, r.2.1) :: splitWords r.2.2
termination_by line.length
decreasing_by
  have hlt := length_takeWord_lt c cs
  have hle := (List.dropWhile_suffix cmdIsspace (l := line)).length_le
  rw [_h] at hle
  exact hlt.trans_le hle

theorem splitWords_nil (h : line.dropWhile cmdIsspace = []) :
  splitWords line = []
  := by
  rw [splitWords]
  split
  · rfl
  · next heq => rw [h] at heq; cases heq

/-- The first word of a line. -/
theorem splitWords_cons {cs : List Byte} (h : line.dropWhile cmdIsspace = c :: cs) :
  splitWords line = if c = chr '#' then [] else
    ((takeWord .none (c :: cs)).1, (takeWord .none (c :: cs)).2.1)
      :: splitWords (takeWord .none (c :: cs)).2.2
  := by
  rw [splitWords]
  split
  · next heq => rw [h] at heq; cases heq
  · next heq =>
      rw [h] at heq
      cases heq
      rfl

/-- The errors of the shell in a command line. -/
inductive TokenError where
  | tooManyArguments
  | unterminatedQuote
  deriving DecidableEq

/-- The arguments of a command line. -/
def tokenize (line : List Byte) : Except TokenError (List (List Byte)) :=
  if CONFIG_ARGC_MAX < (splitWords line).length then .error .tooManyArguments
  else if (splitWords line).all Prod.snd then .ok ((splitWords line).map Prod.fst)
  else .error .unterminatedQuote

end Mosnix.Shell
