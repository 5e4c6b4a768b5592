import Mosnix.Libc.String

/-!
# Parsing the options of a command line

`getopt` of the C library.  A string can be read up to its terminating NUL; reading a character
behind it, of an argument or of the options string, is a fault, which is modelled by `none`.
-/

namespace Mosnix.Libc

/-- The vector of arguments, of which `argc` is the length. -/
abbrev Argv := List (Option CStr)

/-- The variables of `getopt`, and the text that was written to the standard error.  The pointer
`nextchar` is an index of `argv` with an offset. -/
structure Getopt where
  optarg : Option (List Byte) := none
  optind : ℕ := 0
  nextind : ℕ := 1
  nextchar : Option (ℕ × ℕ) := none
  stderr : List Byte := []

/-- `unknown_option` -/
def unknownOption (s : Getopt) (name : List Byte) (chname : Byte) : Getopt :=
  { s with stderr := s.stderr ++ str "unknown option `" ++
      (if chname ≠ 0 then [chr '-', chname] else name) ++ str "'\n" }

/-- `missing_argument`, which writes 22 characters of its message. -/
def missingArgument (s : Getopt) (chname : Byte) : Getopt :=
  { s with stderr := s.stderr ++ (str "missing argument for `-").take 22 ++ [chname] ++ str "'\n" }

/-- The character `argv[i][k]`. -/
def readChar (argv : Argv) (i k : ℕ) : Option Byte := do
  (← argv[i]?.join).charAt k

/-- The part of `getopt` that processes the option character at `argv[i][k]`: the character that is
returned, and the new state. -/
def getoptChar (argv : Argv) (options : CStr) (i k : ℕ) (s : Getopt) :
    Option (Option Byte × Getopt) := do
  let ch ← readChar argv i k
  let s := { s with nextchar := some (i, k + 1) }
  match strchr options ch with
  | none =>
      let s := unknownOption s [] ch
      return (some (chr '?'), { s with optind := s.nextind })
  | some opt =>
      if (← options.charAt (opt + 1)) = chr ':' then
        let s := { s with optind := s.nextind, nextind := s.nextind + 1 }
        if (← readChar argv i (k + 1)) ≠ 0 then
          let arg ← argv[i]?.join
          return (some ch, { s with optarg := some (arg.chars.drop (k + 1)), nextchar := none })
        else if s.nextind < argv.length then
          return (some ch, { s with
            optarg := argv[s.nextind]?.join.map CStr.chars
            nextind := s.nextind + 1
            optind := s.nextind + 1 })
        else
          let s := missingArgument s ch
          return (some (chr '?'), { s with optind := s.nextind, nextind := s.nextind + 1 })
      else
        let s := { s with optind := s.nextind }
        if (← readChar argv i (k + 1)) = 0 then
          return (some ch, { s with nextchar := none, nextind := s.nextind + 1 })
        else
          return (some ch, s)

/-- The part of `getopt` that looks at the next argument. -/
def getoptArg (argv : Argv) (options : CStr) (s : Getopt) : Option (Option Byte × Getopt) := do
  match argv[s.nextind]?.join with
  | none => return (none, { s with optind := s.nextind, nextind := s.nextind + 1 })
  | some arg =>
      if (← arg.charAt 0) = chr '-' then
        if (← arg.charAt 1) = chr '-' then
          if (← arg.charAt 2) ≠ 0 then
            let s := unknownOption s arg.chars 0
            return (some (chr '?'), { s with optind := s.nextind })
          else
            return (none, { s with nextind := s.nextind + 1, optind := s.nextind + 1 })
        else if (← arg.charAt 1) ≠ 0 then
          getoptChar argv options s.nextind 1
            { s with nextchar := some (s.nextind, 1), optind := s.nextind }
        else
          return (none, { s with optind := s.nextind })
      else
        return (none, { s with optind := s.nextind })

/-- The forced reset of the option parsing at the start of `getopt`. -/
def Getopt.reset (s : Getopt) : Getopt :=
  if s.optind = 0 then { s with optind := 1, nextind := 1, nextchar := none } else s

/-- `getopt`: the option character that is returned, or `none` for -1, and the new state. -/
def getopt (argv : Argv) (options : CStr) (s : Getopt) : Option (Option Byte × Getopt) :=
  let s := { s.reset with optarg := none }
  match s.nextchar with
  | some (i, k) => getoptChar argv options i k s
  | none => getoptArg argv options s

/-- Repeated calls of `getopt` return the given characters, each with the given value of `optarg`,
and then -1 with the given value of `optind`. -/
def Yields (argv : Argv) (options : CStr) :
    Getopt → List (Byte × Option (List Byte)) → ℕ → Prop
  | s, [], index => ∃ s', getopt argv options s = some (none, s') ∧ s'.optind = index
  | s, (ch, arg) :: results, index =>
      ∃ s', getopt argv options s = some (some ch, s') ∧ s'.optarg = arg
        ∧ Yields argv options s' results index

/-- Repeated calls of `getopt` return -1 after finitely many calls. -/
def Finishes (argv : Argv) (options : CStr) (s : Getopt) : Prop :=
  ∃ results index, Yields argv options s results index

/-! ### Options -/

/-- The kind of an option: whether it takes an argument, if it is known. -/
def optionKind (options : CStr) (ch : Byte) : Option Bool :=
  (strchr options ch).map fun opt => options.charAt (opt + 1) = some (chr ':')

/-- The character after an option in the options string. -/
theorem charAt_of_optionKind {options : CStr} {ch : Byte} {takesArg : Bool} (hch : ch ≠ 0)
    (h : optionKind options ch = some takesArg) :
  ∃ opt next, strchr options ch = some opt ∧ options.charAt (opt + 1) = some next
    ∧ (next = chr ':' ↔ takesArg = true)
  := by
  obtain ⟨opt, hopt, rfl⟩ := Option.map_eq_some_iff.mp h
  have hnext := CStr.charAt_of_le (strchr_lt hch hopt)
  refine ⟨opt, _, hopt, hnext, ?_⟩
  rw [hnext]
  simp

/-! ### One call -/

section Step

variable {argv : Argv} {options arg : CStr} {s : Getopt} {i k : ℕ} {c : Byte} {cs : List Byte}

/-- The parser is between two arguments. -/
structure Between (s : Getopt) (i : ℕ) : Prop where
  pos : 0 < i
  optind_pos : 0 < s.optind
  nextind_eq : s.nextind = i
  nextchar_eq : s.nextchar = none

/-- The parser is in an argument, at an offset. -/
structure Inside (s : Getopt) (i k : ℕ) : Prop where
  pos : 0 < i
  optind_pos : 0 < s.optind
  nextind_eq : s.nextind = i
  nextchar_eq : s.nextchar = some (i, k)

theorem reset_of_pos (h : 0 < s.optind) : s.reset = s :=
  if_neg h.ne'

/-- A call between two arguments. -/
theorem getopt_between (h : Between s i) :
  getopt argv options s = getoptArg argv options { s with optarg := none }
  := by
  simp only [getopt, reset_of_pos h.optind_pos, h.nextchar_eq]

/-- A call inside an argument. -/
theorem getopt_nextchar (hpos : 0 < s.optind) (hnext : s.nextchar = some (i, k)) :
  getopt argv options s = getoptChar argv options i k { s with optarg := none }
  := by
  simp only [getopt, reset_of_pos hpos, hnext]

theorem readChar_eq (harg : argv[i]? = some (some arg)) : readChar argv i k = arg.charAt k := by
  simp [readChar, harg]

/-- The arguments are over. -/
theorem getopt_end (options : CStr) (h : Between s i) (harg : argv[i]?.join = none) :
  ∃ s', getopt argv options s = some (none, s') ∧ s'.optind = i
  := by
  rw [getopt_between h]
  simp [getoptArg, h.nextind_eq, harg]

/-- The argument `--` ends the options. -/
theorem getopt_terminator (options : CStr) (h : Between s i) (harg : argv[i]? = some (some arg))
    (hchars : arg.chars = [chr '-', chr '-']) :
  ∃ s', getopt argv options s = some (none, s') ∧ s'.optind = i + 1
  := by
  rw [getopt_between h]
  simp [getoptArg, h.nextind_eq, harg, CStr.charAt, hchars]

/-- An argument that does not start with a hyphen, or is a hyphen, ends the options. -/
theorem getopt_operand (options : CStr) (h : Between s i) (harg : argv[i]? = some (some arg))
    (hchars : arg.chars.head? ≠ some (chr '-') ∨ arg.chars = [chr '-']) :
  ∃ s', getopt argv options s = some (none, s') ∧ s'.optind = i
  := by
  have hnul : 0#8 ≠ chr '-' := by decide
  rw [getopt_between h]
  obtain hhead | hhyphen := hchars
  · cases hc : arg.chars with
    | nil => simp [getoptArg, h.nextind_eq, harg, CStr.charAt, hc, hnul]
    | cons c cs =>
        have hne : c ≠ chr '-' := by simpa [hc] using hhead
        simp [getoptArg, h.nextind_eq, harg, CStr.charAt, hc, hne]
  · simp [getoptArg, h.nextind_eq, harg, CStr.charAt, hhyphen, hnul]

/-- After an unknown long option the parser is where it was. -/
theorem getopt_long (options : CStr) (h : Between s i) (harg : argv[i]? = some (some arg))
    (hchars : arg.chars = chr '-' :: chr '-' :: c :: cs) :
  ∃ s', getopt argv options s = some (some (chr '?'), s') ∧ Between s' i
  := by
  have hc : c ≠ 0#8 := CStr.ne_nul_of_drop (s := arg) (i := 2) (by rw [hchars]; rfl)
  rw [getopt_between h]
  refine ⟨{ unknownOption { s with optarg := none } arg.chars 0 with optind := i }, ?_, ?_⟩
  · simp [getoptArg, h.nextind_eq, harg, CStr.charAt, hchars, hc, unknownOption]
  · exact ⟨h.pos, h.pos, h.nextind_eq, h.nextchar_eq⟩

/-- A group of options is entered. -/
theorem getopt_group (options : CStr) (h : Between s i) (harg : argv[i]? = some (some arg))
    (hchars : arg.chars = chr '-' :: c :: cs) (hc : c ≠ chr '-') :
  ∃ s', Inside s' i 1 ∧ getopt argv options s = getopt argv options s'
  := by
  have hnul : c ≠ 0#8 := CStr.ne_nul_of_drop (s := arg) (i := 1) (by rw [hchars]; rfl)
  refine ⟨{ s with optarg := none, nextchar := some (i, 1), optind := i },
    ⟨h.pos, h.pos, h.nextind_eq, rfl⟩, ?_⟩
  rw [getopt_between h, getopt_nextchar h.pos rfl]
  simp [getoptArg, h.nextind_eq, harg, CStr.charAt, hchars, hc, hnul]

/-! ### One option -/

/-- A character that is not an option is skipped. -/
theorem getopt_unknown (h : Inside s i k) (harg : argv[i]? = some (some arg))
    (hdrop : arg.chars.drop k = c :: cs) (hkind : optionKind options c = none) :
  ∃ s', getopt argv options s = some (some (chr '?'), s') ∧ s'.optarg = none ∧ Inside s' i (k + 1)
  := by
  have hopt : strchr options c = none := Option.map_eq_none_iff.mp hkind
  rw [getopt_nextchar h.optind_pos h.nextchar_eq]
  refine ⟨{ unknownOption { s with optarg := none, nextchar := some (i, k + 1) } [] c with
    optind := i }, ?_, rfl, ⟨h.pos, h.pos, h.nextind_eq, rfl⟩⟩
  simp [getoptChar, readChar_eq harg, (CStr.charAt_of_drop hdrop).1, hopt, unknownOption,
    h.nextind_eq]

/-- An option without an argument. -/
theorem getopt_flag (h : Inside s i k) (harg : argv[i]? = some (some arg))
    (hdrop : arg.chars.drop k = c :: cs) (hkind : optionKind options c = some false) :
  ∃ s', getopt argv options s = some (some c, s') ∧ s'.optarg = none
    ∧ if cs = [] then Between s' (i + 1) else Inside s' i (k + 1)
  := by
  obtain ⟨opt, next, hopt, hnext, hcolon⟩ :=
    charAt_of_optionKind (CStr.ne_nul_of_drop hdrop) hkind
  have hne : next ≠ chr ':' := fun heq => by simpa using hcolon.mp heq
  obtain ⟨hch, hch'⟩ := CStr.charAt_of_drop hdrop
  rw [getopt_nextchar h.optind_pos h.nextchar_eq]
  by_cases hcs : cs = []
  · refine ⟨{ s with optarg := none, nextchar := none, optind := i, nextind := i + 1 }, ?_, rfl, ?_⟩
    · simp [getoptChar, readChar_eq harg, hch, hch', hopt, hnext, hne, h.nextind_eq, hcs]
    · rw [if_pos hcs]
      exact ⟨Nat.succ_pos i, h.pos, rfl, rfl⟩
  · have hnul : cs.headD 0 ≠ 0 := fun heq => hcs ((CStr.headD_eq_nul_iff hdrop).mp heq)
    refine ⟨{ s with optarg := none, nextchar := some (i, k + 1), optind := i }, ?_, rfl, ?_⟩
    · simp only [getoptChar, readChar_eq harg, hch, hch', hopt, hnext, h.nextind_eq,
        Option.bind_eq_bind, Option.bind_some, if_neg hne, if_neg hnul]
      rfl
    · rw [if_neg hcs]
      exact ⟨h.pos, h.pos, h.nextind_eq, rfl⟩

/-- An option with the rest of the group as its argument. -/
theorem getopt_attached (h : Inside s i k) (harg : argv[i]? = some (some arg))
    (hdrop : arg.chars.drop k = c :: cs) (hcs : cs ≠ [])
    (hkind : optionKind options c = some true) :
  ∃ s', getopt argv options s = some (some c, s') ∧ s'.optarg = some cs ∧ Between s' (i + 1)
  := by
  obtain ⟨opt, next, hopt, hnext, hcolon⟩ :=
    charAt_of_optionKind (CStr.ne_nul_of_drop hdrop) hkind
  have heq : next = chr ':' := hcolon.mpr rfl
  obtain ⟨hch, hch'⟩ := CStr.charAt_of_drop hdrop
  have hnul : cs.headD 0 ≠ 0 := fun heq => hcs ((CStr.headD_eq_nul_iff hdrop).mp heq)
  have hrest := CStr.drop_succ hdrop
  rw [getopt_nextchar h.optind_pos h.nextchar_eq]
  refine ⟨{ s with optarg := some cs, nextchar := none, optind := i, nextind := i + 1 }, ?_, rfl,
    ⟨Nat.succ_pos i, h.pos, rfl, rfl⟩⟩
  simp only [getoptChar, readChar_eq harg, hch, hch', hopt, hnext, h.nextind_eq, harg, hrest,
    Option.bind_eq_bind, Option.bind_some, Option.join_some, if_pos heq, if_pos hnul]
  rfl

/-- The pointer `nextchar` is at the NUL at the end of an argument. -/
def Stale (argv : Argv) (s : Getopt) : Prop :=
  0 < s.optind ∧ ∃ i arg, argv[i]? = some (some arg) ∧ s.nextchar = some (i, arg.chars.length)

/-- An option at the end of a group with the next argument as its argument, or without an
argument: the pointer `nextchar` is not reset. -/
theorem getopt_detached (h : Inside s i k) (harg : argv[i]? = some (some arg))
    (hdrop : arg.chars.drop k = [c]) (hkind : optionKind options c = some true) :
  ∃ r s', getopt argv options s = some (some r, s') ∧ Stale argv s'
    ∧ ∀ value : CStr, argv[i + 1]? = some (some value) → r = c ∧ s'.optarg = some value.chars
  := by
  obtain ⟨opt, next, hopt, hnext, hcolon⟩ :=
    charAt_of_optionKind (CStr.ne_nul_of_drop hdrop) hkind
  have heq : next = chr ':' := hcolon.mpr rfl
  obtain ⟨hch, hch'⟩ := CStr.charAt_of_drop hdrop
  have hlength : k + 1 = arg.chars.length := by
    have hlen := congrArg List.length hdrop
    rw [List.length_drop, List.length_singleton] at hlen
    omega
  rw [getopt_nextchar h.optind_pos h.nextchar_eq]
  by_cases hlt : i + 1 < argv.length
  · refine ⟨c, { s with
      optarg := argv[i + 1]?.join.map CStr.chars
      nextchar := some (i, k + 1)
      optind := i + 2
      nextind := i + 2 }, ?_, ⟨Nat.succ_pos _, i, arg, harg, by rw [← hlength]⟩, ?_⟩
    · simp [getoptChar, readChar_eq harg, hch, hch', hopt, hnext, heq, h.nextind_eq, hlt]
    · intro value hvalue
      refine ⟨rfl, ?_⟩
      simp [hvalue]
  · refine ⟨chr '?', { missingArgument { s with
        optarg := none
        nextchar := some (i, k + 1)
        optind := i
        nextind := i + 1 } c with
      optind := i + 1
      nextind := i + 2 }, ?_, ⟨Nat.succ_pos _, i, arg, harg, by rw [← hlength]; rfl⟩, ?_⟩
    · simp [getoptChar, readChar_eq harg, hch, hch', hopt, hnext, heq, h.nextind_eq, hlt,
        missingArgument]
    · intro value hvalue
      exact absurd (List.getElem?_eq_some_iff.mp hvalue).1 hlt

/-- The next call looks for the NUL in the options string, and reads the character after it. -/
theorem Stale.getopt_eq_none (h : Stale argv s) : getopt argv options s = none := by
  obtain ⟨hpos, i, arg, harg, hnext⟩ := h
  rw [getopt_nextchar hpos hnext]
  have hch : arg.charAt arg.chars.length = some 0 := by simp [CStr.charAt]
  simp only [getoptChar, readChar_eq harg, hch, strchr_nul, CStr.charAt_length_succ,
    Option.bind_eq_bind, Option.bind_some, Option.bind_none]

/-- The parser starts anew. -/
theorem getopt_reset (argv : Argv) (options : CStr) (h : s.optind = 0) :
  ∃ s', Between s' 1 ∧ getopt argv options s = getopt argv options s'
  := by
  refine ⟨{ s with optind := 1, nextind := 1, nextchar := none },
    ⟨Nat.one_pos, Nat.one_pos, rfl, rfl⟩, ?_⟩
  simp [getopt, Getopt.reset, h]

/-! ### Repeated calls -/

theorem yields_congr {s' : Getopt} (h : getopt argv options s = getopt argv options s')
    (results : List (Byte × Option (List Byte))) (index : ℕ) :
  Yields argv options s results index ↔ Yields argv options s' results index
  := by
  cases results with
  | nil => rw [Yields, Yields, h]
  | cons result results => rw [Yields, Yields, h]

/-- The first result, and the ones that follow. -/
theorem yields_cons {s' : Getopt} {r : Byte} (h : getopt argv options s = some (some r, s'))
    (results : List (Byte × Option (List Byte))) (index : ℕ) :
  Yields argv options s ((r, s'.optarg) :: results) index ↔ Yields argv options s' results index
  := by
  rw [Yields, h]
  constructor
  · rintro ⟨s'', heq, -, hyields⟩
    cases heq
    apply hyields
  · intro hyields
    exact ⟨s', rfl, rfl, hyields⟩

/-- A stale position yields nothing. -/
theorem Stale.not_yields (h : Stale argv s) (results : List (Byte × Option (List Byte)))
    (index : ℕ) :
  ¬ Yields argv options s results index
  := by
  cases results with
  | nil =>
      rintro ⟨s', hs', -⟩
      rw [h.getopt_eq_none] at hs'
      cases hs'
  | cons result results =>
      rintro ⟨s', hs', -, -⟩
      rw [h.getopt_eq_none] at hs'
      cases hs'

theorem finishes_congr {s' : Getopt} (h : getopt argv options s = getopt argv options s') :
  Finishes argv options s ↔ Finishes argv options s'
  := by
  apply exists_congr
  intro results
  apply exists_congr
  intro index
  apply yields_congr h

theorem finishes_of_none {s' : Getopt} (h : getopt argv options s = some (none, s')) :
  Finishes argv options s
  := ⟨[], s'.optind, s', h, rfl⟩

/-- A call that returns an option. -/
theorem finishes_of_some {s' : Getopt} {r : Byte} (h : getopt argv options s = some (some r, s')) :
  Finishes argv options s ↔ Finishes argv options s'
  := by
  constructor
  · rintro ⟨results, index, hyields⟩
    cases results with
    | nil =>
        obtain ⟨s'', hs'', -⟩ := hyields
        rw [h] at hs''
        cases hs''
    | cons result results =>
        obtain ⟨s'', hs'', -, hyields⟩ := hyields
        rw [h] at hs''
        cases hs''
        exact ⟨results, index, hyields⟩
  · rintro ⟨results, index, hyields⟩
    exact ⟨_, index, (yields_cons h results index).mpr hyields⟩

theorem Stale.not_finishes (h : Stale argv s) : ¬ Finishes argv options s := by
  rintro ⟨results, index, hyields⟩
  apply h.not_yields results index hyields

/-- A parser that is where it was after each call does not finish. -/
theorem not_finishes_of_long (options : CStr) (h : Between s i) (harg : argv[i]? = some (some arg))
    (hchars : arg.chars = chr '-' :: chr '-' :: c :: cs) :
  ¬ Finishes argv options s
  := by
  rintro ⟨results, index, hyields⟩
  induction results generalizing s with
  | nil =>
      obtain ⟨s', hs', -⟩ := hyields
      obtain ⟨s'', hs'', -⟩ := getopt_long options h harg hchars
      rw [hs''] at hs'
      cases hs'
  | cons result results ih =>
      obtain ⟨s', hs', -, hyields⟩ := hyields
      obtain ⟨s'', hs'', hbetween⟩ := getopt_long options h harg hchars
      rw [hs'', Option.some.injEq, Prod.mk.injEq] at hs'
      obtain ⟨-, rfl⟩ := hs'
      apply ih hbetween hyields

end Step

end Mosnix.Libc
