import Mosnix.Libc.Getopt

/-!
# What `getopt` returns for a command line

The command lines for which repeated calls of `getopt` come to an end, and the options that a
well-formed command line has.  After an option at the end of its argument that takes an argument, and
after an unknown option at the end of its argument, `getopt` keeps a pointer to the end of the
argument; the next call then reads behind the end of the options string.  An unknown long option is
never left.
-/

namespace Mosnix.Libc

/-- The forms of an argument: an operand, the end of the options, a long option, or a group of
options. -/
theorem arg_cases (chars : List Byte) :
  (chars.head? ≠ some (chr '-') ∨ chars = [chr '-']) ∨ chars = [chr '-', chr '-']
    ∨ (∃ c cs, chars = chr '-' :: chr '-' :: c :: cs)
    ∨ ∃ c cs, chars = chr '-' :: c :: cs ∧ c ≠ chr '-'
  := by
  match chars with
  | [] => simp
  | [c] => by_cases hc : c = chr '-' <;> simp [hc]
  | c :: d :: cs =>
      by_cases hc : c = chr '-'
      · by_cases hd : d = chr '-'
        · cases cs with
          | nil => simp [hc, hd]
          | cons e cs => simp [hc, hd]
        · simp [hc, hd]
      · simp [hc]

/-! ### Command lines that come to an end -/

/-- An argument that `getopt` looks into: it starts with a hyphen, and is neither `-` nor `--`. -/
def isOption : Option CStr → Bool
  | none => false
  | some arg =>
      arg.chars.head? = some (chr '-') && arg.chars != [chr '-'] && arg.chars != [chr '-', chr '-']

/-- A group of option characters that does not end with an unknown option, nor with an option that
takes an argument. -/
def groupEnds (options : CStr) : List Byte → Bool
  | [] => true
  | c :: cs =>
      match optionKind options c with
      | none => !cs.isEmpty && groupEnds options cs
      | some false => groupEnds options cs
      | some true => !cs.isEmpty

/-- An argument with options that is not a long option, and whose group ends well. -/
def argEnds (options : CStr) : Option CStr → Bool
  | none => true
  | some arg =>
      match arg.chars with
      | _ :: c :: cs => c != chr '-' && groupEnds options (c :: cs)
      | _ => true

section Finishes

variable {argv : Argv} {options arg : CStr} {s : Getopt} {i k : ℕ}

/-- A group of options, before arguments for which `getopt` comes to an end if and only if `F`. -/
theorem finishes_group {F : Prop} (letters : List Byte) (h : Inside s i k)
    (harg : argv[i]? = some (some arg)) (hdrop : arg.chars.drop k = letters) (hne : letters ≠ [])
    (hF : ∀ s', Between s' (i + 1) → (Finishes argv options s' ↔ F)) :
  Finishes argv options s ↔ groupEnds options letters = true ∧ F
  := by
  induction letters generalizing s k with
  | nil => exact absurd rfl hne
  | cons c cs ih =>
      have hrest := CStr.drop_succ hdrop
      cases hkind : optionKind options c with
      | none =>
          obtain ⟨s', hs', -, hinside⟩ := getopt_unknown h harg hdrop hkind
          rw [finishes_of_some hs']
          by_cases hcs : cs = []
          · subst hcs
            have hstale : Stale argv s' := by
              have hlen := congrArg List.length hdrop
              rw [List.length_drop, List.length_singleton] at hlen
              refine ⟨hinside.optind_pos, i, arg, harg, ?_⟩
              rw [hinside.nextchar_eq, show arg.chars.length = k + 1 by omega]
            simp [groupEnds, hkind, hstale.not_finishes]
          · rw [ih hinside hrest hcs]
            simp [groupEnds, hkind, hcs]
      | some takesArg =>
          cases takesArg with
          | false =>
              obtain ⟨s', hs', -, hnext⟩ := getopt_flag h harg hdrop hkind
              rw [finishes_of_some hs']
              by_cases hcs : cs = []
              · rw [if_pos hcs] at hnext
                rw [hF s' hnext]
                simp [groupEnds, hkind, hcs]
              · rw [if_neg hcs] at hnext
                rw [ih hnext hrest hcs]
                simp [groupEnds, hkind]
          | true =>
              by_cases hcs : cs = []
              · subst hcs
                obtain ⟨r, s', hs', hstale, -⟩ := getopt_detached h harg hdrop hkind
                rw [finishes_of_some hs']
                simp [groupEnds, hkind, hstale.not_finishes]
              · obtain ⟨s', hs', -, hbetween⟩ := getopt_attached h harg hdrop hcs hkind
                rw [finishes_of_some hs', hF s' hbetween]
                simp [groupEnds, hkind, hcs]

/-- The calls finish if every argument with options ends. -/
theorem finishes_between (rest : List (Option CStr)) (h : Between s i) (hrest : argv.drop i = rest) :
  Finishes argv options s ↔ ∀ arg ∈ rest.takeWhile isOption, argEnds options arg = true
  := by
  induction rest generalizing s i with
  | nil =>
      have harg : argv[i]?.join = none := by
        rw [List.getElem?_eq_none (List.drop_eq_nil_iff.mp hrest)]
        rfl
      obtain ⟨s', hs', -⟩ := getopt_end options h harg
      simp [finishes_of_none hs']
  | cons x rest ih =>
      have harg : argv[i]? = some x := by
        rw [← List.head?_drop, hrest]
        rfl
      have hnext : argv.drop (i + 1) = rest := by
        rw [← List.drop_drop, hrest]
        rfl
      cases x with
      | none =>
          obtain ⟨s', hs', -⟩ := getopt_end options h (by rw [harg]; rfl)
          simp [finishes_of_none hs', isOption]
      | some arg =>
          obtain hchars | hchars | ⟨c, cs, hchars⟩ | ⟨c, cs, hchars, hc⟩ := arg_cases arg.chars
          · obtain ⟨s', hs', -⟩ := getopt_operand options h harg hchars
            have hoption : isOption (some arg) = false := by
              obtain hhead | hhyphen := hchars
              · simp [isOption, hhead]
              · simp [isOption, hhyphen]
            simp [finishes_of_none hs', hoption]
          · obtain ⟨s', hs', -⟩ := getopt_terminator options h harg hchars
            simp [finishes_of_none hs', isOption, hchars]
          · have hlong := not_finishes_of_long options h harg hchars
            simp [hlong, isOption, argEnds, hchars]
          · obtain ⟨s', hinside, heq⟩ := getopt_group options h harg hchars hc
            have hdrop : arg.chars.drop 1 = c :: cs := by
              rw [hchars]
              rfl
            rw [finishes_congr heq, finishes_group (c :: cs) hinside harg hdrop (List.cons_ne_nil c cs)
              (fun s' hs' => ih hs' hnext)]
            simp [isOption, argEnds, hchars, hc]

/-- Repeated calls of `getopt` from `optind = 0` on come to an end if and only if, among the
arguments before the first operand, no one is a long option, or ends with an unknown option or with
an option that takes an argument. -/
theorem getopt_finishes_iff (argv : Argv) (options : CStr) (s : Getopt) (hs : s.optind = 0) :
  Finishes argv options s
    ↔ ∀ arg ∈ (argv.drop 1).takeWhile isOption, argEnds options arg = true
  := by
  obtain ⟨s', hbetween, heq⟩ := getopt_reset argv options hs
  rw [finishes_congr heq, finishes_between (argv.drop 1) hbetween rfl]

end Finishes

/-- The command line `prog -a -bx file` with the options `ab:`. -/
theorem getopt_finishes_file :
  Finishes [some ⟨str "prog", by decide⟩, some ⟨str "-a", by decide⟩, some ⟨str "-bx", by decide⟩,
    some ⟨str "file", by decide⟩] ⟨str "ab:", by decide⟩ {}
  := (getopt_finishes_iff _ _ {} rfl).mpr (by decide)

/-- The command line `prog --foo`: every call of `getopt` returns `?` and leaves the parser before
the same argument. -/
theorem getopt_foo :
  (∃ s', getopt [some ⟨str "prog", by decide⟩, some ⟨str "--foo", by decide⟩] ⟨str "a", by decide⟩ {}
      = some (some (chr '?'), s') ∧ Between s' 1)
    ∧ (∀ s, Between s 1 → ∃ s',
        getopt [some ⟨str "prog", by decide⟩, some ⟨str "--foo", by decide⟩] ⟨str "a", by decide⟩ s
          = some (some (chr '?'), s') ∧ Between s' 1)
    ∧ ¬ Finishes [some ⟨str "prog", by decide⟩, some ⟨str "--foo", by decide⟩] ⟨str "a", by decide⟩ {}
  := by
  obtain ⟨s₀, hbetween, heq⟩ := getopt_reset
    [some ⟨str "prog", by decide⟩, some ⟨str "--foo", by decide⟩] ⟨str "a", by decide⟩
    (s := {}) rfl
  have harg : [some (CStr.mk (str "prog") (by decide)), some ⟨str "--foo", by decide⟩][1]? =
      some (some ⟨str "--foo", by decide⟩) := rfl
  refine ⟨?_, ?_, ?_⟩
  · rw [heq]
    exact getopt_long _ hbetween harg rfl
  · intro s hs
    exact getopt_long _ hs harg rfl
  · rw [finishes_congr heq]
    exact not_finishes_of_long _ hbetween harg rfl

/-! ### The options of a well-formed command line -/

/-- An option: its letter, and whether it takes an argument. -/
structure OptionSpec where
  letter : Byte
  takesArg : Bool
  letter_ne_colon : letter ≠ chr ':'
  letter_ne_nul : letter ≠ 0

/-- The characters of an option in an options string. -/
def OptionSpec.chars (o : OptionSpec) : List Byte :=
  o.letter :: if o.takesArg then [chr ':'] else []

/-- The options string: the letters of the options, each followed by a colon if the option takes an
argument. -/
def optionString (spec : List OptionSpec) : CStr where
  chars := spec.flatMap OptionSpec.chars
  zero_notMem := by
    intro h
    obtain ⟨o, -, ho⟩ := List.mem_flatMap.mp h
    rw [OptionSpec.chars, List.mem_cons] at ho
    obtain ho | ho := ho
    · exact o.letter_ne_nul ho.symm
    · split_ifs at ho
      · exact absurd ho (by decide)
      · cases ho

/-- Whether the first option with the given letter takes an argument. -/
def optionTakesArg (spec : List OptionSpec) (c : Byte) : Option Bool :=
  (spec.find? (·.letter = c)).map OptionSpec.takesArg

/-- An option of a command line, with its argument. -/
inductive Item where
  | flag (c : Byte)
  | attached (c : Byte) (arg : List Byte)
  | detached (c : Byte) (arg : List Byte)

/-- The letter that is returned for an option, and the value of `optarg`. -/
def Item.result : Item → Byte × Option (List Byte)
  | .flag c => (c, none)
  | .attached c arg => (c, some arg)
  | .detached c arg => (c, some arg)

def Item.isDetached : Item → Bool
  | .detached _ _ => true
  | _ => false

/-- The options of a group, and the last letter of the group if the next argument is its argument. -/
def parseGroup (spec : List OptionSpec) : List Byte → Option (List Item × Option Byte)
  | [] => some ([], none)
  | c :: cs =>
      match optionTakesArg spec c with
      | none => none
      | some false => (parseGroup spec cs).map fun r => (.flag c :: r.1, r.2)
      | some true => if cs = [] then some ([], some c) else some ([.attached c cs], none)

/-- The options of a well-formed command line, from the argument with the given index on, and the
index of the first operand. -/
def parseArgs (spec : List OptionSpec) : List CStr → ℕ → Option (List Item × ℕ)
  | [], index => some ([], index)
  | arg :: args, index =>
      match arg.chars with
      | [] => some ([], index)
      | c :: cs =>
          if c ≠ chr '-' ∨ cs = [] then some ([], index)
          else if cs = [chr '-'] then some ([], index + 1)
          else if cs.head? = some (chr '-') then none
          else
            match parseGroup spec cs, args with
            | none, _ => none
            | some (items, none), args =>
                (parseArgs spec args (index + 1)).map fun r => (items ++ r.1, r.2)
            | some (_, some _), [] => none
            | some (items, some c), value :: args =>
                (parseArgs spec args (index + 2)).map fun r =>
                  (items ++ .detached c value.chars :: r.1, r.2)

/-! ### What is returned for a well-formed command line -/

/-- The kind of an option, from the characters of the options string with its NUL on. -/
def kindIn (chars : List Byte) (c : Byte) : Option Bool :=
  (chars.findIdx? (· = c)).map fun opt => chars[opt + 1]? = some (chr ':')

/-- The kind of an option is found in the option string. -/
theorem kindIn_cons (x : Byte) (chars : List Byte) (c : Byte) :
  kindIn (x :: chars) c =
    if x = c then some (decide (chars.head? = some (chr ':'))) else kindIn chars c
  := by
  by_cases h : x = c
  · simp [kindIn, List.findIdx?_cons, h, List.head?_eq_getElem?]
  · simp only [kindIn, List.findIdx?_cons, h, decide_false, Bool.false_eq_true, if_false,
      Option.map_map]
    rfl

variable {items : List Item} {c : Byte} {args : List CStr} {cs : List Byte}

/-- The options string has the kinds of its options. -/
theorem optionKind_optionString {spec : List OptionSpec} {takesArg : Bool}
    (h : optionTakesArg spec c = some takesArg) :
  optionKind (optionString spec) c = some takesArg
  := by
  change kindIn (spec.flatMap OptionSpec.chars ++ [0]) c = some takesArg
  have hcolon : c ≠ chr ':' := by
    obtain ⟨o, ho, -⟩ := Option.map_eq_some_iff.mp h
    have hletter := List.find?_some ho
    simp only [decide_eq_true_eq] at hletter
    rw [← hletter]
    exact o.letter_ne_colon
  induction spec with
  | nil => cases h
  | cons o spec ih =>
      have hrest : (spec.flatMap OptionSpec.chars ++ [0]).head? ≠ some (chr ':') := by
        cases spec with
        | nil => decide
        | cons o spec =>
            rw [List.flatMap_cons, OptionSpec.chars]
            simpa using o.letter_ne_colon
      rw [List.flatMap_cons, OptionSpec.chars, List.cons_append, List.cons_append, kindIn_cons]
      by_cases hletter : o.letter = c
      · have htakes : o.takesArg = takesArg := by simpa [optionTakesArg, hletter] using h
        rw [if_pos hletter, ← htakes]
        cases o.takesArg with
        | false => simpa using hrest
        | true => simp
      · have hspec : optionTakesArg spec c = some takesArg := by
          simpa [optionTakesArg, hletter] using h
        rw [if_neg hletter, ← ih hspec]
        cases o.takesArg with
        | false => rfl
        | true =>
            apply (kindIn_cons _ _ _).trans
            rw [if_neg (Ne.symm hcolon)]
            rfl

section Yields

variable {argv : Argv} {spec : List OptionSpec} {arg : CStr} {s : Getopt} {i k index : ℕ}

/-- A call that returns a letter and an argument. -/
theorem yields_step {s' : Getopt} {options : CStr} {value : Option (List Byte)}
    (h : getopt argv options s = some (some c, s')) (hvalue : s'.optarg = value)
    (results : List (Byte × Option (List Byte))) :
  Yields argv options s ((c, value) :: results) index ↔ Yields argv options s' results index
  := by
  rw [← hvalue]
  apply yields_cons h

/-- The first letter of a well-formed group. -/
theorem parseGroup_cons {last : Option Byte} (h : parseGroup spec (c :: cs) = some (items, last)) :
  (optionTakesArg spec c = some false
      ∧ ∃ items', items = .flag c :: items' ∧ parseGroup spec cs = some (items', last))
    ∨ (optionTakesArg spec c = some true ∧ cs = [] ∧ items = [] ∧ last = some c)
    ∨ (optionTakesArg spec c = some true ∧ cs ≠ [] ∧ items = [.attached c cs] ∧ last = none)
  := by
  rw [parseGroup] at h
  cases hkind : optionTakesArg spec c with
  | none =>
      rw [hkind] at h
      cases h
  | some takesArg =>
      rw [hkind] at h
      cases takesArg with
      | false =>
          obtain ⟨⟨items', last'⟩, hcs, heq⟩ := Option.map_eq_some_iff.mp h
          cases heq
          left
          exact ⟨rfl, items', rfl, hcs⟩
      | true =>
          right
          by_cases hnil : cs = []
          · left
            subst hnil
            cases h
            exact ⟨rfl, rfl, rfl, rfl⟩
          · right
            simp only [if_neg hnil, Option.some.injEq, Prod.mk.injEq] at h
            obtain ⟨rfl, rfl⟩ := h
            exact ⟨rfl, hnil, rfl, rfl⟩

/-- A group of options, before arguments for which `getopt` returns the given results if and only if
`F`. -/
theorem yields_group {F : Prop} {results : List (Byte × Option (List Byte))}
    (hF : ∀ s', Between s' (i + 1) → (Yields argv (optionString spec) s' results index ↔ F))
    (letters : List Byte) (hparse : parseGroup spec letters = some (items, none)) (h : Inside s i k)
    (harg : argv[i]? = some (some arg)) (hdrop : arg.chars.drop k = letters) (hne : letters ≠ []) :
  Yields argv (optionString spec) s (items.map Item.result ++ results) index ↔ F
  := by
  induction letters generalizing s k items with
  | nil => exact absurd rfl hne
  | cons c cs ih =>
      obtain ⟨hkind, items', rfl, hcs⟩ | ⟨-, -, -, hlast⟩ | ⟨hkind, hnil, rfl, -⟩ :=
        parseGroup_cons hparse
      · obtain ⟨s', hs', hvalue, hnext⟩ :=
          getopt_flag h harg hdrop (optionKind_optionString hkind)
        apply (yields_step hs' hvalue _).trans
        by_cases hnil : cs = []
        · subst hnil
          cases hcs
          rw [if_pos rfl] at hnext
          apply hF s' hnext
        · rw [if_neg hnil] at hnext
          apply ih hcs hnext (CStr.drop_succ hdrop) hnil
      · cases hlast
      · obtain ⟨s', hs', hvalue, hnext⟩ :=
          getopt_attached h harg hdrop hnil (optionKind_optionString hkind)
        apply (yields_step hs' hvalue _).trans
        apply hF s' hnext

/-- A group whose last option takes the next argument. -/
theorem not_yields_group {value : CStr} (hvalue : argv[i + 1]? = some (some value)) {last : Byte}
    (results : List (Byte × Option (List Byte))) (letters : List Byte)
    (hparse : parseGroup spec letters = some (items, some last)) (h : Inside s i k)
    (harg : argv[i]? = some (some arg)) (hdrop : arg.chars.drop k = letters) :
  ¬ Yields argv (optionString spec) s
      (items.map Item.result ++ (last, some value.chars) :: results) index
  := by
  induction letters generalizing s k items with
  | nil => cases hparse
  | cons c cs ih =>
      obtain ⟨hkind, items', rfl, hcs⟩ | ⟨hkind, rfl, rfl, hlast⟩ | ⟨-, -, -, hlast⟩ :=
        parseGroup_cons hparse
      · obtain ⟨s', hs', harg', hnext⟩ :=
          getopt_flag h harg hdrop (optionKind_optionString hkind)
        rw [List.map_cons, List.cons_append]
        apply (not_congr (yields_step hs' harg' _)).mpr
        by_cases hnil : cs = []
        · subst hnil
          cases hcs
        · rw [if_neg hnil] at hnext
          apply ih hcs hnext (CStr.drop_succ hdrop)
      · cases hlast
        obtain ⟨r, s', hs', hstale, hresult⟩ :=
          getopt_detached h harg hdrop (optionKind_optionString hkind)
        obtain ⟨rfl, harg'⟩ := hresult value hvalue
        apply (not_congr (yields_step hs' harg' _)).mpr
        apply hstale.not_yields
      · cases hlast

/-- The options in a group do not take the next argument. -/
theorem isDetached_of_parseGroup (letters : List Byte) {last : Option Byte}
    (hparse : parseGroup spec letters = some (items, last)) :
  ∀ item ∈ items, item.isDetached = false
  := by
  induction letters generalizing items with
  | nil =>
      cases hparse
      simp
  | cons c cs ih =>
      obtain ⟨-, items', rfl, hcs⟩ | ⟨-, -, rfl, -⟩ | ⟨-, -, rfl, -⟩ := parseGroup_cons hparse
      · rw [List.forall_mem_cons]
        exact ⟨rfl, ih hcs⟩
      · simp
      · simp [Item.isDetached]

/-- The options end at an operand. -/
theorem parseArgs_operand (hchars : arg.chars.head? ≠ some (chr '-') ∨ arg.chars = [chr '-']) :
  parseArgs spec (arg :: args) i = some ([], i)
  := by
  rw [parseArgs]
  obtain hhead | hhyphen := hchars
  · cases hc : arg.chars with
    | nil => rfl
    | cons c cs =>
        have hne : c ≠ chr '-' := by simpa [hc] using hhead
        simp [hne]
  · simp [hhyphen]

/-- The options end at `--`. -/
theorem parseArgs_terminator (hchars : arg.chars = [chr '-', chr '-']) :
  parseArgs spec (arg :: args) i = some ([], i + 1)
  := by
  simp [parseArgs, hchars]

theorem parseArgs_long (hchars : arg.chars = chr '-' :: chr '-' :: c :: cs) :
  parseArgs spec (arg :: args) i = none
  := by
  simp [parseArgs, hchars]

/-- A group of a well-formed command line. -/
theorem parseArgs_group (hchars : arg.chars = chr '-' :: c :: cs) (hc : c ≠ chr '-')
    (h : parseArgs spec (arg :: args) i = some (items, index)) :
  (∃ group items', parseGroup spec (c :: cs) = some (group, none) ∧ items = group ++ items'
      ∧ parseArgs spec args (i + 1) = some (items', index))
    ∨ ∃ group last value args' items', parseGroup spec (c :: cs) = some (group, some last)
      ∧ args = value :: args' ∧ items = group ++ .detached last value.chars :: items'
  := by
  rw [parseArgs] at h
  simp only [hchars] at h
  rw [if_neg (by simp), if_neg (by simp [hc]), if_neg (by simpa using hc)] at h
  cases hgroup : parseGroup spec (c :: cs) with
  | none =>
      rw [hgroup] at h
      cases h
  | some r =>
      obtain ⟨group, last⟩ := r
      rw [hgroup] at h
      cases last with
      | none =>
          left
          obtain ⟨⟨items', index'⟩, hargs, heq⟩ := Option.map_eq_some_iff.mp h
          cases heq
          exact ⟨group, items', rfl, rfl, hargs⟩
      | some last =>
          right
          cases args with
          | nil => cases h
          | cons value args =>
              obtain ⟨⟨items', index'⟩, hargs, heq⟩ := Option.map_eq_some_iff.mp h
              cases heq
              exact ⟨group, last, value, args, items', rfl, rfl, rfl⟩

/-- The calls yield the options that are parsed. -/
theorem yields_between (args : List CStr) (hparse : parseArgs spec args i = some (items, index))
    (h : Between s i) (hargs : argv.drop i = args.map some) :
  Yields argv (optionString spec) s (items.map Item.result) index
    ↔ ∀ item ∈ items, item.isDetached = false
  := by
  induction args generalizing s i items with
  | nil =>
      have harg : argv[i]?.join = none := by
        rw [List.getElem?_eq_none (List.drop_eq_nil_iff.mp hargs)]
        rfl
      cases hparse
      simpa [Yields] using getopt_end (optionString spec) h harg
  | cons arg args ih =>
      have harg : argv[i]? = some (some arg) := by
        rw [← List.head?_drop, hargs]
        rfl
      have hnext : argv.drop (i + 1) = args.map some := by
        rw [← List.drop_drop, hargs]
        rfl
      obtain hchars | hchars | ⟨c, cs, hchars⟩ | ⟨c, cs, hchars, hc⟩ := arg_cases arg.chars
      · rw [parseArgs_operand hchars] at hparse
        cases hparse
        simpa [Yields] using getopt_operand (optionString spec) h harg hchars
      · rw [parseArgs_terminator hchars] at hparse
        cases hparse
        simpa [Yields] using getopt_terminator (optionString spec) h harg hchars
      · rw [parseArgs_long hchars] at hparse
        cases hparse
      · obtain ⟨s', hinside, heq⟩ := getopt_group (optionString spec) h harg hchars hc
        have hdrop : arg.chars.drop 1 = c :: cs := by
          rw [hchars]
          rfl
        rw [yields_congr heq]
        obtain ⟨group, items', hgroup, rfl, hrest⟩ | ⟨group, last, value, args', items', hgroup, rfl,
          rfl⟩ := parseArgs_group hchars hc hparse
        · rw [List.map_append, yields_group (fun s'' hs'' => ih hrest hs'' hnext) (c :: cs) hgroup
            hinside harg hdrop (List.cons_ne_nil c cs), List.forall_mem_append]
          exact (and_iff_right (isDetached_of_parseGroup (c :: cs) hgroup)).symm
        · have hvalue : argv[i + 1]? = some (some value) := by
            rw [← List.head?_drop, hnext]
            rfl
          rw [List.map_append, List.map_cons]
          apply iff_of_false (not_yields_group hvalue _ (c :: cs) hgroup hinside harg hdrop)
          intro hall
          have hdetached := hall (.detached last value.chars) (by simp)
          cases hdetached

/-- For a well-formed command line repeated calls of `getopt` from `optind = 0` on return the options
in their order, each with its argument, and then -1 with the index of the first operand in `optind`,
and read no character behind the end of a string, if and only if no option takes the next argument
as its argument. -/
theorem getopt_yields_iff (spec : List OptionSpec) (prog : CStr) (args : List CStr)
    {items : List Item} (hparse : parseArgs spec args 1 = some (items, index))
    (hs : s.optind = 0) :
  Yields ((prog :: args).map some) (optionString spec) s (items.map Item.result) index
    ↔ ∀ item ∈ items, item.isDetached = false
  := by
  obtain ⟨s', hbetween, heq⟩ := getopt_reset ((prog :: args).map some) (optionString spec) hs
  rw [yields_congr heq]
  apply yields_between args hparse hbetween rfl

end Yields

/-- The options `ab:`. -/
def specAB : List OptionSpec :=
  [⟨chr 'a', false, by decide, by decide⟩, ⟨chr 'b', true, by decide, by decide⟩]

/-- The command line `prog -abx -- file`. -/
theorem getopt_yields_abx :
  parseArgs specAB [⟨str "-abx", by decide⟩, ⟨str "--", by decide⟩, ⟨str "file", by decide⟩] 1
      = some ([.flag (chr 'a'), .attached (chr 'b') (str "x")], 3)
    ∧ Yields ([⟨str "prog", by decide⟩, ⟨str "-abx", by decide⟩, ⟨str "--", by decide⟩,
        ⟨str "file", by decide⟩].map some) (optionString specAB) {}
      [(chr 'a', none), (chr 'b', some (str "x"))] 3
  := by
  have hparse : parseArgs specAB
      [⟨str "-abx", by decide⟩, ⟨str "--", by decide⟩, ⟨str "file", by decide⟩] 1
      = some ([.flag (chr 'a'), .attached (chr 'b') (str "x")], 3) := rfl
  exact ⟨hparse, (getopt_yields_iff specAB _ _ hparse rfl).mpr (by decide)⟩

/-- The well-formed command line `prog -b x`: the second call of `getopt` reads behind the end of the
options string. -/
theorem getopt_detached_bx :
  parseArgs specAB [⟨str "-b", by decide⟩, ⟨str "x", by decide⟩] 1
      = some ([.detached (chr 'b') (str "x")], 3)
    ∧ ∃ s', getopt ([⟨str "prog", by decide⟩, ⟨str "-b", by decide⟩, ⟨str "x", by decide⟩].map some)
        (optionString specAB) {} = some (some (chr 'b'), s')
      ∧ getopt ([⟨str "prog", by decide⟩, ⟨str "-b", by decide⟩, ⟨str "x", by decide⟩].map some)
        (optionString specAB) s' = none
  := ⟨rfl, _, rfl, rfl⟩

end Mosnix.Libc
