import Mosnix.Lib.FixedBuffer
import Mosnix.Lib.Program
import Mosnix.Shell.Builtins
import Mosnix.Shell.Tokenizer

/-!
# Execution of a command line

`cmd_exec` of the shell.  The command line is parsed in place: the words are written over the line
that is read.  A character can be read or written inside the line with its NUL only, and written only
after it was read; anything else is a fault.
-/

namespace Mosnix.Shell

open Program FixedBuffer

/-! ### The parser -/

/-- The line with its NUL, the array `argv` of pointers into it, and the indices of the characters
that were read. -/
structure CmdState where
  buf : List Byte
  argv : List (Option ℕ)
  seen : List ℕ

/-- The character of the line at an index. -/
def readLine (i : ℕ) : Program CmdState Byte := fun s =>
  s.buf[i]?.map fun c => (c, { s with seen := i :: s.seen })

/-- A store to the line. -/
def writeLine (i : ℕ) (c : Byte) : Program CmdState Unit := fun s =>
  if s.seen.contains i then (store? s.buf i c).map fun buf => ((), { s with buf := buf }) else none

/-- A store to the array `argv`. -/
def writeArgv (i : ℕ) (p : Option ℕ) : Program CmdState Unit := fun s =>
  (store? s.argv i p).map fun argv => ((), { s with argv := argv })

/-- The loop of `cmd_exec` that skips white space: the new value of `line`, and the character
there. -/
def skipSpace : ℕ → ℕ → Program CmdState (ℕ × Byte)
  | 0, _ => fault
  | fuel + 1, line => do
      let ch ← readLine line
      if ch ≠ 0 ∧ cmdIsspace ch then
        skipSpace fuel (line + 1)
      else
        return (line, ch)

/-- The loop of `cmd_exec` that extracts an argument: the new values of `line`, `out` and `quote`. -/
def extractArg : ℕ → ℕ → ℕ → Byte → Program CmdState (ℕ × ℕ × Byte)
  | 0, _, _, _ => fault
  | fuel + 1, line, out, quote => do
      let ch ← readLine line
      if ch = 0 then
        return (line, out, quote)
      else if cmdIsspace ch ∧ quote = 0 then
        return (line + 1, out, quote)
      else if ch = SINGLE_QUOTE ∨ ch = DOUBLE_QUOTE then
        if quote = 0 then
          extractArg fuel (line + 1) out ch
        else if quote = ch then
          extractArg fuel (line + 1) out 0
        else
          writeLine out ch
          extractArg fuel (line + 1) (out + 1) quote
      else if ch = BACKSLASH ∧ quote ≠ SINGLE_QUOTE then
        let next ← readLine (line + 1)
        if next = 0 then
          writeLine out ch
          extractArg fuel (line + 1) (out + 1) quote
        else
          writeLine out next
          extractArg fuel (line + 2) (out + 1) quote
      else
        writeLine out ch
        extractArg fuel (line + 1) (out + 1) quote

/-- The loop of `cmd_exec` over the arguments, from the value `line` and `argc` arguments on: an
error, or the number of arguments.  The loops make at most `bound` rounds. -/
def parseLoop (bound : ℕ) : ℕ → ℕ → ℕ → Program CmdState (Except TokenError ℕ)
  | 0, _, _ => fault
  | fuel + 1, line, argc => do
      let (line, ch) ← skipSpace bound line
      if ch = 0 ∨ ch = chr '#' then
        return .ok argc
      else if argc ≥ CONFIG_ARGC_MAX then
        return .error .tooManyArguments
      else
        writeArgv argc (some line)
        let (line, out, quote) ← extractArg bound line line 0
        if quote ≠ 0 then
          return .error .unterminatedQuote
        else
          writeLine out 0
          parseLoop bound fuel line (argc + 1)

/-- The part of `cmd_exec` that stores the end of the arguments, unless the command is empty. -/
def storeEnd : Except TokenError ℕ → Program CmdState (Except TokenError ℕ)
  | .error e => return .error e
  | .ok argc =>
      if argc = 0 then
        return .ok 0
      else do
        writeArgv argc none
        return .ok argc

/-- The part of `cmd_exec` that parses the line: an error, or the number of arguments. -/
def cmdParse : Program CmdState (Except TokenError ℕ) := do
  let bound := (← get).buf.length + 1
  storeEnd (← parseLoop bound bound 0 0)

/-- The messages of the errors. -/
def TokenError.message : TokenError → List Byte
  | .tooManyArguments => str "sh: too many arguments\n"
  | .unterminatedQuote => str "sh: unterminated quote\n"

/-- The string that an element of `argv` points to. -/
def CmdState.arg (s : CmdState) (i : ℕ) : Option (List Byte) :=
  s.argv[i]?.join.map fun p => cString (s.buf.drop p)

/-- What `cmd_exec` does: it prints a message, or runs a builtin command with `argc` arguments. -/
inductive CmdResult where
  | nothing
  | message (text : List Byte)
  | run (builtin : BuiltinHandler) (argc : ℕ)

/-- The command with the given name is found. -/
def runCommand (argc : ℕ) (name : List Byte) : Program CmdState CmdResult :=
  match cmdFindBuiltin builtins name with
  | none => fault
  | some (some builtin) => return .run builtin argc
  | some none => return .message (name ++ str ": command not found\n")

/-- The part of `cmd_exec` after the line is parsed. -/
def cmdDispatch : Except TokenError ℕ → Program CmdState CmdResult
  | .error e => return .message e.message
  | .ok argc => do
      if argc = 0 then
        return .nothing
      else
        match (← get).arg 0 with
        | none => fault
        | some name => runCommand argc name

/-- `cmd_exec` -/
def cmdExec : Program CmdState CmdResult := do
  cmdDispatch (← cmdParse)

/-! ### Reading and writing -/

variable {argc : ℕ} {s' : CmdState} {w : List Byte × Bool × List Byte} {r : ℕ × ℕ × Byte}
  {ws : List (List Byte × Bool)}

section Parser

variable {s : CmdState} {p o fuel : ℕ} {rest cs : List Byte} {c : Byte}

/-- The characters `rest` of the line, which end with NUL, are still to be read from the index `p`
on; those before it were read. -/
structure Reads (s : CmdState) (p : ℕ) (rest : List Byte) : Prop where
  drop_eq : s.buf.drop p = rest ++ [0]
  nul_notMem : 0 ∉ rest
  seen : ∀ i < p, i ∈ s.seen

theorem Reads.lt_length (h : Reads s p rest) : p < s.buf.length := by
  by_contra hle
  have hdrop := h.drop_eq
  rw [List.drop_eq_nil_of_le (not_lt.mp hle)] at hdrop
  simp at hdrop

/-- The state after the character at `p` was read. -/
def CmdState.mark (s : CmdState) (p : ℕ) : CmdState := { s with seen := p :: s.seen }

theorem readLine_nil (h : Reads s p []) : readLine p s = some (0, s.mark p) := by
  have hget : s.buf[p]? = some 0 := by
    rw [← List.head?_drop, h.drop_eq]
    rfl
  rw [readLine, hget]
  rfl

/-- A character of the line is read. -/
theorem readLine_cons (h : Reads s p (c :: cs)) : readLine p s = some (c, s.mark p) := by
  have hget : s.buf[p]? = some c := by
    rw [← List.head?_drop, h.drop_eq]
    rfl
  rw [readLine, hget]
  rfl

theorem Reads.mark (h : Reads s p rest) : Reads (s.mark p) p rest :=
  ⟨h.drop_eq, h.nul_notMem, fun i hi => List.mem_cons_of_mem _ (h.seen i hi)⟩

/-- The next character after one that was read. -/
theorem Reads.next (h : Reads s p (c :: cs)) : Reads (s.mark p) (p + 1) cs where
  drop_eq := by
    rw [← List.drop_drop]
    change (s.buf.drop p).drop 1 = _
    rw [h.drop_eq]
    rfl
  nul_notMem := fun hmem => h.nul_notMem (List.mem_cons_of_mem _ hmem)
  seen i hi := by
    rcases Nat.lt_succ_iff_lt_or_eq.mp hi with hlt | rfl
    · exact List.mem_cons_of_mem _ (h.seen i hlt)
    · exact List.mem_cons_self

/-- A character is written behind the one that was read. -/
theorem writeLine_eq (hseen : o ∈ s.seen) (hlt : o < s.buf.length) (c : Byte) :
  writeLine o c s = some ((), { s with buf := s.buf.set o c })
  := by
  rw [writeLine, if_pos (List.contains_iff_mem.mpr hseen), store?, if_pos hlt]
  rfl

/-- A character that was read is written over. -/
theorem Reads.set (h : Reads s p rest) (ho : o < p) (c : Byte) :
  Reads { s with buf := s.buf.set o c } p rest
  := by
  refine ⟨?_, h.nul_notMem, h.seen⟩
  change (s.buf.set o c).drop p = _
  rw [List.drop_set_of_lt ho, h.drop_eq]

/-- A character before the end is not 0. -/
theorem Reads.ne_nul (h : Reads s p (c :: cs)) : c ≠ 0 :=
  fun hc => h.nul_notMem (hc ▸ List.mem_cons_self)

/-- The end of an argument is written. -/
theorem Reads.setNul (h : Reads s p rest) (ho : o ≤ p) (hnil : o = p → rest = []) :
  Reads { s with buf := s.buf.set o 0 } p rest
  := by
  rcases Nat.lt_or_eq_of_le ho with hlt | rfl
  · apply h.set hlt
  · obtain rfl := hnil rfl
    refine ⟨?_, h.nul_notMem, h.seen⟩
    change (s.buf.set o 0).drop o = _
    rw [List.drop_set, if_neg (lt_irrefl o), h.drop_eq, Nat.sub_self]
    rfl

theorem writeArgv_eq {i : ℕ} (h : i < s.argv.length) (a : Option ℕ) :
  writeArgv i a s = some ((), { s with argv := s.argv.set i a })
  := by
  rw [writeArgv, store?, if_pos h]
  rfl

/-! ### White space -/

/-- The space before a word is skipped. -/
theorem skipSpace_ends (h : Reads s p rest) (hfuel : rest.length < fuel) :
  Ends (skipSpace fuel p) s fun r s' =>
    s'.buf = s.buf ∧ s'.argv = s.argv ∧ Reads s' r.1 (rest.dropWhile cmdIsspace) ∧ p ≤ r.1
      ∧ r.2 = (rest.dropWhile cmdIsspace).headD 0
  := by
  induction fuel generalizing s p rest with
  | zero => exact absurd hfuel (Nat.not_lt_zero _)
  | succ fuel ih =>
      cases rest with
      | nil =>
          apply Ends.bind_of_eq (readLine_nil h)
          exact Ends.pure ⟨rfl, rfl, h.mark, le_rfl, rfl⟩
      | cons c cs =>
          apply Ends.bind_of_eq (readLine_cons h)
          by_cases hspace : cmdIsspace c = true
          · rw [if_pos ⟨h.ne_nul, hspace⟩, List.dropWhile_cons_of_pos hspace]
            apply (ih h.next (Nat.succ_lt_succ_iff.mp hfuel)).mono
            rintro r s' ⟨hbuf, hargv, hreads, hle, hch⟩
            exact ⟨hbuf, hargv, hreads, by omega, hch⟩
          · rw [if_neg fun hand => hspace hand.2, List.dropWhile_cons_of_neg hspace]
            exact Ends.pure ⟨rfl, rfl, h.mark, le_rfl, rfl⟩

/-! ### An argument -/

/-- The value of `quote` for quotes. -/
def Quote.byte : Quote → Byte
  | .none => 0
  | .single => SINGLE_QUOTE
  | .double => DOUBLE_QUOTE

theorem Quote.byte_eq_zero_iff (q : Quote) : q.byte = 0 ↔ q = .none := by
  cases q <;> decide

theorem Quote.byte_eq_single_iff (q : Quote) : q.byte = SINGLE_QUOTE ↔ q = .single := by
  cases q <;> decide

/-- The quotes that a quote character opens. -/
def Quote.opening (c : Byte) : Quote := if c = SINGLE_QUOTE then .single else .double

theorem Quote.byte_opening {c : Byte} (h : c = SINGLE_QUOTE ∨ c = DOUBLE_QUOTE) :
  (Quote.opening c).byte = c
  := by
  obtain rfl | rfl := h
  · rfl
  · rfl

/-- The first character of a word, in the order of the tests of the loop. -/
theorem takeWord_cons (q : Quote) (c : Byte) (cs : List Byte) :
  takeWord q (c :: cs) =
    if cmdIsspace c = true ∧ q = .none then ([], true, cs)
    else if c = SINGLE_QUOTE ∨ c = DOUBLE_QUOTE then
      if q = .none then takeWord (Quote.opening c) cs
      else if q.byte = c then takeWord .none cs
      else consWord c (takeWord q cs)
    else if c = BACKSLASH ∧ q ≠ .single then
      match cs with
      | [] => consWord c (takeWord q [])
      | d :: cs => consWord d (takeWord q cs)
    else consWord c (takeWord q cs)
  := by
  have hne : DOUBLE_QUOTE ≠ SINGLE_QUOTE := by decide
  have hspace : cmdIsspace SINGLE_QUOTE = false ∧ cmdIsspace DOUBLE_QUOTE = false := by decide
  have hback : BACKSLASH ≠ SINGLE_QUOTE ∧ BACKSLASH ≠ DOUBLE_QUOTE := by decide
  rw [takeWord.eq_def]
  cases q with
  | none =>
      by_cases hs : cmdIsspace c = true
      · simp [hs]
      · by_cases h₁ : c = SINGLE_QUOTE
        · simp [h₁, hspace, Quote.opening]
        · by_cases h₂ : c = DOUBLE_QUOTE
          · simp [h₂, hspace, hne, Quote.opening]
          · by_cases h₃ : c = BACKSLASH
            · subst h₃
              cases cs with
              | nil => simp [hs, h₁, h₂, Shell.consWord, takeWord]
              | cons d cs => simp [hs, h₁, h₂]
            · simp [hs, h₁, h₂, h₃]
  | single =>
      by_cases h₁ : c = SINGLE_QUOTE
      · simp [h₁, Quote.byte]
      · simp [h₁, Quote.byte, Ne.symm h₁]
  | double =>
      by_cases h₂ : c = DOUBLE_QUOTE
      · simp [h₂, Quote.byte]
      · by_cases h₃ : c = BACKSLASH
        · subst h₃
          cases cs with
          | nil => simp [hback, Shell.consWord, takeWord]
          | cons d cs => simp [hback]
        · simp [h₂, h₃, Quote.byte, Ne.symm h₂]

/-- What the loop that extracts an argument does, from the state `s` and the value `o` of `out` on,
if the argument with the rest of the line is `w`. -/
structure Extracted (s : CmdState) (o : ℕ) (w : List Byte × Bool × List Byte) (r : ℕ × ℕ × Byte)
    (s' : CmdState) : Prop where
  argv_eq : s'.argv = s.argv
  buf_eq : s'.buf = overwrite s.buf o w.1
  reads : Reads s' r.1 w.2.2
  out_eq : r.2.1 = o + w.1.length
  closed_iff : r.2.2 = 0 ↔ w.2.1 = true
  out_seen : r.2.1 ∈ s'.seen
  out_le : r.2.1 ≤ r.1
  rest_nil : r.2.1 = r.1 → w.2.2 = []

/-- A character is written, and then the rest of the argument. -/
theorem Extracted.consWord (ho : o < s.buf.length)
    (h : Extracted { s with buf := s.buf.set o c } (o + 1) w r s') :
  Extracted s o (consWord c w) r s'
  where
  argv_eq := h.argv_eq
  buf_eq := by
    rw [h.buf_eq]
    apply overwrite_set ho
  reads := h.reads
  out_eq := by
    rw [h.out_eq]
    simp only [Shell.consWord, List.length_cons]
    omega
  closed_iff := h.closed_iff
  out_seen := h.out_seen
  out_le := h.out_le
  rest_nil := h.rest_nil

/-- Reading a character changes neither the line nor the arguments. -/
theorem Extracted.of_mark (h : Extracted (s.mark p) o w r s') :
  Extracted s o w r s'
  := ⟨h.argv_eq, h.buf_eq, h.reads, h.out_eq, h.closed_iff, h.out_seen, h.out_le, h.rest_nil⟩

/-- A character is written by the loop, which goes on at `p'`. -/
theorem extractArg_write {q : Byte} {p' : ℕ} (hreads : Reads s p' rest) (ho : o < p')
    (h : ∀ s₁, Reads s₁ p' rest → Ends (extractArg fuel p' (o + 1) q) s₁ (Extracted s₁ (o + 1) w)) :
  Ends (do writeLine o c; extractArg fuel p' (o + 1) q) s (Extracted s o (consWord c w))
  := by
  have hlt : o < s.buf.length := ho.trans hreads.lt_length
  apply Ends.bind_of_eq (writeLine_eq (hreads.seen o ho) hlt c)
  apply (h _ (hreads.set ho c)).mono
  intro r s' hs'
  apply hs'.consWord hlt

/-- `cmd_extract_arg` moves a word without its quotes. -/
theorem extractArg_ends (q : Quote) (h : Reads s p rest) (ho : o ≤ p) (hfuel : rest.length < fuel) :
  Ends (extractArg fuel p o q.byte) s (Extracted s o (takeWord q rest))
  := by
  induction fuel generalizing s p o q rest with
  | zero => exact absurd hfuel (Nat.not_lt_zero _)
  | succ fuel ih =>
      cases rest with
      | nil =>
          apply Ends.bind_of_eq (readLine_nil h)
          rw [if_pos rfl]
          apply Ends.pure
          have hseen : o ∈ (s.mark p).seen := by
            rcases Nat.lt_or_eq_of_le ho with hlt | rfl
            · exact List.mem_cons_of_mem _ (h.seen o hlt)
            · exact List.mem_cons_self
          rw [takeWord]
          refine ⟨rfl, overwrite_nil.symm, h.mark, rfl, ?_, hseen, ho, fun _ => rfl⟩
          rw [Quote.byte_eq_zero_iff, decide_eq_true_eq]
      | cons c cs =>
          have hlength : cs.length < fuel := Nat.succ_lt_succ_iff.mp hfuel
          apply Ends.bind_of_eq (readLine_cons h)
          apply Ends.mono _ fun r s' => Extracted.of_mark (p := p)
          rw [takeWord_cons, if_neg h.ne_nul]
          simp only [Quote.byte_eq_zero_iff, ne_eq, Quote.byte_eq_single_iff]
          split_ifs with hspace hquote hnone hclose hback
          · apply Ends.pure
            refine ⟨rfl, overwrite_nil.symm, h.next, rfl, ?_, h.next.seen o (by omega),
              Nat.le_succ_of_le ho, ?_⟩
            · rw [hspace.2]
              exact iff_of_true rfl rfl
            · intro heq
              dsimp only at heq
              omega
          · have hstep := ih (Quote.opening c) h.next (o := o) (by omega) hlength
            rw [Quote.byte_opening hquote] at hstep
            exact hstep
          · exact ih .none h.next (by omega) hlength
          · apply extractArg_write h.next (by omega)
            intro s₁ hs₁
            exact ih q hs₁ (by omega) hlength
          · cases cs with
            | nil =>
                apply Ends.bind_of_eq (readLine_nil h.next)
                apply Ends.mono _ fun r s' => Extracted.of_mark (p := p + 1)
                rw [if_pos rfl]
                apply extractArg_write h.next.mark (by omega)
                intro s₁ hs₁
                exact ih q hs₁ (by omega) hlength
            | cons d cs =>
                apply Ends.bind_of_eq (readLine_cons h.next)
                apply Ends.mono _ fun r s' => Extracted.of_mark (p := p + 1)
                rw [if_neg h.next.ne_nul]
                apply extractArg_write h.next.next (by omega)
                intro s₁ hs₁
                exact ih q hs₁ (by omega) ((Nat.lt_succ_self _).trans hlength)
          · apply extractArg_write h.next (by omega)
            intro s₁ hs₁
            exact ih q hs₁ (by omega) hlength

/-! ### The line -/

/-- The line holds a string, with its NUL, at an index. -/
def Holds (buf : List Byte) (a : ℕ) (w : List Byte) : Prop :=
  (buf.drop a).take (w.length + 1) = w ++ [0]

theorem cString_of_holds {buf w : List Byte} {a : ℕ} (h : Holds buf a w) (hw : 0 ∉ w) :
  cString (buf.drop a) = w
  := by
  rw [← List.take_append_drop (w.length + 1) (buf.drop a), h, List.append_assoc]
  apply cString_append hw

/-- A string is still there if the line is changed after it. -/
theorem Holds.of_take_eq {buf buf' w : List Byte} {a n : ℕ} (h : Holds buf a w)
    (hn : a + w.length + 1 ≤ n) (heq : buf'.take n = buf.take n) :
  Holds buf' a w
  := by
  have htake (l : List Byte) : (l.drop a).take (w.length + 1) = ((l.take n).drop a).take (w.length + 1) := by
    rw [List.drop_take, List.take_take, Nat.min_eq_left (by omega)]
  rw [Holds, htake, heq, ← htake]
  apply h

/-- The elements of `argv` from `argc` on point to the given words. -/
def Args (s : CmdState) : ℕ → List (List Byte × Bool) → Prop
  | _, [] => True
  | argc, w :: ws =>
      (∃ a, s.argv[argc]? = some (some a) ∧ Holds s.buf a w.1) ∧ Args s (argc + 1) ws

/-- The result of the loop over the arguments, with `argc` arguments before the given words. -/
def outcome (argc : ℕ) (ws : List (List Byte × Bool)) : Except TokenError ℕ :=
  if CONFIG_ARGC_MAX < argc + ws.length then .error .tooManyArguments
  else if ws.all Prod.snd then .ok (argc + ws.length)
  else .error .unterminatedQuote

/-- What the loop over the arguments does, from the state `s` and the value `p` of `line` on, if the
words are `ws`. -/
structure Parsed (s : CmdState) (p argc : ℕ) (ws : List (List Byte × Bool))
    (r : Except TokenError ℕ) (s' : CmdState) : Prop where
  result_eq : r = outcome argc ws
  args : ∀ n, r = .ok n → Args s' argc ws
  length_argv : s'.argv.length = s.argv.length
  argv_eq : ∀ i < argc, s'.argv[i]? = s.argv[i]?
  take_eq : s'.buf.take p = s.buf.take p
  buf_eq : ws = [] → s'.buf = s.buf

theorem outcome_nil (h : argc ≤ CONFIG_ARGC_MAX) : outcome argc [] = .ok argc := by
  simp [outcome, h]

theorem outcome_cons_closed {w : List Byte} (ws : List (List Byte × Bool)) :
  outcome argc ((w, true) :: ws) = outcome (argc + 1) ws
  := by
  have hlength : argc + ((w, true) :: ws).length = argc + 1 + ws.length := by
    rw [List.length_cons]
    omega
  rw [outcome, outcome, hlength, List.all_cons]
  rfl

/-- The loop ends without another word. -/
theorem parsed_nil (hargc : argc ≤ CONFIG_ARGC_MAX) (hbuf : s'.buf = s.buf) (hargv : s'.argv = s.argv) :
  Parsed s p argc [] (.ok argc) s'
  where
  result_eq := (outcome_nil hargc).symm
  args _ _ := trivial
  length_argv := by rw [hargv]
  argv_eq _ _ := by rw [hargv]
  take_eq := by rw [hbuf]
  buf_eq _ := hbuf

/-- There is another word, but no place for it. -/
theorem parsed_tooMany {w : List Byte × Bool} (hmax : argc ≥ CONFIG_ARGC_MAX) (hbuf : s'.buf = s.buf)
    (hargv : s'.argv = s.argv) :
  Parsed s p argc (w :: ws) (.error .tooManyArguments) s'
  where
  result_eq := by
    rw [outcome, if_pos (by rw [List.length_cons]; omega)]
  args _ h := by cases h
  length_argv := by rw [hargv]
  argv_eq _ _ := by rw [hargv]
  take_eq := by rw [hbuf]
  buf_eq h := by cases h

/-- The quotes of an argument are not closed. -/
theorem Extracted.parsed_unterminated {line : ℕ} {s₂ : CmdState} (h : Extracted s₂ line w r s')
    (hline : line < s.buf.length) (hargc : argc < CONFIG_ARGC_MAX) (hle : p ≤ line)
    (hbuf : s₂.buf = s.buf) (hargv : s₂.argv = s.argv.set argc (some line)) :
  Parsed s p argc [(w.1, false)] (.error .unterminatedQuote) s'
  where
  result_eq := by
    rw [outcome, if_neg (by rw [List.length_singleton]; omega)]
    rfl
  args _ h := by cases h
  length_argv := by rw [h.argv_eq, hargv, List.length_set]
  argv_eq i hi := by rw [h.argv_eq, hargv, List.getElem?_set_ne hi.ne']
  take_eq := by rw [h.buf_eq, hbuf, take_overwrite_of_le hline.le hle]
  buf_eq h := by cases h

/-- An argument was extracted, and the loop goes on after it. -/
theorem Extracted.parsed_cons {line : ℕ} {s₂ s₃ : CmdState} {result : Except TokenError ℕ}
    (hextracted : Extracted s₂ line w r s₃) (hline : line < s.buf.length) (hargc : argc < s.argv.length)
    (hle : p ≤ line) (hbuf : s₂.buf = s.buf) (hargv : s₂.argv = s.argv.set argc (some line))
    (hclosed : w.2.1 = true) (hrest : w.2.2 = [] → ws = [])
    (h : Parsed { s₃ with buf := s₃.buf.set r.2.1 0 } r.1 (argc + 1) ws result s') :
  Parsed s p argc ((w.1, w.2.1) :: ws) result s'
  := by
  have hout := hextracted.out_eq
  have hout_le := hextracted.out_le
  have hbuf₃ : s₃.buf = overwrite s.buf line w.1 := by rw [hextracted.buf_eq, hbuf]
  have hend : line + w.1.length < s.buf.length := by
    have hlt := hextracted.reads.lt_length
    rw [hbuf₃, overwrite, List.length_append, List.length_append, List.length_take,
      List.length_drop] at hlt
    omega
  have hbuf₄ : s₃.buf.set r.2.1 0 = overwrite s.buf line (w.1 ++ [0]) := by
    rw [hbuf₃, hout, set_overwrite hend]
  have hargv₃ : s₃.argv = s.argv.set argc (some line) := by rw [hextracted.argv_eq, hargv]
  have hholds : Holds (s₃.buf.set r.2.1 0) line w.1 := by
    rw [Holds, hbuf₄, drop_overwrite_start hline.le]
    apply List.take_left'
    simp
  refine ⟨?_, ?_, ?_, ?_, ?_, ?_⟩
  · rw [h.result_eq, hclosed, outcome_cons_closed]
  · intro n hn
    refine ⟨⟨line, ?_, ?_⟩, h.args n hn⟩
    · rw [h.argv_eq argc (Nat.lt_succ_self argc)]
      change s₃.argv[argc]? = _
      rw [hargv₃, List.getElem?_set_self hargc]
    · rcases Nat.lt_or_eq_of_le hout_le with hlt | heq
      · exact hholds.of_take_eq (by omega) h.take_eq
      · rw [h.buf_eq (hrest (hextracted.rest_nil heq))]
        exact hholds
  · rw [h.length_argv]
    change s₃.argv.length = _
    rw [hargv₃, List.length_set]
  · intro i hi
    rw [h.argv_eq i (hi.trans (Nat.lt_succ_self argc))]
    change s₃.argv[i]? = _
    rw [hargv₃, List.getElem?_set_ne hi.ne']
  · have htake : s'.buf.take p = (s₃.buf.set r.2.1 0).take p := by
      have hp : p ≤ r.1 := by omega
      have heq := congrArg (List.take p) h.take_eq
      rwa [List.take_take, List.take_take, Nat.min_eq_left hp] at heq
    rw [htake, hbuf₄, take_overwrite_of_le hline.le hle]
  · intro hnil
    cases hnil

/-- The loop stores the words that are left. -/
theorem parseLoop_ends {bound : ℕ} (h : Reads s p rest) (hbound : rest.length < bound)
    (hfuel : rest.length < fuel) (hargc : argc ≤ CONFIG_ARGC_MAX)
    (hargv : s.argv.length = CONFIG_ARGC_MAX + 1) :
  Ends (parseLoop bound fuel p argc) s (Parsed s p argc (splitWords rest))
  := by
  induction fuel generalizing s p rest argc with
  | zero => exact absurd hfuel (Nat.not_lt_zero _)
  | succ fuel ih =>
      apply Ends.bind (skipSpace_ends h hbound)
      rintro ⟨line, ch⟩ s₁ ⟨hbuf, hargv₁, hreads, hle, hch⟩
      dsimp only at hreads hle hch ⊢
      have hlength := (List.dropWhile_suffix cmdIsspace (l := rest)).length_le
      cases hrest : rest.dropWhile cmdIsspace with
      | nil =>
          obtain rfl : ch = 0 := by rw [hch, hrest]; rfl
          rw [splitWords_nil hrest, if_pos (Or.inl rfl)]
          exact Ends.pure (parsed_nil hargc hbuf hargv₁)
      | cons c cs =>
          obtain rfl : ch = c := by rw [hch, hrest]; rfl
          rw [hrest] at hreads hlength
          rw [splitWords_cons hrest]
          by_cases hhash : ch = chr '#'
          · rw [if_pos (Or.inr hhash), if_pos hhash]
            exact Ends.pure (parsed_nil hargc hbuf hargv₁)
          rw [if_neg (not_or.mpr ⟨hreads.ne_nul, hhash⟩), if_neg hhash]
          by_cases hmax : argc ≥ CONFIG_ARGC_MAX
          · rw [if_pos hmax]
            apply Ends.pure
            exact parsed_tooMany hmax hbuf hargv₁
          rw [if_neg hmax]
          have hlt : argc < s₁.argv.length := by
            rw [hargv₁, hargv]
            omega
          apply Ends.bind_of_eq (writeArgv_eq hlt (some line))
          have hreads₂ : Reads { s₁ with argv := s₁.argv.set argc (some line) } line (ch :: cs) :=
            ⟨hreads.drop_eq, hreads.nul_notMem, hreads.seen⟩
          apply Ends.bind (show Ends (extractArg bound line line 0) _ _ from
            extractArg_ends .none hreads₂ le_rfl (hlength.trans_lt hbound))
          intro r s₃ hextracted
          have hline : line < s.buf.length := by
            rw [← hbuf]
            exact hreads.lt_length
          by_cases hquote : r.2.2 = 0
          · rw [if_neg (not_not.mpr hquote)]
            have hout := hextracted.out_le.trans_lt hextracted.reads.lt_length
            apply Ends.bind_of_eq (writeLine_eq hextracted.out_seen hout 0)
            have hword := length_takeWord_lt ch cs
            have hargv₃ : s₃.argv.length = CONFIG_ARGC_MAX + 1 := by
              rw [hextracted.argv_eq, List.length_set, hargv₁, hargv]
            apply (ih (hextracted.reads.setNul hextracted.out_le hextracted.rest_nil) (by omega)
              (by omega) (not_le.mp hmax) hargv₃).mono
            intro result s' hparsed
            apply hextracted.parsed_cons hline (hargv₁ ▸ hlt) hle hbuf (by rw [hargv₁])
              (hextracted.closed_iff.mp hquote) _ hparsed
            intro hnil
            rw [hnil]
            exact splitWords_nil rfl
          · rw [if_pos hquote]
            apply Ends.pure
            have hopen : (takeWord .none (ch :: cs)).2.1 = false := by
              rw [← Bool.not_eq_true, ← hextracted.closed_iff]
              exact hquote
            rw [rest_eq_nil_of_not_closed hopen, splitWords_nil rfl, hopen]
            exact hextracted.parsed_unterminated hline (not_le.mp hmax) hle hbuf (by rw [hargv₁])

end Parser

/-! ### Refinement of the tokenizer -/

/-- The arguments are the words. -/
theorem arg_of_args {s : CmdState} (h : Args s argc ws) (hnul : ∀ w ∈ ws, (0 : Byte) ∉ w.1) :
  (List.range' argc ws.length).map s.arg = ws.map fun w => some w.1
  := by
  induction ws generalizing argc with
  | nil => rfl
  | cons w ws ih =>
      obtain ⟨⟨a, ha, hholds⟩, hargs⟩ := h
      rw [List.forall_mem_cons] at hnul
      have harg : s.arg argc = some w.1 := by
        rw [CmdState.arg, ha]
        simp [cString_of_holds hholds hnul.1]
      rw [List.length_cons, List.range'_succ, List.map_cons, List.map_cons, harg, ih hargs hnul.2]

theorem nul_notMem_splitWords (line : List Byte) (h : 0 ∉ line) :
  ∀ w ∈ splitWords line, (0 : Byte) ∉ w.1
  := by
  fun_induction splitWords line with
  | case1 line hrest => simp
  | case2 line cs hrest => simp
  | case3 line c cs hrest hhash word ih =>
      have hsub : 0 ∉ c :: cs := by
        rw [← hrest]
        exact fun hmem => h ((List.dropWhile_suffix cmdIsspace).subset hmem)
      rw [List.forall_mem_cons]
      exact ⟨fun hmem => hsub (mem_of_mem_takeWord hmem),
        ih fun hmem => hsub (mem_of_mem_rest hmem)⟩

/-- The state when the parser starts, with arbitrary pointers in `argv`. -/
def startState (line : List Byte) (argv : List (Option ℕ)) : CmdState where
  buf := line ++ [0]
  argv := argv
  seen := []

theorem reads_startState {line : List Byte} (hline : 0 ∉ line) (argv : List (Option ℕ)) :
  Reads (startState line argv) 0 line
  := ⟨rfl, hline, fun i hi => absurd hi (Nat.not_lt_zero i)⟩

/-- The end of the arguments is stored after the arguments. -/
theorem arg_set (s : CmdState) {i j : ℕ} (h : i < j) (a : Option ℕ) :
  CmdState.arg { s with argv := s.argv.set j a } i = s.arg i
  := by
  simp only [CmdState.arg, List.getElem?_set_ne h.ne']

/-- The result of the parser, from that of its loop. -/
theorem cmdParse_eq {s : CmdState} {r : Except TokenError ℕ}
    (h : parseLoop (s.buf.length + 1) (s.buf.length + 1) 0 0 s = some (r, s'))
    (hargv : ∀ argc, r = .ok argc → argc < s'.argv.length) :
  ∃ s'', cmdParse s = some (r, s'') ∧ ∀ argc, r = .ok argc →
    (∀ i < argc, s''.arg i = s'.arg i) ∧ (argc ≠ 0 → s''.argv[argc]? = some none)
  := by
  have hget : (get : Program CmdState CmdState) s = some (s, s) := rfl
  have hparse : cmdParse s = storeEnd r s' := (bind_eq hget).trans (bind_eq h)
  rw [hparse]
  cases r with
  | error e => exact ⟨s', rfl, fun _ h => by cases h⟩
  | ok argc =>
      by_cases hzero : argc = 0
      · subst hzero
        refine ⟨s', rfl, ?_⟩
        rintro _ ⟨⟩
        exact ⟨fun _ _ => rfl, fun h => absurd rfl h⟩
      · rw [storeEnd, if_neg hzero]
        have hlt := hargv argc rfl
        refine ⟨_, (bind_eq (writeArgv_eq hlt none)).trans rfl, ?_⟩
        rintro _ ⟨⟩
        exact ⟨fun i hi => arg_set s' hi none, fun _ => List.getElem?_set_self hlt⟩

/-- A command is run only if there are arguments, and with all of them. -/
theorem cmdDispatch_run {r : Except TokenError ℕ} {builtin : BuiltinHandler} {s : CmdState}
    (h : cmdDispatch r s = some (.run builtin argc, s')) :
  r = .ok argc ∧ argc ≠ 0 ∧ s' = s
  := by
  cases r with
  | error e => cases h
  | ok n =>
      have hget : (get : Program CmdState CmdState) s = some (s, s) := rfl
      rw [cmdDispatch] at h
      split_ifs at h with hzero
      · cases h
      · rw [bind_eq hget] at h
        cases harg : s.arg 0 with
        | none =>
            rw [harg] at h
            cases h
        | some name =>
            rw [harg] at h
            change runCommand n name s = _ at h
            rw [runCommand] at h
            cases hfind : cmdFindBuiltin builtins name with
            | none =>
                rw [hfind] at h
                cases h
            | some found =>
                rw [hfind] at h
                cases found with
                | none => cases h
                | some handler =>
                    cases h
                    exact ⟨rfl, hzero, rfl⟩

/-- The parser of `cmd_exec` ends for every line, writes only over characters of the line that it has
read, and has the result of the tokenizer: the same error, or the same arguments, which are followed
by NULL in `argv` unless there is none.  A command is run with NULL after its arguments. -/
theorem cmdParse_tokenize (line : List Byte) (hline : 0 ∉ line) (argv : List (Option ℕ))
    (hargv : argv.length = CONFIG_ARGC_MAX + 1) :
  ∃ r s', cmdParse (startState line argv) = some (r, s')
    ∧ (match tokenize line with
      | .error e => r = .error e
      | .ok words => r = .ok words.length
          ∧ (List.range words.length).map s'.arg = words.map some
          ∧ (words ≠ [] → s'.argv[words.length]? = some none))
    ∧ ∀ builtin argc s'', cmdExec (startState line argv) = some (.run builtin argc, s'') →
        r = .ok argc ∧ s''.argv[argc]? = some none
  := by
  have hlength : line.length < (startState line argv).buf.length + 1 := by
    simp only [startState, List.length_append]
    omega
  obtain ⟨r, s₁, hloop, hparsed⟩ :=
    parseLoop_ends (reads_startState hline argv) hlength hlength (Nat.zero_le _) hargv
  have hresult := hparsed.result_eq
  rw [outcome, Nat.zero_add] at hresult
  rw [tokenize]
  obtain ⟨s', hs', hok⟩ := cmdParse_eq hloop (by
    intro argc hargc
    rw [hparsed.length_argv]
    change argc < argv.length
    rw [hargc] at hresult
    split_ifs at hresult with hmany hclosed
    cases hresult
    omega)
  have hexec : cmdExec (startState line argv) = cmdDispatch r s' := bind_eq hs'
  refine ⟨r, s', hs', ?_, ?_⟩
  rotate_left
  · intro builtin argc s'' hrun
    rw [hexec] at hrun
    obtain ⟨hr, hne, rfl⟩ := cmdDispatch_run hrun
    exact ⟨hr, (hok argc hr).2 hne⟩
  split_ifs at hresult ⊢ with hmany hclosed
  · exact hresult
  · obtain ⟨harg, hnull⟩ := hok _ hresult
    have hargs := arg_of_args (hparsed.args _ hresult) (nul_notMem_splitWords line hline)
    dsimp only
    rw [List.length_map]
    refine ⟨hresult, ?_, ?_⟩
    · rw [List.map_map, List.range_eq_range']
      apply Eq.trans _ hargs
      apply List.map_congr_left
      intro i hi
      apply harg i
      simpa using hi
    · intro hne
      apply hnull
      simpa using hne
  · exact hresult

/-- The line `ls '' #x` has the arguments `ls` and the empty string. -/
theorem splitWords_ls :
  splitWords [0x6C, 0x73, 0x20, 0x27, 0x27, 0x20, 0x23, 0x78] = [([0x6C, 0x73], true), ([], true)]
  := by
  have hls : takeWord .none [0x6C, 0x73, 0x20, 0x27, 0x27, 0x20, 0x23, 0x78]
      = ([0x6C, 0x73], true, [0x27, 0x27, 0x20, 0x23, 0x78]) := by decide
  have hempty : takeWord .none [0x27, 0x27, 0x20, 0x23, 0x78] = ([], true, [0x23, 0x78]) := by
    decide
  have hskip₁ : [0x6C, 0x73, 0x20, 0x27, 0x27, 0x20, 0x23, 0x78].dropWhile cmdIsspace
      = 0x6C :: [0x73, 0x20, 0x27, 0x27, 0x20, 0x23, 0x78] := by decide
  have hskip₂ : [0x27, 0x27, 0x20, 0x23, 0x78].dropWhile cmdIsspace
      = 0x27 :: [0x27, 0x20, 0x23, 0x78] := by decide
  have hskip₃ : [0x23, 0x78].dropWhile cmdIsspace = 0x23 :: [0x78] := by decide
  rw [splitWords_cons hskip₁, if_neg (by decide), hls, splitWords_cons hskip₂, if_neg (by decide),
    hempty, splitWords_cons hskip₃, if_pos (by decide)]

/-- The command `ls ''` with a comment. -/
theorem cmdParse_tokenize_ls :
  ∃ s', cmdParse (startState [0x6C, 0x73, 0x20, 0x27, 0x27, 0x20, 0x23, 0x78]
        (List.replicate 65 none)) = some (.ok 2, s')
    ∧ (List.range 2).map s'.arg = [some (str "ls"), some []]
    ∧ s'.argv[2]? = some none
  := by
  have htokenize : tokenize [0x6C, 0x73, 0x20, 0x27, 0x27, 0x20, 0x23, 0x78]
      = .ok [[0x6C, 0x73], []] := by
    rw [tokenize, splitWords_ls]
    rfl
  obtain ⟨r, s', hs', hresult, -⟩ := cmdParse_tokenize
    [0x6C, 0x73, 0x20, 0x27, 0x27, 0x20, 0x23, 0x78] (by decide) (List.replicate 65 none) rfl
  rw [htokenize] at hresult
  obtain ⟨rfl, hargs, hnull⟩ := hresult
  have hls : str "ls" = [0x6C, 0x73] := by decide
  rw [hls]
  exact ⟨s', hs', hargs, hnull (by decide)⟩

end Mosnix.Shell
