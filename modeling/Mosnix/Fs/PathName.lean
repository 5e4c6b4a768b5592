import Mosnix.Util
import Mosnix.Lib.FixedBuffer
import Mosnix.Lib.Path

/-!
# Resolving a path name

`inode_path_to_abs` of `inode.c` resolves a path name to an absolute path in an output buffer,
without touching the filesystem.  It works in place: the buffer holds the absolute path of the
components that were read so far, and a position marks its end.

The model keeps the output buffer as a list of bytes and fails with `none` when the code would
write outside it.  The loop over the components takes a bound on the number of its iterations
and fails with `none` if it is reached.  The main result, `inodePathToAbs_resolves`, says that
neither happens and that the result is the textbook resolution `Path.resolve`.
-/

namespace Mosnix.Fs

open FixedBuffer Path

/-! ### The code -/

/-- The loop that strips the last component from the output path. -/
def stripComponent (out : List Byte) : ℕ → ℕ
  | posn + 2 => if out[posn + 1]? ≠ some (chr '/') then stripComponent out (posn + 1) else posn + 2
  | posn => posn

/-- A `..` component: the new position and the new `isdir`. -/
def popComponent (out : List Byte) (posn : ℕ) : ℕ × Bool :=
  if posn > 1 then
    let posn := stripComponent out posn
    if posn > 1 then (posn - 1, false) else (posn, true)
  else (posn, true)

/-- An ordinary component: the new position, if there is room for the component. -/
def addComponent (out : List Byte) (outlen posn : ℕ) (component : List Byte) :
    Option (List Byte × Option ℕ) := do
  let (out, posn) ←
    if posn > 1 then (store? out posn (chr '/')).map (·, posn + 1) else some (out, posn)
  if posn + component.length ≥ outlen then
    return (out, none)
  let out ← copy? out posn component
  return (out, some (posn + component.length))

/-- The variables of `inode_resolve_relative`. -/
structure ResolveState where
  out : List Byte
  posn : ℕ
  isdir : Bool
  pathname : List Byte

/-- An iteration of the loop of `inode_resolve_relative`: the variables after it, or the returned value
and the output buffer. -/
def inodeResolveStep (outlen : ℕ) (s : ResolveState) :
    Option (ResolveState ⊕ (Int × List Byte)) := do
  let isdir := s.isdir || s.pathname.head? = some (chr '/')
  let pathname := s.pathname.dropWhile (· = chr '/')
  if pathname = [] then
    let out ← store? s.out s.posn 0
    return .inr (if isdir then 1 else 0, out)
  let len := strlenPathComponent pathname CONFIG_PATH_MAX
  if pathname[0]? = some (chr '.') ∧ len = 1 then
    return .inl ⟨s.out, s.posn, isdir, pathname.drop 1⟩
  else if pathname[0]? = some (chr '.') ∧ len = 2 ∧ pathname[1]? = some (chr '.') then
    let p := popComponent s.out s.posn
    return .inl ⟨s.out, p.1, p.2, pathname.drop 2⟩
  else
    match ← addComponent s.out outlen s.posn (pathname.take len) with
    | (out, none) => return .inr (-ENAMETOOLONG, out)
    | (out, some posn) => return .inl ⟨out, posn, false, pathname.drop len⟩

/-- The loop of `inode_resolve_relative`. -/
def inodeResolveLoop (outlen : ℕ) : ℕ → ResolveState → Option (Int × List Byte)
  | 0, _ => none
  | fuel + 1, s => do
      match ← inodeResolveStep outlen s with
      | .inl s => inodeResolveLoop outlen fuel s
      | .inr result => return result

/-- `inode_resolve_relative`: the returned value and the output buffer. -/
def inodeResolveRelative (out : List Byte) (outlen posn : ℕ) (pathname : List Byte) :
    Option (Int × List Byte) :=
  inodeResolveLoop outlen (pathname.length + 1) ⟨out, posn, posn = 1, pathname⟩

/-- `inode_path_to_abs`, for a process with the buffer `cwd` of the working directory: the
returned value and the output buffer. -/
def inodePathToAbs (cwd out : List Byte) (outlen : ℕ) (pathname : Option (List Byte)) :
    Option (Int × List Byte) :=
  match pathname with
  | none => some (-EFAULT, out)
  | some [] => some (-EINVAL, out)
  | some (ch :: rest) =>
      if strIsTooLong (ch :: rest) (CONFIG_PATH_MAX - 1) then some (-ENAMETOOLONG, out)
      else if ch = chr '/' then do
        if outlen < 2 then
          return (-ENAMETOOLONG, out)
        let out ← store? out 0 (chr '/')
        inodeResolveRelative out outlen 1 rest
      else do
        let posn := strlenConstrained cwd CONFIG_PATH_MAX
        if posn + 1 ≥ outlen then
          return (-ENAMETOOLONG, out)
        let out ← copy? out 0 (cwd.take posn)
        inodeResolveRelative out outlen posn (ch :: rest)

/-! ### One component -/

/-- The output buffer holds the absolute path of `stack`, up to the position. -/
structure Resolving (out : List Byte) (outlen posn : ℕ) (stack : List (List Byte)) : Prop where
  take_eq : out.take posn = render (chr '/') stack
  length_eq : (render (chr '/') stack).length = posn
  lt : posn < outlen
  le : outlen ≤ out.length
  normal : ∀ c ∈ stack, Normal (chr '/') (chr '.') c

variable {out c pathname rest : List Byte} {outlen posn fuel : ℕ} {stack : List (List Byte)}
  {s s' : ResolveState} {isdir : Bool}

namespace Resolving

theorem one_lt_iff (h : Resolving out outlen posn stack) : 1 < posn ↔ stack ≠ [] := by
  rw [← h.length_eq]
  apply one_lt_length_render_iff
  intro c hc
  apply (h.normal c hc).ne_nil

end Resolving

theorem stripComponent_succ (h : 0 < posn) :
  stripComponent out (posn + 1)
    = if out[posn]? ≠ some (chr '/') then stripComponent out posn else posn + 1
  := by
  obtain ⟨k, rfl⟩ := Nat.exists_eq_succ_of_ne_zero (Nat.ne_of_gt h)
  rfl

/-- Stripping a component stops right after the last slash. -/
theorem stripComponent_eq {p : List Byte} (hc : chr '/' ∉ c)
    (h : out.take (p.length + 1 + c.length) = p ++ chr '/' :: c) :
  stripComponent out (p.length + 1 + c.length) = p.length + 1
  := by
  induction c using List.reverseRecOn with
  | nil =>
      cases p with
      | nil => rfl
      | cons x p =>
          have hslash : out[(x :: p).length]? = some (chr '/') := by
            rw [← List.getElem?_take_of_lt (Nat.lt_succ_self (x :: p).length)]
            simpa using congrArg (·[(x :: p).length]?) h
          rw [List.length_nil, Nat.add_zero, stripComponent_succ (by simp),
            if_neg (not_not.mpr hslash)]
  | append_singleton c x ih =>
      rw [List.mem_append, not_or] at hc
      have hx : out[p.length + 1 + c.length]? = some x := by
        have hlt : p.length + 1 + c.length < p.length + 1 + (c ++ [x]).length := by simp
        rw [← List.getElem?_take_of_lt hlt, h, ← List.cons_append, ← List.append_assoc,
          List.getElem?_append_right (by simp; omega)]
        simp [Nat.add_assoc, Nat.add_comm 1]
      have htake : out.take (p.length + 1 + c.length) = p ++ chr '/' :: c := by
        have htake := congrArg (List.take (p.length + 1 + c.length)) h
        rw [List.take_take, min_eq_left (by simp)] at htake
        rw [htake, ← List.cons_append, ← List.append_assoc, List.take_left']
        simp
        omega
      have hne : some x ≠ some (chr '/') := by
        rintro ⟨rfl⟩
        apply hc.2
        simp
      rw [List.length_append, List.length_singleton, ← Nat.add_assoc,
        stripComponent_succ (by omega), hx, if_pos hne, ih hc.1 htake]

namespace Resolving

variable (h : Resolving out outlen posn stack)

include h

/-- A `..` component drops the last component of the stack. -/
theorem pop :
  Resolving out outlen (popComponent out posn).1 stack.dropLast
  := by
  obtain rfl | ⟨cs, c, rfl⟩ := List.eq_nil_or_concat stack
  · have hposn : ¬ posn > 1 := by simp [h.one_lt_iff]
    simpa [popComponent, hposn] using h
  · rw [List.concat_eq_append] at h ⊢
    have hc : Normal (chr '/') (chr '.') c := h.normal c (by simp)
    have hcs : ∀ d ∈ cs, Normal (chr '/') (chr '.') d := fun d hd => h.normal d (by simp [hd])
    have hposn : posn = (stem (chr '/') cs).length + 1 + c.length := by
      rw [← h.length_eq, render_append]
      simp
      omega
    have htake := h.take_eq
    have hlt := h.lt
    rw [render_append, hposn] at htake
    have hstrip := stripComponent_eq hc.sep_notMem htake
    rw [← hposn] at hstrip htake
    have hgt : posn > 1 := h.one_lt_iff.mpr (by simp)
    rw [List.dropLast_concat]
    simp only [popComponent, if_pos hgt, hstrip]
    cases hnil : cs with
    | nil =>
        subst hnil
        refine ⟨?_, rfl, by simp; omega, h.le, hcs⟩
        simpa [List.take_take, hgt.le] using congrArg (List.take 1) htake
    | cons d ds =>
        have hne : cs ≠ [] := by simp [hnil]
        rw [← hnil]
        have hlen := (one_lt_length_render_iff (chr '/') fun d hd => (hcs d hd).ne_nil).mpr hne
        rw [render_eq_stem hne] at hlen
        rw [if_pos (by omega)]
        refine ⟨?_, ?_, by simp; omega, h.le, hcs⟩
        · rw [render_eq_stem hne]
          have htake' := congrArg (List.take (stem (chr '/') cs).length) htake
          rw [List.take_take, min_eq_left (by omega), List.take_left] at htake'
          simpa using htake'
        · rw [render_eq_stem hne]
          simp

theorem normal_append (hc : Normal (chr '/') (chr '.') c) :
  ∀ d ∈ stack ++ [c], Normal (chr '/') (chr '.') d
  := by
  intro d hd
  obtain hd | hd := List.mem_append.mp hd
  · apply h.normal d hd
  · rwa [List.mem_singleton.mp hd]

/-- An ordinary component is added at the end of the stack, unless there is no room for it. -/
theorem add (hc : Normal (chr '/') (chr '.') c) :
  ∃ out' p, addComponent out outlen posn c = some (out', p) ∧ out'.length = out.length
    ∧ (p = none → outlen ≤ (render (chr '/') (stack ++ [c])).length)
    ∧ ∀ posn', p = some posn' → Resolving out' outlen posn' (stack ++ [c])
  := by
  have hle := h.le
  have hlt := h.lt
  cases hnil : stack with
  | nil =>
      subst hnil
      have hposn : posn = 1 := h.length_eq.symm
      subst hposn
      have hrender : render (chr '/') ([] ++ [c]) = out.take 1 ++ c := by
        rw [h.take_eq, render_append]
        rfl
      by_cases hroom : 1 + c.length ≥ outlen
      · use out, none
        and_intros
        · simp [addComponent, hroom]
        · rfl
        · intro _
          rw [hrender, List.length_append, List.length_take_of_le (by omega)]
          apply hroom
        · simp
      · have hlen : 1 + c.length ≤ out.length := by omega
        use overwrite out 1 c, some (1 + c.length)
        and_intros
        · simp [addComponent, hroom, copy?, hlen]
        · apply length_overwrite hlen
        · simp
        · rintro _ ⟨rfl⟩
          refine ⟨?_, ?_, by omega, by rwa [length_overwrite hlen], h.normal_append hc⟩
          · rw [take_overwrite (by omega), hrender]
          · rw [hrender, List.length_append, List.length_take_of_le (by omega)]
  | cons d ds =>
      rw [← hnil]
      have hne : stack ≠ [] := by simp [hnil]
      have hgt : posn > 1 := h.one_lt_iff.mpr hne
      have hstore : store? out posn (chr '/') = some (out.set posn (chr '/')) :=
        if_pos (by omega)
      have hrender : render (chr '/') (stack ++ [c]) = out.take posn ++ chr '/' :: c := by
        rw [h.take_eq, render_append, render_eq_stem hne]
      by_cases hroom : posn + 1 + c.length ≥ outlen
      · use out.set posn (chr '/'), none
        and_intros
        · simp [addComponent, hgt, hstore, hroom]
        · simp
        · intro _
          rw [hrender, List.length_append, List.length_take_of_le (by omega), List.length_cons]
          omega
        · simp
      · have hlen : posn + (chr '/' :: c).length ≤ out.length := by
          simp
          omega
        have hset : overwrite (out.set posn (chr '/')) (posn + 1) c
            = overwrite out posn (chr '/' :: c) := overwrite_set (by omega)
        have hcopy : copy? (out.set posn (chr '/')) (posn + 1) c
            = some (overwrite out posn (chr '/' :: c)) := by
          rw [copy?, if_pos (by simp; omega), hset]
        use overwrite out posn (chr '/' :: c), some (posn + 1 + c.length)
        and_intros
        · simp [addComponent, hgt, hstore, hroom, hcopy]
        · apply length_overwrite hlen
        · simp
        · rintro _ ⟨rfl⟩
          have hsum : posn + 1 + c.length = posn + (chr '/' :: c).length := by
            simp
            omega
          refine ⟨?_, ?_, by omega, by rwa [length_overwrite hlen], h.normal_append hc⟩
          · rw [hsum, take_overwrite (by omega), hrender]
          · rw [hrender, hsum, List.length_append, List.length_take_of_le (by omega)]

end Resolving

/-! ### The whole path name -/

/-- The conditions on the characters of a component that identify `.`. -/
theorem eq_dot_iff (hc : c ≠ []) :
  (c ++ rest)[0]? = some (chr '.') ∧ c.length = 1 ↔ c = [chr '.']
  := by
  obtain ⟨x, c, rfl⟩ := List.exists_cons_of_ne_nil hc
  simp

/-- The conditions on the characters of a component that identify `..`. -/
theorem eq_dotDot_iff (hc : c ≠ []) :
  (c ++ rest)[0]? = some (chr '.') ∧ c.length = 2 ∧ (c ++ rest)[1]? = some (chr '.')
    ↔ c = [chr '.', chr '.']
  := by
  obtain ⟨x, c, rfl⟩ := List.exists_cons_of_ne_nil hc
  cases c with
  | nil => simp
  | cons y c =>
      simp
      tauto

/-- The buffer `out` of `outlen` bytes holds the absolute path of `stack` as a string. -/
def HoldsPath (out : List Byte) (outlen : ℕ) (stack : List (List Byte)) : Prop :=
  (render (chr '/') stack).length < outlen ∧ ∃ rest, out = render (chr '/') stack ++ 0 :: rest

/-- At the end of the path name the output buffer is terminated. -/
theorem Resolving.finish (h : Resolving out outlen posn stack) :
  ∃ out', store? out posn 0 = some out' ∧ out'.length = out.length ∧ HoldsPath out' outlen stack
  := by
  have hlt : posn < out.length := lt_of_lt_of_le h.lt h.le
  use out.set posn 0, if_pos hlt, List.length_set, h.length_eq.trans_lt h.lt, out.drop (posn + 1)
  rw [List.set_eq_take_append_cons_drop, if_pos hlt, h.take_eq]

/-- The last iteration. -/
theorem inodeResolveLoop_of_inr {result : Int × List Byte}
    (h : inodeResolveStep outlen s = some (.inr result)) :
  inodeResolveLoop outlen (fuel + 1) s = some result
  := by
  rw [inodeResolveLoop, h]
  rfl

/-- An iteration that is not the last one. -/
theorem inodeResolveLoop_of_inl (h : inodeResolveStep outlen s = some (.inl s')) :
  inodeResolveLoop outlen (fuel + 1) s = inodeResolveLoop outlen fuel s'
  := by
  rw [inodeResolveLoop, h]
  rfl

/-- An iteration at the end of the path name. -/
theorem inodeResolveStep_end (hs : pathname.dropWhile (· = chr '/') = []) :
  inodeResolveStep outlen ⟨out, posn, isdir, pathname⟩
    = (store? out posn 0).map fun out =>
        .inr (if isdir || pathname.head? = some (chr '/') then 1 else 0, out)
  := by
  simp only [inodeResolveStep, hs, if_true, Option.map_eq_bind]
  rfl

/-- An iteration at a component `c` that `rest` follows. -/
theorem inodeResolveStep_component (hs : pathname.dropWhile (· = chr '/') = c ++ rest) (hc : c ≠ [])
    (hlen : strlenPathComponent (c ++ rest) CONFIG_PATH_MAX = c.length) :
  inodeResolveStep outlen ⟨out, posn, isdir, pathname⟩
    = if c = [chr '.'] then
        some (.inl ⟨out, posn, isdir || pathname.head? = some (chr '/'), rest⟩)
      else if c = [chr '.', chr '.'] then
        some (.inl ⟨out, (popComponent out posn).1, (popComponent out posn).2, rest⟩)
      else
        (addComponent out outlen posn c).bind fun p =>
          match p with
          | (out, none) => some (.inr (-ENAMETOOLONG, out))
          | (out, some posn) => some (.inl ⟨out, posn, false, rest⟩)
  := by
  have hne : c ++ rest ≠ [] := by simp [hc]
  simp only [inodeResolveStep, hs, if_neg hne, hlen, eq_dot_iff hc, eq_dotDot_iff hc,
    List.take_left, List.drop_left]
  split_ifs with hdot hdotDot
  · rw [hdot, List.singleton_append, List.drop_one, List.tail_cons]
    rfl
  · rw [hdotDot]
    rfl
  · rfl

/-- The loop returns without changing the length of the output buffer, and if it does not report an
error then the output buffer holds the absolute path that the path name resolves to.  It reports an
error if and only if the path does not fit in the buffer after one of the components. -/
theorem inodeResolveLoop_resolves (h : Resolving out outlen posn stack) (hnul : 0 ∉ pathname)
    (hlen : pathname.length ≤ CONFIG_PATH_MAX) (hfuel : pathname.length < fuel) :
  ∃ r out', inodeResolveLoop outlen fuel ⟨out, posn, isdir, pathname⟩ = some (r, out')
    ∧ out'.length = out.length
    ∧ (0 ≤ r → HoldsPath out' outlen (resolve (chr '/') (chr '.') stack pathname))
    ∧ (0 ≤ r ↔ Fits (chr '/') (chr '.') outlen stack pathname)
  := by
  have hstack : (render (chr '/') stack).length < outlen := h.length_eq.trans_lt h.lt
  induction fuel generalizing out posn isdir pathname stack with
  | zero => omega
  | succ fuel ih =>
      rw [← resolve_dropWhile, ← fits_dropWhile]
      cases hs : pathname.dropWhile (· = chr '/') with
      | nil =>
          obtain ⟨out', hfinish, hlen, hholds⟩ := h.finish
          have hstep : inodeResolveStep outlen ⟨out, posn, isdir, pathname⟩ = _ :=
            inodeResolveStep_end hs
          rw [hfinish, Option.map_some] at hstep
          rw [inodeResolveLoop_of_inr hstep, resolve_nil, fits_nil]
          refine ⟨_, _, rfl, hlen, fun _ => hholds, fun _ => hstack, fun _ => ?_⟩
          split_ifs
          · decide
          · decide
      | cons x xs =>
          have hsub := List.dropWhile_sublist (l := pathname) (· = chr '/')
          have hsep := head?_dropWhile_ne (chr '/') pathname
          rw [hs] at hsub hsep
          have hnul' : 0 ∉ x :: xs := fun h0 => hnul (hsub.mem h0)
          have hlen' : (x :: xs).length ≤ CONFIG_PATH_MAX := hsub.length_le.trans hlen
          have hcomp := strlenPathComponent_eq hnul' hlen'
          have hc := takeWhile_ne_nil (by simp) hsep
          have hcsep := sep_notMem_takeWhile (chr '/') (x :: xs)
          have hrest := dropWhile_eq_nil_or (chr '/') (x :: xs)
          have happend := List.takeWhile_append_dropWhile (p := (· ≠ chr '/')) (l := x :: xs)
          generalize (x :: xs).takeWhile (· ≠ chr '/') = c at hcomp hc hcsep happend
          generalize (x :: xs).dropWhile (· ≠ chr '/') = rest at hrest happend
          rw [← happend] at hs hcomp hsub hnul' hlen' ⊢
          have hpos : 0 < c.length := List.length_pos_of_ne_nil hc
          have hle := hsub.length_le
          rw [List.length_append] at hle hlen'
          have hnul'' : 0 ∉ rest := fun h0 => hnul' (List.mem_append_right c h0)
          have hstep : inodeResolveStep outlen ⟨out, posn, isdir, pathname⟩ = _ :=
            inodeResolveStep_component hs hc hcomp
          rw [resolve_append hcsep hrest, fits_append hcsep hrest, and_iff_right hstack]
          split_ifs at hstep with hdot hdotDot
          · rw [inodeResolveLoop_of_inl hstep, hdot, push_dot]
            apply ih h hnul'' (by omega) (by omega) hstack
          · rw [inodeResolveLoop_of_inl hstep, hdotDot, push_dotDot]
            apply ih h.pop hnul'' (by omega) (by omega) (h.pop.length_eq.trans_lt h.pop.lt)
          · have hnormal : Normal (chr '/') (chr '.') c := ⟨hc, hdot, hdotDot, hcsep⟩
            obtain ⟨out', p, hadd, hlen', hnone, hp⟩ := h.add hnormal
            rw [hadd, Option.bind_some] at hstep
            rw [push_of_normal hnormal, ← hlen']
            cases p with
            | none =>
                rw [inodeResolveLoop_of_inr hstep]
                refine ⟨_, _, rfl, rfl, fun hr => absurd hr (by decide), fun hr => ?_, fun hfits => ?_⟩
                · exact absurd hr (by decide)
                · exact absurd hfits.length_lt (not_lt.mpr (hnone rfl))
            | some posn' =>
                have h' := hp posn' rfl
                rw [inodeResolveLoop_of_inl hstep]
                apply ih h' hnul'' (by omega) (by omega) (h'.length_eq.trans_lt h'.lt)

/-- A path held by a buffer is the string of the buffer. -/
theorem HoldsPath.cString_eq (h : HoldsPath out outlen stack) (hnul : ∀ c ∈ stack, 0 ∉ c) :
  cString out = render (chr '/') stack
  := by
  obtain ⟨-, rest, rfl⟩ := h
  apply cString_append
  intro h0
  obtain h0 | ⟨c, hc, h0⟩ := mem_render_iff.mp h0
  · exact absurd h0 (by decide)
  · apply hnul c hc h0

/-- The root directory at the start of the output buffer. -/
theorem Resolving.root (hlen : 2 ≤ outlen) (hout : outlen ≤ out.length) :
  Resolving (out.set 0 (chr '/')) outlen 1 []
  := by
  refine ⟨?_, rfl, by omega, by simpa using hout, by simp⟩
  rw [set_eq_overwrite (by omega)]
  apply take_overwrite (s := [chr '/']) (Nat.zero_le out.length)

/-- The working directory at the start of the output buffer. -/
theorem Resolving.cwd (hlen : (render (chr '/') stack).length + 1 < outlen) (hout : outlen ≤ out.length)
    (hnormal : ∀ c ∈ stack, Normal (chr '/') (chr '.') c) :
  Resolving (overwrite out 0 (render (chr '/') stack)) outlen (render (chr '/') stack).length stack
  := by
  refine ⟨?_, rfl, by omega, ?_, hnormal⟩
  · have htake := take_overwrite (s := render (chr '/') stack) (Nat.zero_le out.length)
    rwa [Nat.zero_add] at htake
  · rwa [length_overwrite (by omega)]

/-- A path name that starts with a slash is resolved from the root. -/
theorem inodePathToAbs_absolute {cwd : List Byte} (hnul : 0 ∉ chr '/' :: rest)
    (hout : outlen ≤ out.length)
    (hlong : strIsTooLong (chr '/' :: rest) (CONFIG_PATH_MAX - 1) = false) :
  ∃ r out', inodePathToAbs cwd out outlen (some (chr '/' :: rest)) = some (r, out')
    ∧ out'.length = out.length
    ∧ (0 ≤ r → HoldsPath out' outlen (resolve (chr '/') (chr '.') [] rest))
    ∧ (0 ≤ r ↔ Fits (chr '/') (chr '.') outlen [] rest)
  := by
  have hlen : (chr '/' :: rest).length < 63 := (strIsTooLong_eq_false_iff hnul).mp hlong
  have hmax : CONFIG_PATH_MAX = 64 := rfl
  rw [List.length_cons] at hlen
  by_cases hroom : outlen < 2
  · have hfits : ¬ Fits (chr '/') (chr '.') outlen [] rest := by
      intro hfits
      have hlt := hfits.length_lt
      rw [render_nil, List.length_singleton] at hlt
      omega
    use -ENAMETOOLONG, out
    simp [inodePathToAbs, hlong, hroom, ENAMETOOLONG, hfits]
  · have hstore : store? out 0 (chr '/') = some (out.set 0 (chr '/')) := if_pos (by omega)
    have hrel : inodePathToAbs cwd out outlen (some (chr '/' :: rest))
        = inodeResolveRelative (out.set 0 (chr '/')) outlen 1 rest := by
      simp [inodePathToAbs, hlong, hroom, hstore]
    have hsame : (out.set 0 (chr '/')).length = out.length := List.length_set
    rw [hrel, ← hsame]
    apply inodeResolveLoop_resolves (Resolving.root (by omega) hout)
    · intro h0
      apply hnul (List.mem_cons_of_mem _ h0)
    · omega
    · omega

/-- A path name that does not start with a slash is resolved from the working directory. -/
theorem inodePathToAbs_relative {cwd : List Byte} {ch : Byte}
    (hcwd : cString cwd = render (chr '/') stack) (hcwdLen : cwd.length = CONFIG_PATH_MAX)
    (hnormal : ∀ c ∈ stack, Normal (chr '/') (chr '.') c) (hslash : ch ≠ chr '/')
    (hnul : 0 ∉ ch :: rest) (hout : outlen ≤ out.length)
    (hlong : strIsTooLong (ch :: rest) (CONFIG_PATH_MAX - 1) = false) :
  ∃ r out', inodePathToAbs cwd out outlen (some (ch :: rest)) = some (r, out')
    ∧ out'.length = out.length
    ∧ (0 ≤ r → HoldsPath out' outlen (resolve (chr '/') (chr '.') stack (ch :: rest)))
    ∧ (0 ≤ r ↔ (render (chr '/') stack).length + 1 < outlen
      ∧ Fits (chr '/') (chr '.') outlen stack (ch :: rest))
  := by
  have hlen : (ch :: rest).length < 63 := (strIsTooLong_eq_false_iff hnul).mp hlong
  have hmax : CONFIG_PATH_MAX = 64 := rfl
  have hposn : strlenConstrained cwd CONFIG_PATH_MAX = (render (chr '/') stack).length := by
    rw [strlenConstrained_eq hcwdLen.le, hcwd]
  by_cases hroom : (render (chr '/') stack).length + 1 ≥ outlen
  · use -ENAMETOOLONG, out
    simp [inodePathToAbs, hlong, hslash, hposn, hroom, not_lt.mpr hroom, ENAMETOOLONG]
  · have hcopy : copy? out 0 (cwd.take (render (chr '/') stack).length)
        = some (overwrite out 0 (render (chr '/') stack)) := by
      rw [← hcwd, take_length_cString, copy?, if_pos (by rw [hcwd]; omega)]
    have hrel : inodePathToAbs cwd out outlen (some (ch :: rest))
        = inodeResolveRelative (overwrite out 0 (render (chr '/') stack)) outlen
            (render (chr '/') stack).length (ch :: rest) := by
      simp [inodePathToAbs, hlong, hslash, hposn, hroom, hcopy]
    have hsame : (overwrite out 0 (render (chr '/') stack)).length = out.length := by
      apply length_overwrite
      omega
    rw [hrel, ← hsame, and_iff_right (by omega)]
    apply inodeResolveLoop_resolves (Resolving.cwd (by omega) hout hnormal) hnul
    · omega
    · omega

/-- The components that a path name is resolved from: none if it starts with a slash, and those of the
working directory otherwise. -/
def startDir (stack : List (List Byte)) (pathname : List Byte) : List (List Byte) :=
  if pathname.head? = some (chr '/') then [] else stack

/-- The path names that `inode_path_to_abs` accepts, in the working directory `stack`. -/
structure Accepted (outlen : ℕ) (stack : List (List Byte)) (pathname : List Byte) : Prop where
  ne_nil : pathname ≠ []
  length_lt : pathname.length < CONFIG_PATH_MAX - 1
  cwd_lt : pathname.head? ≠ some (chr '/') → (render (chr '/') stack).length + 1 < outlen
  fits : Fits (chr '/') (chr '.') outlen (startDir stack pathname) pathname

/-- `inode_path_to_abs` returns without changing the length of the output buffer, and if it does not
report an error then the output buffer holds the absolute path that the path name resolves to, from
the root if the path name starts with a slash and from the working directory otherwise. -/
theorem inodePathToAbs_holds {cwd : List Byte} (hcwd : cString cwd = render (chr '/') stack)
    (hcwdLen : cwd.length = CONFIG_PATH_MAX) (hnormal : ∀ c ∈ stack, Normal (chr '/') (chr '.') c)
    (hnul : 0 ∉ pathname) (hout : outlen ≤ out.length) :
  ∃ r out', inodePathToAbs cwd out outlen (some pathname) = some (r, out')
    ∧ out'.length = out.length
    ∧ (0 ≤ r → HoldsPath out' outlen (resolve (chr '/') (chr '.')
        (startDir stack pathname) pathname))
    ∧ (0 ≤ r ↔ Accepted outlen stack pathname)
  := by
  cases pathname with
  | nil =>
      refine ⟨_, _, rfl, rfl, fun hr => absurd hr (by decide), fun hr => absurd hr (by decide), ?_⟩
      intro haccepted
      cases haccepted.ne_nil rfl
  | cons ch rest =>
      have hlt : strIsTooLong (ch :: rest) (CONFIG_PATH_MAX - 1) = false ↔
          (ch :: rest).length < CONFIG_PATH_MAX - 1 :=
        strIsTooLong_eq_false_iff hnul
      cases hlong : strIsTooLong (ch :: rest) (CONFIG_PATH_MAX - 1) with
      | true =>
          have hnot : ¬ Accepted outlen stack (ch :: rest) := by
            intro haccepted
            have hfalse := hlt.mpr haccepted.length_lt
            rw [hlong] at hfalse
            cases hfalse
          use -ENAMETOOLONG, out
          simp [inodePathToAbs, hlong, ENAMETOOLONG, hnot]
      | false =>
          rw [hlong, eq_self, true_iff] at hlt
          by_cases hslash : ch = chr '/'
          · subst hslash
            have haccepted : Accepted outlen stack (chr '/' :: rest)
                ↔ Fits (chr '/') (chr '.') outlen [] rest := by
              constructor
              · intro haccepted
                simpa [startDir] using haccepted.fits
              · intro hfits
                exact ⟨by simp, hlt, by simp, by simpa [startDir] using hfits⟩
            rw [startDir, if_pos (by simp), resolve_sep, haccepted]
            apply inodePathToAbs_absolute hnul hout hlong
          · have hhead : (ch :: rest).head? ≠ some (chr '/') := by simpa using hslash
            have haccepted : Accepted outlen stack (ch :: rest)
                ↔ (render (chr '/') stack).length + 1 < outlen
                  ∧ Fits (chr '/') (chr '.') outlen stack (ch :: rest) := by
              constructor
              · intro haccepted
                have hfits := haccepted.fits
                rw [startDir, if_neg hhead] at hfits
                exact ⟨haccepted.cwd_lt hhead, hfits⟩
              · rintro ⟨hcwd, hfits⟩
                refine ⟨by simp, hlt, fun _ => hcwd, ?_⟩
                rwa [startDir, if_neg hhead]
            rw [startDir, if_neg hhead, haccepted]
            apply inodePathToAbs_relative hcwd hcwdLen hnormal hslash hnul hout hlong

/-- The components of the path that a path name resolves to. -/
theorem resolve_components (hnormal : ∀ c ∈ stack, Normal (chr '/') (chr '.') c)
    (hzero : ∀ c ∈ stack, 0 ∉ c) (hnul : 0 ∉ pathname) :
  (∀ c ∈ resolve (chr '/') (chr '.') (startDir stack pathname) pathname,
      Normal (chr '/') (chr '.') c)
    ∧ ∀ c ∈ resolve (chr '/') (chr '.') (startDir stack pathname) pathname, 0 ∉ c
  := by
  have hstart (P : List Byte → Prop) (hP : ∀ c ∈ stack, P c) :
      ∀ c ∈ startDir stack pathname, P c := by
    rw [startDir]
    split_ifs
    · simp
    · apply hP
  constructor
  · apply forall_mem_resolve (hstart _ hnormal)
    intro c hc _
    apply hc
  · apply forall_mem_resolve (hstart _ hzero)
    intro c _ hsub h0
    apply hnul (hsub h0)

/-- `inode_path_to_abs` is the textbook normalisation.  It returns without writing outside the
output buffer; if it does not report an error, the buffer holds a NUL-terminated string, which is
the absolute path that the components of the path name resolve to, from the root if the path name
starts with a slash and from the working directory otherwise.  No component of that path is
empty, `.` or `..`, and only the root ends in a slash. -/
theorem inodePathToAbs_resolves {cwd out pathname : List Byte} {outlen : ℕ}
    {stack : List (List Byte)}
    (hcwd : cString cwd = render (chr '/') stack) (hcwdLen : cwd.length = CONFIG_PATH_MAX)
    (hnormal : ∀ c ∈ stack, Normal (chr '/') (chr '.') c)
    (hnul : 0 ∉ pathname) (hout : outlen ≤ out.length) :
  ∃ r out', inodePathToAbs cwd out outlen (some pathname) = some (r, out')
    ∧ (0 ≤ r → ∃ components,
        components = resolve (chr '/') (chr '.') (startDir stack pathname) pathname
        ∧ cString out' = render (chr '/') components
        ∧ (cString out').length < outlen ∧ out'[(cString out').length]? = some 0
        ∧ (∀ c ∈ components, Normal (chr '/') (chr '.') c)
        ∧ ((cString out').getLast? = some (chr '/') → cString out' = [chr '/']))
  := by
  obtain ⟨r, out', heq, -, hholds, -⟩ := inodePathToAbs_holds hcwd hcwdLen hnormal hnul hout
  use r, out', heq
  intro hr
  replace hholds := hholds hr
  have hzero : ∀ c ∈ stack, 0 ∉ c := by
    intro c hc h0
    apply zero_notMem_cString cwd
    rw [hcwd]
    apply mem_render_iff.mpr (Or.inr ⟨c, hc, h0⟩)
  obtain ⟨hres, hresZero⟩ := resolve_components hnormal hzero hnul
  have hstring := hholds.cString_eq hresZero
  use resolve (chr '/') (chr '.') (startDir stack pathname) pathname, rfl
  rw [hstring]
  obtain ⟨hlen, rest, hrest⟩ := hholds
  refine ⟨rfl, hlen, ?_, hres, getLast?_render hres⟩
  rw [hrest]
  simp

/-- A working directory buffer with the path `/a`. -/
def cwdA : List Byte :=
  ['/', 'a'].map chr ++ List.replicate 62 0

/-- From the working directory `/a`, the path name `.././b//...` resolves to `/b/...`. -/
theorem inodePathToAbs_resolves_cwdA :
  ∃ out', inodePathToAbs cwdA (List.replicate 64 0) 64
      (some (['.', '.', '/', '.', '/', 'b', '/', '/', '.', '.', '.'].map chr)) = some (0, out')
    ∧ cString out' = ['/', 'b', '/', '.', '.', '.'].map chr
  := by
  have hcwd : cString cwdA = render (chr '/') [[chr 'a']] := by decide
  have hnormal : ∀ c ∈ [[chr 'a']], Normal (chr '/') (chr '.') c := by
    intro c hc
    rw [List.mem_singleton.mp hc]
    exact ⟨by decide, by decide, by decide, by decide⟩
  have hnul : 0 ∉ ['.', '.', '/', '.', '/', 'b', '/', '/', '.', '.', '.'].map chr := by decide
  have hout : 64 ≤ (List.replicate 64 (0 : Byte)).length := by decide
  obtain ⟨r, out', heq, hres⟩ := inodePathToAbs_resolves hcwd (by decide) hnormal hnul hout
  have hr : r = 0 := by
    have hfst := congrArg (Option.map Prod.fst) heq
    apply Option.some_inj.mp (hfst.symm.trans _)
    decide
  subst hr
  use out', heq
  obtain ⟨components, hcomp, hstring, -⟩ := hres le_rfl
  rw [hstring, hcomp]
  decide

/-! ### The positions in the output buffer -/

/-- The position is in the output buffer, behind its first byte. -/
structure WithinBuffer (outlen : ℕ) (s : ResolveState) : Prop where
  length_eq : s.out.length = outlen
  one_le : 1 ≤ s.posn
  lt : s.posn < outlen

/-- The position stays inside the buffer. -/
theorem stripComponent_bounds (out : List Byte) (h : 1 ≤ posn) :
  1 ≤ stripComponent out posn ∧ stripComponent out posn ≤ posn
  := by
  induction posn with
  | zero => omega
  | succ posn ih =>
      by_cases hzero : posn = 0
      · subst hzero
        exact ⟨le_rfl, le_rfl⟩
      · rw [stripComponent_succ (by omega)]
        split_ifs
        · have hbounds := ih (by omega)
          omega
        · omega

/-- A `..` component does not take the position below 1. -/
theorem popComponent_bounds (out : List Byte) (h : 1 ≤ posn) :
  1 ≤ (popComponent out posn).1 ∧ (popComponent out posn).1 ≤ posn
  := by
  have hbounds := stripComponent_bounds out h
  simp only [popComponent]
  split_ifs
  · dsimp only
    omega
  · exact hbounds
  · exact ⟨h, le_rfl⟩

/-- An ordinary component is stored in the output buffer, if there is room for it behind the slash. -/
theorem addComponent_bounds (component : List Byte) (hout : out.length = outlen) (hposn : 1 ≤ posn)
    (hlt : posn < outlen) :
  ∃ out' p, addComponent out outlen posn component = some (out', p) ∧ out'.length = outlen
    ∧ ∀ posn', p = some posn' → 1 ≤ posn' ∧ posn' < outlen
  := by
  obtain ⟨out₁, posn₁, hslash, hout₁, hposn₁⟩ : ∃ out₁ posn₁,
      (if posn > 1 then (store? out posn (chr '/')).map (·, posn + 1) else some (out, posn))
        = some (out₁, posn₁) ∧ out₁.length = outlen ∧ 1 ≤ posn₁ := by
    split_ifs
    · refine ⟨out.set posn (chr '/'), posn + 1, ?_, by simpa using hout, by omega⟩
      rw [store?, if_pos (by omega), Option.map_some]
    · exact ⟨out, posn, rfl, hout, hposn⟩
  have hadd : addComponent out outlen posn component
      = if posn₁ + component.length ≥ outlen then some (out₁, none)
        else (copy? out₁ posn₁ component).map (·, some (posn₁ + component.length)) := by
    by_cases hone : posn > 1
    · rw [if_pos hone] at hslash
      simp only [addComponent, if_pos hone, hslash, Option.bind_eq_bind, Option.bind_some,
        Option.pure_def, Option.map_eq_bind, Function.comp_def]
    · rw [if_neg hone] at hslash
      simp only [addComponent, if_neg hone, hslash, Option.bind_eq_bind, Option.bind_some,
        Option.pure_def, Option.map_eq_bind, Function.comp_def]
  rw [hadd]
  split_ifs with hroom
  · exact ⟨out₁, none, rfl, hout₁, by simp⟩
  · rw [copy?, if_pos (by omega)]
    refine ⟨_, _, rfl, by rw [length_overwrite (by omega), hout₁], ?_⟩
    rintro _ ⟨rfl⟩
    omega

/-- A component has at least one character. -/
theorem strlenPathComponent_pos {x : Byte} {xs : List Byte} (hslash : x ≠ chr '/') (hnul : x ≠ 0) :
  0 < strlenPathComponent (x :: xs) CONFIG_PATH_MAX
  := by
  rw [CONFIG_PATH_MAX, strlenPathComponent, if_neg (not_or.mpr ⟨hslash, hnul⟩)]
  omega

/-- An iteration stays in the output buffer.  It either advances in the path name, or returns, and
then the NUL is stored at the position if no error is reported. -/
theorem WithinBuffer.step (h : WithinBuffer outlen s) (hnul : 0 ∉ s.pathname) :
  (∃ s', inodeResolveStep outlen s = some (.inl s') ∧ WithinBuffer outlen s'
      ∧ s'.pathname.length < s.pathname.length ∧ 0 ∉ s'.pathname)
    ∨ ∃ r out', inodeResolveStep outlen s = some (.inr (r, out')) ∧ out'.length = outlen
      ∧ (0 ≤ r → out' = s.out.set s.posn 0)
  := by
  have hsub := List.dropWhile_sublist (l := s.pathname) (· = chr '/')
  have hsep := head?_dropWhile_ne (chr '/') s.pathname
  have hlt := h.length_eq.symm ▸ h.lt
  simp only [inodeResolveStep]
  cases hs : s.pathname.dropWhile (· = chr '/') with
  | nil =>
      right
      rw [if_pos rfl, store?, if_pos hlt]
      exact ⟨_, _, rfl, by simpa using h.length_eq, fun _ => rfl⟩
  | cons x xs =>
      rw [hs] at hsub hsep
      have hpos : 0 < strlenPathComponent (x :: xs) CONFIG_PATH_MAX := by
        apply strlenPathComponent_pos
        · simpa using hsep
        · rintro rfl
          apply hnul (hsub.mem List.mem_cons_self)
      have hle := hsub.length_le
      rw [List.length_cons] at hle
      have hdrop (n : ℕ) (hn : 0 < n) : ((x :: xs).drop n).length < s.pathname.length := by
        rw [List.length_drop, List.length_cons]
        omega
      have hdropNul (n : ℕ) : 0 ∉ (x :: xs).drop n := by
        intro h0
        apply hnul (hsub.mem (List.mem_of_mem_drop h0))
      rw [if_neg (List.cons_ne_nil x xs)]
      split_ifs
      · left
        exact ⟨_, rfl, ⟨h.length_eq, h.one_le, h.lt⟩, hdrop 1 (by omega), hdropNul 1⟩
      · left
        have hpop := popComponent_bounds s.out h.one_le
        have hlt := h.lt
        exact ⟨_, rfl, ⟨h.length_eq, hpop.1, by dsimp only; omega⟩, hdrop 2 (by omega), hdropNul 2⟩
      · obtain ⟨out', p, hadd, hlength, hposn⟩ := addComponent_bounds
          ((x :: xs).take (strlenPathComponent (x :: xs) CONFIG_PATH_MAX))
          h.length_eq h.one_le h.lt
        rw [hadd]
        cases p with
        | none =>
            right
            refine ⟨_, _, rfl, hlength, fun hr => absurd hr (by decide)⟩
        | some posn' =>
            left
            obtain ⟨hone, hlt'⟩ := hposn posn' rfl
            exact ⟨_, rfl, ⟨hlength, hone, hlt'⟩, hdrop _ hpos, hdropNul _⟩

/-- The variables that the iterations come to. -/
def Comes (outlen : ℕ) : ResolveState → ResolveState → Prop :=
  Relation.ReflTransGen fun s s' => inodeResolveStep outlen s = some (.inl s')

/-- The loop stays within the buffer. -/
theorem WithinBuffer.comes (h : WithinBuffer outlen s) (hnul : 0 ∉ s.pathname)
    (hcomes : Comes outlen s s') :
  WithinBuffer outlen s' ∧ 0 ∉ s'.pathname
  := by
  induction hcomes with
  | refl => exact ⟨h, hnul⟩
  | @tail x y _ hstep ih =>
      obtain ⟨y', hstep', hwithin, -, hnul'⟩ | ⟨r, out', hstep', -⟩ := ih.1.step ih.2
      · rw [hstep] at hstep'
        cases hstep'
        exact ⟨hwithin, hnul'⟩
      · rw [hstep] at hstep'
        cases hstep'

/-- The loop returns, in the output buffer, with a NUL at the last position if it does not report an
error. -/
theorem WithinBuffer.returns (h : WithinBuffer outlen s) (hnul : 0 ∉ s.pathname)
    (hfuel : s.pathname.length < fuel) :
  ∃ r out', inodeResolveLoop outlen fuel s = some (r, out')
    ∧ out'.length = outlen ∧ (0 ≤ r → ∃ s', Comes outlen s s' ∧ out' = s'.out.set s'.posn 0)
  := by
  induction fuel generalizing s with
  | zero => omega
  | succ fuel ih =>
      obtain ⟨s₁, hstep, hwithin, hlt, hnul₁⟩ | ⟨r, out', hstep, hlength, hzero⟩ := h.step hnul
      · obtain ⟨r, out', hloop, hlength, hend⟩ := ih hwithin hnul₁ (by omega)
        rw [inodeResolveLoop_of_inl hstep]
        refine ⟨r, out', hloop, hlength, fun hr => ?_⟩
        obtain ⟨s', hcomes, hout'⟩ := hend hr
        exact ⟨s', hcomes.head hstep, hout'⟩
      · rw [inodeResolveLoop_of_inr hstep]
        exact ⟨r, out', rfl, hlength, fun hr => ⟨s, Relation.ReflTransGen.refl, hzero hr⟩⟩

/-- The call of `inode_resolve_relative` with the variables `start` returns `r` and the buffer `out'`,
and is safe: the position is always in the buffer and not below 1, each iteration advances in the path
name, and the NUL is stored in the buffer if no error is reported. -/
structure SafeCall (outlen : ℕ) (start : ResolveState) (r : Int) (out' : List Byte) : Prop where
  isdir_eq : start.isdir = decide (start.posn = 1)
  returns : inodeResolveRelative start.out outlen start.posn start.pathname = some (r, out')
  within : ∀ s, Comes outlen start s → s.out.length = outlen ∧ 1 ≤ s.posn ∧ s.posn < outlen
  advances : ∀ s s', Comes outlen start s → inodeResolveStep outlen s = some (.inl s') →
    s'.pathname.length < s.pathname.length
  length_eq : out'.length = outlen
  terminated : 0 ≤ r → ∃ s, Comes outlen start s ∧ out' = s.out.set s.posn 0

/-- A call of `inode_resolve_relative` with a position in the buffer is safe, whatever the buffer
holds. -/
theorem inodeResolveRelative_safe (hout : out.length = outlen) (hposn : 1 ≤ posn) (hlt : posn < outlen)
    (hnul : 0 ∉ pathname) :
  ∃ r out', SafeCall outlen ⟨out, posn, posn = 1, pathname⟩ r out'
  := by
  have h : WithinBuffer outlen ⟨out, posn, posn = 1, pathname⟩ := ⟨hout, hposn, hlt⟩
  obtain ⟨r, out', hloop, hlength, hend⟩ := h.returns hnul (Nat.lt_succ_self _)
  refine ⟨r, out', rfl, hloop, ?_, ?_, hlength, hend⟩
  · intro s hcomes
    obtain ⟨hlength, hone, hlt⟩ := (h.comes hnul hcomes).1
    exact ⟨hlength, hone, hlt⟩
  · intro s s' hcomes hstep
    obtain ⟨hwithin, hnul'⟩ := h.comes hnul hcomes
    obtain ⟨s₁, hstep₁, -, hlt, -⟩ | ⟨r₁, out₁, hstep₁, -⟩ := hwithin.step hnul'
    · rw [hstep] at hstep₁
      cases hstep₁
      exact hlt
    · rw [hstep] at hstep₁
      cases hstep₁

/-- The variables with which `inode_path_to_abs` calls `inode_resolve_relative`: the output buffer has
the root directory for a path name that starts with a slash, and the working directory otherwise. -/
def startState (cwd out pathname : List Byte) : ResolveState :=
  if pathname.head? = some (chr '/') then ⟨out.set 0 (chr '/'), 1, true, pathname.tail⟩
  else
    let posn := strlenConstrained cwd CONFIG_PATH_MAX
    ⟨overwrite out 0 (cwd.take posn), posn, posn = 1, pathname⟩

/-- Calls of `inode_resolve_relative` and of `inode_path_to_abs` with a buffer of `outlen` bytes write
only to the buffer.  A call of `inode_path_to_abs` reports an error before it writes to the buffer, or
makes a safe call of `inode_resolve_relative` with the variables `startState`. -/
theorem inodePathToAbs_safe {cwd out : List Byte} {outlen : ℕ} {stack : List (List Byte)}
    (hcwd : cString cwd = render (chr '/') stack) (hcwdLen : cwd.length = CONFIG_PATH_MAX)
    (hlen : 2 ≤ outlen) (hout : out.length = outlen) :
  (∀ posn pathname, 1 ≤ posn → posn < outlen → 0 ∉ pathname →
      ∃ r out', SafeCall outlen ⟨out, posn, posn = 1, pathname⟩ r out')
    ∧ ∀ pathname : Option (List Byte), (∀ p, pathname = some p → 0 ∉ p) →
      ∃ r out', inodePathToAbs cwd out outlen pathname = some (r, out')
        ∧ (r < 0 ∧ out' = out
          ∨ ∃ p, pathname = some p ∧ SafeCall outlen (startState cwd out p) r out')
  := by
  refine ⟨fun posn pathname hposn hlt hnul => inodeResolveRelative_safe hout hposn hlt hnul, ?_⟩
  intro pathname hnul
  match pathname with
  | none => exact ⟨_, _, rfl, Or.inl ⟨by decide, rfl⟩⟩
  | some [] => exact ⟨_, _, rfl, Or.inl ⟨by decide, rfl⟩⟩
  | some (ch :: rest) =>
      have hnul := hnul _ rfl
      have hposn : strlenConstrained cwd CONFIG_PATH_MAX = (render (chr '/') stack).length := by
        rw [strlenConstrained_eq hcwdLen.le, hcwd]
      simp only [inodePathToAbs]
      split_ifs with hlong hslash hshort hroom
      · exact ⟨_, _, rfl, Or.inl ⟨by decide, rfl⟩⟩
      · omega
      · have hrest : 0 ∉ rest := fun h0 => hnul (List.mem_cons_of_mem _ h0)
        have hset : (out.set 0 (chr '/')).length = outlen := by rw [List.length_set, hout]
        obtain ⟨r, out', hsafe⟩ := inodeResolveRelative_safe hset le_rfl (by omega) hrest
        have hstart : startState cwd out (ch :: rest) = ⟨out.set 0 (chr '/'), 1, true, rest⟩ :=
          if_pos (congrArg some hslash)
        rw [store?, if_pos (by omega)]
        refine ⟨r, out', hsafe.returns, Or.inr ⟨_, rfl, ?_⟩⟩
        rw [hstart]
        exact hsafe
      · exact ⟨_, _, rfl, Or.inl ⟨by decide, rfl⟩⟩
      · have hone : 1 ≤ strlenConstrained cwd CONFIG_PATH_MAX := by
          rw [hposn]
          simp [render]
        have htake := List.length_take_le (strlenConstrained cwd CONFIG_PATH_MAX) cwd
        have hcopied : (overwrite out 0 (cwd.take (strlenConstrained cwd CONFIG_PATH_MAX))).length
            = outlen := by
          rw [length_overwrite (by omega), hout]
        obtain ⟨r, out', hsafe⟩ := inodeResolveRelative_safe hcopied hone (by omega) hnul
        have hhead : (ch :: rest).head? ≠ some (chr '/') := by simpa using hslash
        rw [copy?, if_pos (by omega)]
        refine ⟨r, out', hsafe.returns, Or.inr ⟨_, rfl, ?_⟩⟩
        rw [startState, if_neg hhead]
        exact hsafe

/-- In a buffer of 4 bytes, the path name `..` is resolved from the working directory `/a`. -/
theorem inodePathToAbs_safe_cwdA :
  ∃ r out', inodePathToAbs cwdA (List.replicate 4 0) 4 (some [chr '.', chr '.']) = some (r, out')
    ∧ SafeCall 4 ⟨[chr '/', chr 'a', 0, 0], 2, false, [chr '.', chr '.']⟩ r out'
  := by
  have hcwd : cString cwdA = render (chr '/') [[chr 'a']] := by decide
  have hnul : ∀ p, some [chr '.', chr '.'] = some p → 0 ∉ p := by
    rintro _ ⟨rfl⟩
    decide
  have hlength : (List.replicate 4 (0 : Byte)).length = 4 := by decide
  obtain ⟨r, out', hcall, ⟨hr, -⟩ | ⟨p, hp, hsafe⟩⟩ :=
    (inodePathToAbs_safe hcwd (by decide) (by decide) hlength).2 _ hnul
  · have hzero : inodePathToAbs cwdA (List.replicate 4 0) 4 (some [chr '.', chr '.'])
        = some (1, [chr '/', 0, 0, 0]) := by decide
    rw [hzero] at hcall
    cases hcall
    exact absurd hr (by decide)
  · cases hp
    exact ⟨r, out', hcall, hsafe⟩

end Mosnix.Fs
