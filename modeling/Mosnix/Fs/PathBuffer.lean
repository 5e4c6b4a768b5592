import Mosnix.Fs.PathName
import Mosnix.Fs.Rest

/-!
# Buffers that hold paths

The working directory of a process and the buffer `temp_path` hold absolute paths.  `IsPath buf
stack` says that the buffer `buf` holds the path of the components `stack` as a string.  A path is
resolved from one such buffer to another, and copied.  The walk along such a path comes to the
components one after the other, so the names of the nodes that are created are components.
-/

namespace Mosnix.Fs

open FixedBuffer Path

/-! ### Buffers -/

/-- The buffer `buf` holds the absolute path of the components `stack`. -/
structure IsPath (buf : List Byte) (stack : List (List Byte)) : Prop where
  length_eq : buf.length = CONFIG_PATH_MAX
  holds : HoldsPath buf CONFIG_PATH_MAX stack
  normal : ∀ c ∈ stack, Normal (chr '/') (chr '.') c
  zero_notMem : ∀ c ∈ stack, 0 ∉ c

theorem IsPath.cString_eq {buf : List Byte} {stack : List (List Byte)} (h : IsPath buf stack) :
  cString buf = render (chr '/') stack
  :=
  h.holds.cString_eq h.zero_notMem

/-- The components of the absolute path of `pathname`, in the working directory `stack`. -/
abbrev absPath (stack : List (List Byte)) (pathname : List Byte) : List (List Byte) :=
  resolve (chr '/') (chr '.') (startDir stack pathname) pathname

/-- A path name is resolved from the buffer of the working directory to the buffer `out`. -/
theorem IsPath.inodePathToAbs_eq {cwd out : List Byte} {stack : List (List Byte)}
    (h : IsPath cwd stack) (hout : out.length = CONFIG_PATH_MAX) {pathname : List Byte}
    (hnul : 0 ∉ pathname) :
  ∃ r out', inodePathToAbs cwd out CONFIG_PATH_MAX (some pathname) = some (r, out')
    ∧ out'.length = CONFIG_PATH_MAX ∧ (0 ≤ r → IsPath out' (absPath stack pathname))
    ∧ (0 ≤ r ↔ Accepted CONFIG_PATH_MAX stack pathname)
  := by
  obtain ⟨r, out', heq, hlen, hholds, haccepted⟩ :=
    inodePathToAbs_holds h.cString_eq h.length_eq h.normal hnul hout.ge
  obtain ⟨hnormal, hzero⟩ := resolve_components h.normal h.zero_notMem hnul
  refine ⟨r, out', heq, hlen.trans hout, ?_, haccepted⟩
  intro hr
  exact ⟨hlen.trans hout, hholds hr, hnormal, hzero⟩

theorem IsPath.zero_notMem_render {buf : List Byte} {stack : List (List Byte)} (h : IsPath buf stack) :
  0 ∉ render (chr '/') stack
  := by
  rw [← h.cString_eq]
  apply zero_notMem_cString

/-- An absolute path of at most 62 characters is accepted. -/
theorem accepted_render {stack stack' : List (List Byte)}
    (hnormal : ∀ c ∈ stack', Normal (chr '/') (chr '.') c) :
  Accepted CONFIG_PATH_MAX stack (render (chr '/') stack')
    ↔ (render (chr '/') stack').length ≤ CONFIG_PATH_MAX - 2
  := by
  have hmax : CONFIG_PATH_MAX = 64 := rfl
  constructor
  · intro haccepted
    have hlt := haccepted.length_lt
    omega
  · intro hle
    refine ⟨by simp [render], by omega, by simp [render], ?_⟩
    apply fits_render hnormal
    omega

/-- A path name is accepted, and the result again, with the same result. -/
def AcceptedTwice (cwd out pathname : List Byte) : Prop :=
  ∃ r out', inodePathToAbs cwd out CONFIG_PATH_MAX (some pathname) = some (r, out') ∧ 0 ≤ r
    ∧ ∀ out₁, out₁.length = CONFIG_PATH_MAX →
      ∃ r₂ out₂, inodePathToAbs cwd out₁ CONFIG_PATH_MAX (some (cString out')) = some (r₂, out₂)
        ∧ 0 ≤ r₂ ∧ cString out₂ = cString out'

/-- A path name whose normal form has at most 63 characters, after each component, is accepted, and
the result again, if and only if the path name has at most 62 characters, the working directory has
at most 62 characters if the path name is relative to it, and the result has at most 62
characters. -/
theorem acceptedTwice_iff {cwd out pathname : List Byte} {stack : List (List Byte)}
    (hcwd : IsPath cwd stack) (hout : out.length = CONFIG_PATH_MAX) (hne : pathname ≠ [])
    (hnul : 0 ∉ pathname)
    (hfits : Fits (chr '/') (chr '.') CONFIG_PATH_MAX (startDir stack pathname) pathname) :
  AcceptedTwice cwd out pathname
    ↔ pathname.length ≤ CONFIG_PATH_MAX - 2
      ∧ (pathname.head? ≠ some (chr '/') → (cString cwd).length ≤ CONFIG_PATH_MAX - 2)
      ∧ (render (chr '/') (absPath stack pathname)).length ≤ CONFIG_PATH_MAX - 2
  := by
  have hmax : CONFIG_PATH_MAX = 64 := rfl
  obtain ⟨r, out', heq, -, hpath, haccepted⟩ := hcwd.inodePathToAbs_eq hout hnul
  constructor
  · rintro ⟨r', out'', heq', hr, htwice⟩
    rw [heq] at heq'
    cases heq'
    have hpath' := hpath hr
    obtain ⟨-, hlength, hcwdLen, -⟩ := haccepted.mp hr
    obtain ⟨r₂, out₂, heq₂, hr₂, -⟩ := htwice out hout
    obtain ⟨r₃, out₃, heq₃, -, -, haccepted₃⟩ :=
      hcwd.inodePathToAbs_eq hout hpath'.zero_notMem_render
    rw [hpath'.cString_eq, heq₃] at heq₂
    cases heq₂
    refine ⟨by omega, ?_, (accepted_render hpath'.normal).mp (haccepted₃.mp hr₂)⟩
    intro hrel
    have hlt := hcwdLen hrel
    rw [hcwd.cString_eq]
    omega
  · rintro ⟨hlength, hcwdLen, hresult⟩
    have hr : 0 ≤ r := by
      rw [haccepted]
      refine ⟨hne, by omega, ?_, hfits⟩
      intro hrel
      have hle := hcwdLen hrel
      rw [hcwd.cString_eq] at hle
      omega
    have hpath' := hpath hr
    refine ⟨r, out', heq, hr, ?_⟩
    intro out₁ hout₁
    obtain ⟨r₂, out₂, heq₂, -, hpath₂, haccepted₂⟩ :=
      hcwd.inodePathToAbs_eq hout₁ hpath'.zero_notMem_render
    have hr₂ := haccepted₂.mpr ((accepted_render hpath'.normal).mpr hresult)
    have hsame : absPath stack (render (chr '/') (absPath stack pathname))
        = absPath stack pathname := resolve_render hpath'.normal
    have hpath₂' := hpath₂ hr₂
    rw [hsame] at hpath₂'
    refine ⟨r₂, out₂, ?_, hr₂, ?_⟩
    · rw [hpath'.cString_eq, heq₂]
    · rw [hpath₂'.cString_eq, hpath'.cString_eq]

theorem isPath_cwdA : IsPath cwdA [[chr 'a']] := by
  refine ⟨by decide, ⟨by decide, List.replicate 61 0, by decide⟩, ?_, by decide⟩
  intro c hc
  rw [List.mem_singleton.mp hc]
  exact ⟨by decide, by decide, by decide, by decide⟩

/-- The path name with `n` characters after the slash. -/
def longPath (n : ℕ) : List Byte := chr '/' :: List.replicate n (chr 'a')

/-- The path name of one long component fits the buffer. -/
theorem fits_longPath {n : ℕ} (hn : 3 ≤ n) (hle : n + 1 < CONFIG_PATH_MAX) (stack : List (List Byte)) :
  Fits (chr '/') (chr '.') CONFIG_PATH_MAX (startDir stack (longPath n)) (longPath n)
  := by
  have hrender : longPath n = render (chr '/') [List.replicate n (chr 'a')] := by
    simp [longPath, render]
  have hstart : startDir stack (longPath n) = [] := if_pos rfl
  rw [hstart, hrender]
  apply fits_render
  · intro c hc
    rw [List.mem_singleton.mp hc]
    have hmem (x : Byte) (hx : x ≠ chr 'a') : x ∉ List.replicate n (chr 'a') := by
      intro h
      exact hx (List.eq_of_mem_replicate h)
    refine ⟨?_, ?_, ?_, hmem _ (by decide)⟩
    · intro h
      have hlen := congrArg List.length h
      simp at hlen
      omega
    · intro h
      have hlen := congrArg List.length h
      simp at hlen
      omega
    · intro h
      have hlen := congrArg List.length h
      simp at hlen
      omega
  · rw [← hrender]
    simpa [longPath] using hle

/-- A path name of 63 characters is in normal form, but is not accepted. -/
theorem acceptedTwice_63 :
  IsPath cwdA [[chr 'a']] ∧ (longPath 62).length = 63
    ∧ Fits (chr '/') (chr '.') CONFIG_PATH_MAX (startDir [[chr 'a']] (longPath 62)) (longPath 62)
    ∧ (inodePathToAbs cwdA (List.replicate 64 0) CONFIG_PATH_MAX (some (longPath 62))).map Prod.fst
      = some (-ENAMETOOLONG)
    ∧ ¬ AcceptedTwice cwdA (List.replicate 64 0) (longPath 62)
  := by
  have hreject : (inodePathToAbs cwdA (List.replicate 64 0) CONFIG_PATH_MAX
      (some (longPath 62))).map Prod.fst = some (-ENAMETOOLONG) := by
    decide +kernel
  refine ⟨isPath_cwdA, by decide, fits_longPath (by decide) (by decide) _, hreject, ?_⟩
  rintro ⟨r, out', heq, hr, -⟩
  rw [heq] at hreject
  obtain rfl : r = -ENAMETOOLONG := Option.some.inj hreject
  exact absurd hr (by decide)

/-- A path name of 62 characters is accepted. -/
theorem acceptedTwice_62 :
  IsPath cwdA [[chr 'a']] ∧ AcceptedTwice cwdA (List.replicate 64 0) (longPath 61)
  := by
  refine ⟨isPath_cwdA, ?_⟩
  apply (acceptedTwice_iff isPath_cwdA (by decide) (by decide) (by decide)
    (fits_longPath (by decide) (by decide) _)).mpr
  decide +kernel

/-- A buffer has room for the NUL only, or for a character. -/
theorem eq_one_or_add_two {max : ℕ} (hmax : 0 < max) : max = 1 ∨ ∃ n, max = n + 2 := by
  obtain hone | hlt : max = 1 ∨ 1 < max := by omega
  · left
    exact hone
  · right
    exact ⟨max - 2, by omega⟩

/-- `strcpy_constrained` copies a string, up to the size of the buffer. -/
theorem strcpyConstrained_eq {dest str rest : List Byte} {posn max : ℕ} (hnul : 0 ∉ str)
    (hmax : 0 < max) (hdest : posn + (str.take (max - 1)).length < dest.length) :
  strcpyConstrained dest posn (str ++ 0 :: rest) max
    = some (overwrite dest posn (str.take (max - 1) ++ [0]))
  := by
  induction str generalizing dest posn max with
  | nil =>
      have hstore : store? dest posn 0 = some (overwrite dest posn [0]) := by
        rw [store?, if_pos (by simpa using hdest), set_eq_overwrite (by simpa using hdest)]
      obtain rfl | ⟨n, rfl⟩ := eq_one_or_add_two hmax
      · exact hstore
      · simpa [strcpyConstrained] using hstore
  | cons c str ih =>
      rw [List.mem_cons, not_or] at hnul
      obtain rfl | ⟨n, rfl⟩ := eq_one_or_add_two hmax
      · rw [Nat.sub_self, List.take_zero, List.length_nil, Nat.add_zero] at hdest
        rw [Nat.sub_self, List.take_zero, List.nil_append, ← set_eq_overwrite hdest]
        exact if_pos hdest
      · rw [Nat.add_sub_assoc (by omega), List.take_succ_cons, List.length_cons] at hdest
        have hstore : store? dest posn c = some (dest.set posn c) := if_pos (by omega)
        rw [List.cons_append, strcpyConstrained, if_neg (Ne.symm hnul.1), hstore,
          Nat.add_sub_assoc (by omega), List.take_succ_cons, List.cons_append,
          ← overwrite_set (by omega)]
        apply ih hnul.2 (by omega)
        rw [List.length_set, Nat.add_sub_cancel]
        omega

/-- A path is copied to another buffer. -/
theorem IsPath.strcpyConstrained_eq {dest buf : List Byte} {stack : List (List Byte)}
    (h : IsPath buf stack) (hdest : dest.length = CONFIG_PATH_MAX) :
  ∃ dest', strcpyConstrained dest 0 buf CONFIG_PATH_MAX = some dest' ∧ IsPath dest' stack
  := by
  obtain ⟨hlen, rest, hbuf⟩ := h.holds
  have htake : (render (chr '/') stack).take (CONFIG_PATH_MAX - 1) = render (chr '/') stack :=
    List.take_of_length_le (by omega)
  refine ⟨overwrite dest 0 (render (chr '/') stack ++ [0]), ?_, ?_⟩
  · rw [hbuf, Fs.strcpyConstrained_eq h.zero_notMem_render (by decide), htake]
    rw [htake]
    omega
  · refine ⟨?_, ⟨hlen, dest.drop ((render (chr '/') stack).length + 1), ?_⟩, h.normal, h.zero_notMem⟩
    · rw [length_overwrite, hdest]
      rw [List.length_append, List.length_singleton]
      omega
    · simp [overwrite]

/-- A path is copied to a buffer of any size. -/
theorem IsPath.strcpyConstrained_take {dest buf : List Byte} {stack : List (List Byte)} {max : ℕ}
    (h : IsPath buf stack) (hmax : 0 < max) (hdest : max ≤ dest.length) :
  ∃ dest', strcpyConstrained dest 0 buf max = some dest'
    ∧ cString dest' = (cString buf).take (max - 1)
  := by
  obtain ⟨-, rest, hbuf⟩ := h.holds
  have hlen : ((render (chr '/') stack).take (max - 1)).length ≤ max - 1 := List.length_take_le _ _
  refine ⟨overwrite dest 0 ((render (chr '/') stack).take (max - 1) ++ [0]), ?_, ?_⟩
  · rw [hbuf]
    apply Fs.strcpyConstrained_eq h.zero_notMem_render hmax
    omega
  · have hzero : 0 ∉ (render (chr '/') stack).take (max - 1) := by
      intro hmem
      apply h.zero_notMem_render (List.mem_of_mem_take hmem)
    rw [h.cString_eq, overwrite, List.take_zero, List.nil_append, List.append_assoc,
      List.singleton_append, cString_append hzero]

/-! ### Walks -/

/-- The part of the absolute path of the components `stack` that `inode_lookup` walks along. -/
def walkPath (stack : List (List Byte)) : List Byte := [chr '/'].intercalate stack

/-- The first component of a path, and the rest. -/
theorem walkPath_cons (c : List Byte) (stack : List (List Byte)) :
  ∃ rest, walkPath (c :: stack) = c ++ rest ∧ rest.head?.getD (chr '/') = chr '/'
    ∧ (rest = [] ↔ stack = []) ∧ rest.drop 1 = walkPath stack
  := by
  cases stack with
  | nil => exact ⟨[], by simp [walkPath], rfl, by simp, rfl⟩
  | cons c' stack =>
      refine ⟨chr '/' :: walkPath (c' :: stack), ?_, rfl, by simp, rfl⟩
      rw [walkPath, List.intercalate_cons_cons, List.append_assoc]
      rfl

theorem render_eq_cons (stack : List (List Byte)) :
  render (chr '/') stack = chr '/' :: walkPath stack
  := rfl

section Walk

variable {σ : Type} {s s' : FileSystem σ} {node dir : BufId} {path name : List Byte}
  {stack : List (List Byte)} {held infos : List BufId} {q : Policy}

/-- The first component of a path, as `inode_lookup` reads it. -/
theorem nameLen_walkPath {c : List Byte} (hc : Normal (chr '/') (chr '.') c) (hzero : 0 ∉ c)
    (hlen : c.length ≤ CONFIG_PATH_MAX) (stack : List (List Byte)) :
  (walkPath (c :: stack)).take (nameLen (walkPath (c :: stack))) = c
    ∧ ((walkPath (c :: stack)).drop (nameLen (walkPath (c :: stack))) = [] ↔ stack = [])
    ∧ (walkPath (c :: stack)).drop (nameLen (walkPath (c :: stack)) + 1) = walkPath stack
  := by
  obtain ⟨rest, happend, hhead, hnil, hdrop⟩ := walkPath_cons c stack
  have hname : nameLen (c ++ rest) = c.length :=
    strlenPathComponent_append hc.sep_notMem hzero hhead hlen
  rw [happend, hname]
  refine ⟨by simp, by simpa using hnil, ?_⟩
  rw [List.drop_length_add_append, hdrop]

theorem walkPath_ne_nil {c : List Byte} (hc : c ≠ []) (stack : List (List Byte)) :
  walkPath (c :: stack) ≠ []
  := by
  obtain ⟨rest, happend, -⟩ := walkPath_cons c stack
  simp [happend, hc]

/-- The last component of a walk is one of the components of the path. -/
theorem Parent.mem_stack (hp : Parent s node path dir name) (hpath : path = walkPath stack)
    (hlen : path.length ≤ CONFIG_PATH_MAX) (hnormal : ∀ c ∈ stack, Normal (chr '/') (chr '.') c)
    (hzero : ∀ c ∈ stack, 0 ∉ c) :
  name ∈ stack
  := by
  have hfirst {c : List Byte} {cs : List (List Byte)}
      (h : (walkPath (c :: cs)).length ≤ CONFIG_PATH_MAX) : c.length ≤ CONFIG_PATH_MAX := by
    obtain ⟨rest, happend, -⟩ := walkPath_cons c cs
    rw [happend, List.length_append] at h
    omega
  induction hp generalizing stack with
  | last hne hlast hsearch =>
      subst hpath
      cases stack with
      | nil => contradiction
      | cons c cs =>
          rw [List.forall_mem_cons] at hnormal hzero
          rw [(nameLen_walkPath hnormal.1 hzero.1 (hfirst hlen) cs).1]
          apply List.mem_cons_self
  | next hne hnext hsearch hentry hrest ih =>
      subst hpath
      cases stack with
      | nil => contradiction
      | cons c cs =>
          rw [List.forall_mem_cons] at hnormal hzero
          obtain ⟨-, -, hdrop⟩ := nameLen_walkPath hnormal.1 hzero.1 (hfirst hlen) cs
          apply List.mem_cons_of_mem
          apply ih hdrop _ hnormal.2 hzero.2
          rw [List.length_drop]
          omega

/-! ### Creating the node of a path -/

/-- The walk along `path` does not end at a mount point. -/
def Unmounted (s : FileSystem σ) (path : List Byte) : Prop :=
  ∀ dir name i, Parent s s.root path dir name → s.buf dir = .inode i → isMounted i.mode = false

/-- What holds of the nodes that a lookup may create. -/
structure MayCreate (q : Policy) (s : FileSystem σ) (path : List Byte) (mode : Word) : Prop where
  modeOk : ModeOk q mode
  unmounted : q.distinct → Unmounted s path

/-- A lookup leads from a file system at rest to another, with a reference to the inode that it
returns. -/
theorem Looked.fsOk {oflag mode : Word} {r : Int × Option BufId} {temp : List Byte}
    (h : Looked true oflag mode s s.root (walkPath stack) r s') (hs : FsOk q s held infos)
    (htemp : IsPath temp stack)
    (hcreate : oflag &&& O_CREAT ≠ 0 → MayCreate q s (walkPath stack) mode) :
  FsOk q s' (r.2.toList ++ held) infos
  := by
  cases h with
  | failed _ h => exact hs.trans h
  | found _ _ _ h => exact hs.trans h
  | checked hw => cases hw
  | created dir d c name _ hcreat hp hv _ h =>
      obtain ⟨hmode, hunmounted⟩ := hcreate hcreat
      have hlen : (walkPath stack).length ≤ CONFIG_PATH_MAX := by
        have hlt := htemp.holds.1
        rw [render_eq_cons, List.length_cons] at hlt
        exact Nat.le_of_succ_le hlt.le
      have hmem := hp.mem_stack rfl hlen htemp.normal htemp.zero_notMem
      have hname : NameOk name := ⟨htemp.normal name hmem, htemp.zero_notMem name hmem, h.name_le⟩
      apply hs.created h hname hmode
      intro hq
      obtain ⟨i, l, hi, hop, hdir, -⟩ := h.buf_eq
      exact Created.name_notMem ⟨hi, hop, hdir, hunmounted hq dir name i hp hi⟩ hv
  | made _ _ _ _ hw => cases hw

end Walk

end Mosnix.Fs
