import Mosnix.Fs.Kept
import Mosnix.Os.Open

/-!
# Looking up the inode of a path

The function `inode_lookup_path` resolves a path in the working directory of the current process,
by way of the buffer `temp_path`, and looks up the inode of the absolute path.
-/

namespace Mosnix.Os

open Fat Fs Path Program

variable {σ : Type} {sd : SdDriver σ} {k k' : Kernel σ} {s s' : FileSystem σ} {p : Proc}
  {stack : List (List Byte)} {wanted : Bool} {oflag mode : Word} {pathname : Option CStr}
  {r : Int × Option BufId} {q : Policy} {held infos : List BufId}

/-- What `inode_lookup_path` does in the working directory `stack`: it fails and changes nothing, or
it does what the lookup of the absolute path does. -/
inductive PathLooked (sd : SdDriver σ) (wanted : Bool) (oflag mode : Word) (k : Kernel σ)
    (stack : List (List Byte)) (pathname : Option CStr) :
    Int × Option BufId → Kernel σ → Prop where
  | failed {e : Int} {fs : FileSystem σ} {temp : List Byte} (he : e < 0)
      (htemp : temp.length = CONFIG_PATH_MAX) (h : Extends k.fs fs [] []) :
      PathLooked sd wanted oflag mode k stack pathname (e, none)
        { k with fs := fs, tempPath := temp }
  | looked {e : Int} {out : Option BufId} {fs : FileSystem σ} {temp : List Byte} (c : CStr)
      (hc : pathname = some c) (he : 0 ≤ e) (htemp : IsPath temp (absPath stack c.chars))
      (heq : inodeLookup sd wanted (render (chr '/') (absPath stack c.chars)) oflag mode k.fs
        = some ((e, out), fs)) :
      PathLooked sd wanted oflag mode k stack pathname (0, out)
        { k with fs := fs, tempPath := temp }

/-- A lookup of an absolute path. -/
theorem looked_of_eq (hs : WellFormed s)
    (heq : inodeLookup sd wanted (render (chr '/') stack) oflag mode s = some (r, s')) :
  Looked wanted oflag mode s s.root (walkPath stack) r s'
  :=
  (inodeLookup_ends hs).ensures.of_eq heq

/-- A path is resolved from the working directory to the buffer `temp_path`. -/
theorem pathToTempPath_ends (hp : k.processTable k.current = some p) (hcwd : IsPath p.cwd stack)
    (htemp : k.tempPath.length = CONFIG_PATH_MAX) (pathname : Option CStr) :
  Ends (pathToTempPath pathname) k fun r k' => ∃ temp, k' = { k with tempPath := temp }
    ∧ temp.length = CONFIG_PATH_MAX
    ∧ (0 ≤ r → ∃ c, pathname = some c ∧ IsPath temp (absPath stack c.chars))
    ∧ ∀ c, pathname = some c → (0 ≤ r ↔ Accepted CONFIG_PATH_MAX stack c.chars)
  := by
  apply Ends.bind_of_eq (currentProc_eq hp)
  apply Ends.bind_of_eq getKernel_eq
  cases pathname with
  | none =>
      apply Ends.bind_of_eq rfl
      apply Ends.pure
      exact ⟨k.tempPath, rfl, htemp, by simp [EFAULT], by simp⟩
  | some c =>
      obtain ⟨r, temp, heq, hlen, hpath, haccepted⟩ := hcwd.inodePathToAbs_eq htemp c.zero_notMem
      rw [Option.map_some, heq]
      apply Ends.bind_of_eq rfl
      apply Ends.pure
      refine ⟨temp, rfl, hlen, fun hr => ⟨c, rfl, hpath hr⟩, ?_⟩
      rintro _ ⟨rfl⟩
      apply haccepted

/-- `inode_lookup_path` -/
theorem inodeLookupPath_ends (hp : k.processTable k.current = some p) (hcwd : IsPath p.cwd stack)
    (htemp : k.tempPath.length = CONFIG_PATH_MAX) (hs : WellFormed k.fs) :
  Ends (inodeLookupPath sd wanted pathname oflag mode) k
    (PathLooked sd wanted oflag mode k stack pathname)
  := by
  apply Ends.bind (pathToTempPath_ends hp hcwd htemp pathname)
  rintro r _ ⟨temp, rfl, hlen, hpath, -⟩
  split_ifs with hr
  · apply Ends.pure
    have hrefl : Extends k.fs k.fs [] [] := Extends.refl hs
    exact PathLooked.failed hr hlen hrefl
  · obtain ⟨c, rfl, htemp'⟩ := hpath (by omega)
    have hends : Ends (inodeLookup sd wanted (render (chr '/') (absPath stack c.chars)) oflag mode)
        k.fs _ := inodeLookup_ends hs
    obtain ⟨⟨e, out⟩, fs, heq, hlooked⟩ := hends
    apply Ends.bind_of_eq getKernel_eq
    rw [show cString temp = _ from htemp'.cString_eq]
    refine Ends.bind_of_eq (onFs_eq heq) ?_
    dsimp only
    split_ifs with he
    · apply Ends.pure
      cases hlooked with
      | failed _ h => exact PathLooked.failed he hlen h
      | _ => omega
    · apply Ends.pure
      exact PathLooked.looked c rfl (by omega) htemp' heq

namespace PathLooked

/-- A lookup changes the file system and the buffer `temp_path` only. -/
theorem exists_eq (h : PathLooked sd wanted oflag mode k stack pathname r k') :
  ∃ fs temp, k' = { k with fs := fs, tempPath := temp } ∧ temp.length = CONFIG_PATH_MAX
  := by
  cases h with
  | failed _ htemp _ => exact ⟨_, _, rfl, htemp⟩
  | looked _ _ _ htemp _ => exact ⟨_, _, rfl, htemp.length_eq⟩

variable (h : PathLooked sd true oflag mode k stack pathname r k')

include h

/-- A lookup leads from a file system at rest to another, with a reference to the inode that it
returns. -/
theorem fsOk (hs : FsOk q k.fs held infos)
    (hcreate : oflag &&& O_CREAT ≠ 0 → ∀ c, pathname = some c →
      MayCreate q k.fs (walkPath (absPath stack c.chars)) mode) :
  FsOk q k'.fs (r.2.toList ++ held) infos
  := by
  cases h with
  | failed _ _ h => exact hs.trans h
  | looked c hc _ htemp heq =>
      apply (looked_of_eq hs.wellFormed heq).fsOk hs htemp
      intro ho
      apply hcreate ho c hc

/-- A lookup fails and changes nothing, or returns an inode, to which it adds a reference, or which it
creates. -/
theorem outcome (hs : WellFormed k.fs) :
  r.1 < 0 ∧ r.2 = none ∧ Extends k.fs k'.fs [] []
    ∨ r.1 = 0 ∧ ∃ b, r.2 = some b ∧ (Extends k.fs k'.fs [b] []
      ∨ oflag &&& O_CREAT ≠ 0 ∧ ∃ dir name child d, Created k.fs k'.fs dir name child d b)
  := by
  cases h with
  | failed he _ h =>
      left
      exact ⟨he, rfl, h⟩
  | looked c hc he htemp heq =>
      right
      cases looked_of_eq hs heq with
      | failed he' _ => omega
      | found _ _ _ h => exact ⟨rfl, _, rfl, Or.inl h⟩
      | checked hw _ => cases hw
      | created dir d b name _ hcreat _ _ _ h =>
          exact ⟨rfl, b, rfl, Or.inr ⟨hcreat, dir, name, _, d, h⟩⟩
      | made _ _ _ _ hw => cases hw

omit h in
/-- A lookup with the flags `O_CREAT` and `O_EXCL` creates a node, or fails. -/
theorem created (h : PathLooked sd true (O_CREAT ||| O_EXCL) mode k stack pathname r k')
    (hs : WellFormed k.fs) :
  r.1 < 0 ∧ Extends k.fs k'.fs [] []
    ∨ r.1 = 0 ∧ ∃ c dir name d b, pathname = some c ∧ r.2 = some b
      ∧ Parent k.fs k.fs.root (walkPath (absPath stack c.chars)) dir name ∧ Vacant k.fs dir name
      ∧ Created k.fs k'.fs dir name (newInode mode 2) d b
  := by
  cases h with
  | failed he _ h =>
      left
      exact ⟨he, h⟩
  | looked c hc he htemp heq =>
      right
      cases looked_of_eq hs heq with
      | failed he' _ => omega
      | found _ _ hpass _ => cases hpass.not_excl (by decide)
      | checked hw _ => cases hw
      | created dir d b name _ _ hparent hv _ h =>
          exact ⟨rfl, c, dir, name, d, b, hc, rfl, hparent, hv, h⟩
      | made _ _ _ _ hw => cases hw

/-- A lookup keeps the names. -/
theorem kept (hs : FsOk q k.fs held infos) :
  Kept k.fs k'.fs
  := by
  have hrefl := Extends.refl hs.wellFormed
  cases h with
  | failed _ _ hext => exact hrefl.kept hext
  | looked c hc _ _ heq =>
      cases looked_of_eq hs.wellFormed heq with
      | failed _ hext => exact hrefl.kept hext
      | found _ _ _ hext => exact hrefl.kept hext
      | checked hwanted => cases hwanted
      | created _ _ _ _ _ _ _ _ _ hcreated =>
          exact hcreated.kept hs.wellFormed hs.apart ⟨rfl, by simp [newInode], rfl, rfl⟩
      | made _ _ _ _ hwanted => cases hwanted

end PathLooked

end Mosnix.Os
