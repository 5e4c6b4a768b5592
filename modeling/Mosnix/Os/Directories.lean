import Mosnix.Fs.Access
import Mosnix.Os.Steps

/-!
# Directories and paths

What the invariant of the kernel says about the working directories of the processes and about the
tree of the RAM file system, in every state of a run, and about the directories that `sys_mkdir`
creates.
-/

namespace Mosnix.Os

open Fat Fs Path Program

variable {σ : Type} {sd : SdDriver σ} {k k' : Kernel σ} {pid : ProcId} {p : Proc} {q : Policy}

/-- A policy that says nothing allows every action. -/
theorem allowed_anything (k : Kernel σ) (a : Action σ) : Allowed ⟨False, False⟩ k a := by
  unfold Allowed
  split
  · exact False.elim
  · exact False.elim
  · intro _
    exact ⟨id, False.elim⟩
  · trivial

theorem kernelOk_anything (hk : (kernel sd).Reachable (fun _ _ => True) k) :
  KernelOk ⟨False, False⟩ k
  := by
  have hallowed : (kernel sd).Reachable (Allowed ⟨False, False⟩) k := by
    apply hk.mono
    intro k a _
    apply allowed_anything k a
  apply kernelOk_of_reachable hallowed

/-! ### Working directories -/

/-- A lookup that finds a directory. -/
theorem exists_directory {s s' : FileSystem σ} {pathname : List Byte} (hs : WellFormed s)
    (heq : inodeLookup sd false pathname O_EXEC S_IFDIR s = some ((0, none), s')) :
  ∃ b i s₁, inodeLookup sd true pathname O_EXEC S_IFDIR s = some ((0, some b), s₁)
    ∧ s₁.buf b = .inode i ∧ S_ISDIR i.mode = true
  := by
  rw [inodeLookup_false] at heq
  have hends : Ends (inodeLookup sd true pathname O_EXEC S_IFDIR) s _ := inodeLookup_ends hs
  obtain ⟨⟨e, out⟩, s₁, heq₁, hlooked⟩ := hends
  change (inodeLookup sd true pathname O_EXEC S_IFDIR s).bind (fun r => dropInode r.1 r.2) = _ at heq
  rw [heq₁] at heq
  cases hlooked with
  | failed he _ =>
      cases heq
      cases he
  | found _ hi hpass _ =>
      refine ⟨_, _, s₁, heq₁, hi, ?_⟩
      rw [S_ISDIR, type_eq_iff.mp hpass.type_eq]
      rfl
  | checked hw => cases hw
  | created _ _ _ _ _ hcreat => cases hcreat (by decide)
  | made _ _ _ _ hw => cases hw

/-- The working directory of every process is a normalised absolute path, in every state of the
kernel.  A call of `sys_chdir` that fails leaves it as it is.  A call that succeeds sets it to the
absolute path of the argument, which a lookup finds to be that of a directory. -/
theorem cwd_of_reachable (hk : (kernel sd).Reachable (fun _ _ => True) k)
    (hp : k.processTable pid = some p) :
  ∃ stack, IsPath p.cwd stack
    ∧ ∀ path, ∃ r k', sysChdir sd path { k with current := pid } = some (r, k')
      ∧ (r < 0 → k'.processTable = k.processTable)
      ∧ (0 ≤ r → ∃ c cwd b i s', path = some c ∧ IsPath cwd (absPath stack c.chars)
        ∧ k'.processTable = Function.update k.processTable pid (some { p with cwd := cwd })
        ∧ inodeLookup sd true (cString cwd) O_EXEC S_IFDIR k.fs = some ((0, some b), s')
        ∧ s'.buf b = .inode i ∧ S_ISDIR i.mode = true)
  := by
  have h := (kernelOk_anything hk).setCurrent pid
  obtain ⟨stack, hcwd⟩ := h.cwds pid p hp
  refine ⟨stack, hcwd, ?_⟩
  intro path
  have hends : Ends (sysChdir sd path) { k with current := pid } _ := sysChdir_ends h hp hcwd
  obtain ⟨r, k', heq, -, -, ⟨hr, htable⟩ | ⟨rfl, c, cwd, s', hc, hcwd', hlookup, htable⟩⟩ := hends
  · exact ⟨r, k', heq, fun _ => htable, fun hr' => by omega⟩
  · refine ⟨0, k', heq, fun hr => absurd hr (by decide), fun _ => ?_⟩
    obtain ⟨b, i, s₁, hfound, hi, hdir⟩ := exists_directory h.files.fs.wellFormed hlookup
    rw [← hcwd'.cString_eq] at hfound
    exact ⟨c, cwd, b, i, s₁, hc, hcwd', htable, hfound, hi, hdir⟩

/-- The path `/`. -/
def slash : CStr := ⟨[chr '/'], by decide⟩

/-- The shell changes its working directory to the root. -/
theorem cwd_of_reachable_shell :
  (kernel noCard).Reachable (fun _ _ => True) bootKernel ∧ bootKernel.processTable 0 = some shell
    ∧ ∃ stack k' cwd, IsPath shell.cwd stack
      ∧ sysChdir noCard (some slash) { bootKernel with current := 0 } = some (0, k')
      ∧ k'.processTable 0 = some { shell with cwd := cwd } ∧ cString cwd = [chr '/']
  := by
  have hk : (kernel noCard).Reachable (fun _ _ => True) bootKernel := .start bootKernel_start
  have hshell := booted_bootKernel.shell_eq
  obtain ⟨stack, hcwd, hchdir⟩ := cwd_of_reachable hk hshell
  obtain ⟨r, k', heq, -, hset⟩ := hchdir (some slash)
  have hr : (sysChdir noCard (some slash) { bootKernel with current := 0 }).map Prod.fst = some 0 := by
    decide +kernel
  rw [heq] at hr
  cases hr
  obtain ⟨c, cwd, b, i, s', hc, hcwd', htable, -⟩ := hset le_rfl
  cases hc
  refine ⟨hk, hshell, stack, k', cwd, hcwd, heq, ?_, hcwd'.cString_eq⟩
  rw [htable, Function.update_self]

/-! ### Reading and setting the working directory -/

section RoundTrip

variable {stack : List (List Byte)} {dirs : List BufId} {b : BufId} {i : Inode} {held infos : List BufId}

/-- The string that a buffer holds. -/
def bufString (buf : List Byte) : CStr := ⟨cString buf, zero_notMem_cString buf⟩

/-- If `sys_getcwd` returns 0 to the current process `p` then the buffer holds the working directory,
and a call of `sys_chdir` with it returns 0 and leaves the working directory as it is. -/
def RoundTrip (sd : SdDriver σ) (k : Kernel σ) (p : Proc) (buf : List Byte) (n : Word) : Prop :=
  Ends (sysGetcwd (some buf) n false) k fun r k₁ => r.1 = 0 →
    ∃ out, r.2 = some out ∧ cString out = cString p.cwd
      ∧ Ends (sysChdir sd (some (bufString out))) k₁ fun r k₂ => r = 0
        ∧ ∃ p', k₂.processTable k₂.current = some p' ∧ cString p'.cwd = cString p.cwd

/-- `sys_getcwd` returns as much of the path as fits. -/
theorem sysGetcwd_ends (hp : k.processTable k.current = some p) (hcwd : IsPath p.cwd stack) {n : Word}
    (hn : n ≠ 0) {buf : List Byte} (hbuf : n.toNat ≤ buf.length) :
  ∃ out, sysGetcwd (some buf) n false k = some ((0, some out), k)
    ∧ cString out = (cString p.cwd).take (n.toNat - 1)
  := by
  have hpos : 0 < n.toNat := by
    have hne : n.toNat ≠ 0 := fun h => hn (BitVec.eq_of_toNat_eq h)
    omega
  obtain ⟨out, hcopy, hout⟩ := hcwd.strcpyConstrained_take hpos hbuf
  refine ⟨out, ?_, hout⟩
  dsimp only [sysGetcwd]
  rw [if_neg (by simp), if_neg hn]
  apply (bind_eq (currentProc_eq hp)).trans
  rw [hcopy]
  rfl

/-- The absolute path of a directory of the RAM file system is looked up successfully if it has at most
62 characters, and the owner may search the directories along the path and the directory. -/
theorem inodeLookupPath_directory (hp : k.processTable k.current = some p)
    (hcwd : IsPath p.cwd stack) (htemp : k.tempPath.length = CONFIG_PATH_MAX)
    (hs : FsOk q k.fs held infos) (hwalk : Walk k.fs k.fs.root stack dirs b)
    (hi : k.fs.buf b = .inode i) (hdir : S_ISDIR i.mode = true) {c : CStr}
    (hc : c.chars = render (chr '/') stack) :
  Ends (inodeLookupPath sd false (some c) O_EXEC S_IFDIR) k fun r _ =>
    0 ≤ r.1 ↔ (render (chr '/') stack).length ≤ CONFIG_PATH_MAX - 2
      ∧ AccessPass k.fs dirs O_EXEC i
  := by
  have hsame : absPath stack c.chars = stack := by
    rw [hc]
    apply resolve_render hcwd.normal
  apply Ends.bind (pathToTempPath_ends hp hcwd htemp (some c))
  rintro r _ ⟨temp, rfl, -, hpath, haccepted⟩
  have hr := haccepted c rfl
  rw [hc, accepted_render hcwd.normal] at hr
  rw [← hr]
  split_ifs with hneg
  · apply Ends.pure
    constructor
    · intro hnonneg
      dsimp only at hnonneg
      omega
    · rintro ⟨hnonneg, -⟩
      omega
  · obtain ⟨c', hc', htemp'⟩ := hpath (by omega)
    cases hc'
    rw [hsame] at htemp'
    apply Ends.bind_of_eq getKernel_eq
    rw [show cString temp = _ from htemp'.cString_eq]
    have hends : Ends (inodeLookup sd false (render (chr '/') stack) O_EXEC S_IFDIR) k.fs _ :=
      hwalk.inodeLookup_result hs hi
    obtain ⟨⟨e, out⟩, fs, heq, hpass, hfail⟩ := hends
    have hcheck : checkResult O_EXEC S_IFDIR i = 0 := by
      have htype : ¬ ((S_IFDIR ^^^ i.mode) &&& S_IFMT ≠ 0) := by
        rw [not_not, type_eq_iff, ← beq_iff_eq]
        exact hdir
      rw [checkResult, if_neg htype, if_neg (by decide)]
    refine Ends.bind_of_eq (onFs_eq heq) ?_
    dsimp only at hpass hfail ⊢
    split_ifs with he
    · apply Ends.pure
      dsimp only
      constructor
      · intro hnonneg
        omega
      · rintro ⟨-, hp⟩
        have hzero := hpass hp
        omega
    · apply Ends.pure
      dsimp only
      refine ⟨fun _ => ⟨by omega, ?_⟩, fun _ => le_rfl⟩
      by_contra hno
      apply he
      rw [hfail hno]
      decide

/-- The checks along the path of a directory that is to be searched. -/
theorem accessPass_iff (hwalk : Walk k.fs k.fs.root stack dirs b) (hi : k.fs.buf b = .inode i) :
  AccessPass k.fs dirs O_EXEC i ↔ ∀ d ∈ dirs ++ [b], HasMode k.fs S_IXUSR d
  := by
  have hmode : HasMode k.fs S_IXUSR b ↔ i.mode &&& S_IXUSR ≠ 0 := by
    constructor
    · rintro ⟨j, hj, hmode⟩
      rw [hi] at hj
      cases hj
      apply hmode
    · intro hmode
      exact ⟨i, hi, hmode⟩
  have haccess : oflagToAccessMode O_EXEC = X_OK := by decide
  rw [AccessPass, hwalk.searchable_iff, haccess, inodeAccess_X_OK, List.forall_mem_append,
    List.forall_mem_singleton, hmode]

/-- A process changes to its own working directory. -/
theorem sysChdir_directory (h : KernelOk q k) (hp : k.processTable k.current = some p)
    (hcwd : IsPath p.cwd stack) (hwalk : Walk k.fs k.fs.root stack dirs b)
    (hi : k.fs.buf b = .inode i) (hdir : S_ISDIR i.mode = true) {c : CStr}
    (hc : c.chars = render (chr '/') stack) :
  Ends (sysChdir sd (some c)) k fun r k' =>
    (r = 0 ↔ (render (chr '/') stack).length ≤ CONFIG_PATH_MAX - 2
      ∧ ∀ d ∈ dirs ++ [b], HasMode k.fs S_IXUSR d)
    ∧ (r = 0 → ∃ p', k'.processTable k'.current = some p' ∧ IsPath p'.cwd stack)
  := by
  have hresult : Ensures (sysChdir sd (some c)) k fun r _ =>
      0 ≤ r ↔ (render (chr '/') stack).length ≤ CONFIG_PATH_MAX - 2
        ∧ AccessPass k.fs dirs O_EXEC i := by
    apply Ensures.bind
      (inodeLookupPath_directory hp hcwd h.tempPath h.files.fs hwalk hi hdir hc).ensures
    intro r k₁ hr
    dsimp only
    split_ifs
    · apply Ensures.bind currentProc_ensures
      rintro p₁ _ ⟨rfl, -⟩
      apply Ensures.bind_of_eq getKernel_eq
      split
      · apply Ensures.fault
      · apply Ensures.bind_of_eq setCurrentProc_eq
        apply Ensures.pure
        apply hr
    · apply Ensures.pure
      apply hr
  have hsame : absPath stack c.chars = stack := by
    rw [hc]
    apply resolve_render hcwd.normal
  apply ((sysChdir_ends h hp hcwd).and hresult).mono
  rintro r k' ⟨⟨-, hcurrent, hcases⟩, hr⟩
  rw [accessPass_iff hwalk hi] at hr
  rw [← hr]
  obtain ⟨hneg, -⟩ | ⟨rfl, c', cwd, s', hc', hcwd', -, htable⟩ := hcases
  · constructor
    · omega
    · omega
  · cases hc'
    rw [hsame] at hcwd'
    refine ⟨by simp, fun _ => ⟨{ p with cwd := cwd }, ?_, hcwd'⟩⟩
    rw [htable, hcurrent, Function.update_self]

end RoundTrip

/-- In every state in which the working directory of a process is a directory of the RAM file system, the
process can read it and change to it again if and only if it is shorter than the buffer, it has at most
62 characters, and the owner may search the directories along the path and the directory itself. -/
theorem getcwd_chdir_iff (hk : (kernel sd).Reachable (fun _ _ => True) k)
    (hp : k.processTable pid = some p) {stack : List (List Byte)} (hcwd : IsPath p.cwd stack)
    {dirs : List BufId} {b : BufId} {i : Inode} (hwalk : Walk k.fs k.fs.root stack dirs b)
    (hi : k.fs.buf b = .inode i) (hdir : S_ISDIR i.mode = true) {n : Word} (hn : n ≠ 0)
    {buf : List Byte} (hbuf : n.toNat ≤ buf.length) :
  RoundTrip sd { k with current := pid } p buf n
    ↔ (cString p.cwd).length < n.toNat ∧ (cString p.cwd).length ≤ CONFIG_PATH_MAX - 2
      ∧ ∀ d ∈ dirs ++ [b], HasMode k.fs S_IXUSR d
  := by
  have h := (kernelOk_anything hk).setCurrent pid
  have hpos : n.toNat ≠ 0 := fun h => hn (BitVec.eq_of_toNat_eq h)
  obtain ⟨out, hgetcwd, hout⟩ :=
    sysGetcwd_ends (k := { k with current := pid }) hp hcwd hn hbuf
  have hwhole : cString out = cString p.cwd ↔ (cString p.cwd).length < n.toNat := by
    rw [hout, List.take_eq_self_iff]
    omega
  have hchdir (heq : cString out = cString p.cwd) :
      Ends (sysChdir sd (some (bufString out))) { k with current := pid } _ :=
    sysChdir_directory h hp hcwd hwalk hi hdir (heq.trans hcwd.cString_eq)
  rw [← hwhole, hcwd.cString_eq]
  constructor
  · rintro ⟨r, k₁, hrun, hround⟩
    rw [hgetcwd] at hrun
    cases hrun
    obtain ⟨out', hout', heq, hends⟩ := hround rfl
    cases hout'
    obtain ⟨r, k₂, hrun₂, rfl, -⟩ := hends
    obtain ⟨hiff, -⟩ := (hchdir heq).ensures.of_eq hrun₂
    rw [← hcwd.cString_eq]
    rw [← hcwd.cString_eq] at hiff
    exact ⟨heq, hiff.mp rfl⟩
  · rintro ⟨heq, hlength, hmodes⟩
    rw [← hcwd.cString_eq] at heq
    refine ⟨_, _, hgetcwd, fun _ => ⟨out, rfl, heq, ?_⟩⟩
    apply (hchdir heq).mono
    rintro r k₂ ⟨hiff, hset⟩
    have hr := hiff.mpr ⟨hlength, hmodes⟩
    obtain ⟨p', hp', hcwd'⟩ := hset hr
    exact ⟨hr, p', hp', by rw [hcwd'.cString_eq, hcwd.cString_eq]⟩

/-- The shell after it changes its working directory to the root. -/
theorem exists_shell_root :
  ∃ k p, (kernel noCard).Reachable (fun _ _ => True) k ∧ k.processTable 0 = some p
    ∧ IsPath p.cwd [] ∧ k.fs.buf k.fs.root = .inode { op := .ramfs, count := 3, mode := rootMode }
  := by
  have hrun : (runCalls noCard 0 [.chdir (some slash)] bootKernel).map (fun x =>
      ((x.2.processTable 0).map fun p => p.cwd, x.2.fs.buf x.2.fs.root))
        = some (some (chr '/' :: 0 :: rootCwd.drop 2),
          .inode { op := .ramfs, count := 3, mode := rootMode }) := by
    decide +kernel
  obtain ⟨⟨rs, k⟩, heq, hk'⟩ := Option.map_eq_some_iff.mp hrun
  obtain ⟨hcwd, hroot⟩ := Prod.ext_iff.mp hk'
  obtain ⟨p, hp, hcwd⟩ := Option.map_eq_some_iff.mp hcwd
  have hk := reachable_of_runCalls heq (by simp)
  refine ⟨k, p, hk, hp, ?_, hroot⟩
  rw [hcwd]
  exact ⟨by decide, ⟨by decide, rootCwd.drop 2, rfl⟩, by simp, by simp⟩

/-- The shell reads its working directory `/` to a buffer of one byte: it is cut off. -/
theorem getcwd_chdir_cut :
  ∃ k p, (kernel noCard).Reachable (fun _ _ => True) k ∧ k.processTable 0 = some p
    ∧ cString p.cwd = [chr '/'] ∧ Walk k.fs k.fs.root [] [] k.fs.root
    ∧ (∃ k', sysGetcwd (some [0]) 1 false { k with current := 0 } = some ((0, some [0]), k'))
    ∧ ¬ RoundTrip noCard { k with current := 0 } p [0] 1
  := by
  obtain ⟨k, p, hk, hp, hcwd, -⟩ := exists_shell_root
  have hstring : cString p.cwd = [chr '/'] := hcwd.cString_eq
  have hgetcwd : sysGetcwd (some [0]) 1 false { k with current := 0 }
      = some ((0, some [0]), { k with current := 0 }) := by
    apply (bind_eq (currentProc_eq hp)).trans
    obtain ⟨-, rest, hbuf⟩ := hcwd.holds
    rw [hbuf]
    rfl
  refine ⟨k, p, hk, hp, hstring, Walk.nil _, ⟨_, hgetcwd⟩, ?_⟩
  rintro ⟨r, k', hrun, hround⟩
  rw [hgetcwd] at hrun
  cases hrun
  obtain ⟨out, hout, heq, -⟩ := hround rfl
  cases hout
  rw [hstring] at heq
  exact absurd heq (by decide)

/-- A buffer of two bytes is large enough. -/
theorem getcwd_chdir_slash :
  ∃ k p, (kernel noCard).Reachable (fun _ _ => True) k ∧ k.processTable 0 = some p
    ∧ RoundTrip noCard { k with current := 0 } p [0, 0] 2
  := by
  obtain ⟨k, p, hk, hp, hcwd, hroot⟩ := exists_shell_root
  refine ⟨k, p, hk, hp, ?_⟩
  apply (getcwd_chdir_iff hk hp hcwd (Walk.nil _) hroot (by decide) (by decide) (by decide)).mpr
  rw [hcwd.cString_eq]
  refine ⟨by decide, by decide, ?_⟩
  intro d hd
  obtain rfl := List.mem_singleton.mp hd
  exact ⟨_, hroot, by decide⟩

/-! ### The tree of the RAM file system -/

/-- An action other than a call of `sys_open` that may create a node. -/
def NoCreat (a : Action σ) : Prop :=
  match a with
  | .call _ (.open _ flags _) => flags &&& O_CREAT = 0
  | _ => True

/-- The number of open files with the inode `b`. -/
def openFiles (k : Kernel σ) (b : BufId) : ℕ :=
  (Finset.univ.filter fun f => 0 < (k.globalFd f).count ∧ (k.globalFd f).inode = some b).card

/-- The references to an inode are the files that are open on it. -/
theorem count_inodes (k : Kernel σ) (b : BufId) :
  (inodes k.globalFd).count b = openFiles k b
  := by
  rw [inodes, Refs.count_held, Refs.refs, openFiles, Finset.card_filter]
  apply Finset.sum_congr rfl
  intro f _
  by_cases hpos : 0 < (k.globalFd f).count
  · simp [File.holds, hpos]
  · simp [File.holds, hpos]

/-- The RAM file system is a tree, in every state of a run in which nodes are created by `sys_mkdir`
and `sys_mknod` only.  Every inode of it is reached from the root, and each but the root is that of
exactly one directory entry.  The entries of a directory form a list without repetitions, every
entry is in a directory, and has a name.  The inodes count their references from the tree and from
open files, those of nodes other than directories are devices, and the mount points are the
directories with a mounted file system. -/
theorem ramTree_of_reachable (hk : (kernel sd).Reachable (fun _ a => NoCreat a) k) :
  (∃ L, Lists k.fs k.fs.root L) ∧ (∀ d, ¬ Names k.fs d k.fs.root)
    ∧ (∀ b i, k.fs.buf b = .inode i → i.op = .ramfs → Below k.fs b
      ∧ (b ≠ k.fs.root → ∃! d, Names k.fs d b)
      ∧ (S_ISDIR i.mode = true → ∃ L, Lists k.fs b L ∧ (L.map Prod.fst).Nodup)
      ∧ i.count = (if b = k.fs.root then 3 else 1) + openFiles k b
      ∧ (S_ISDIR i.mode = true ∨ S_ISCHR i.mode = true ∨ S_ISBLK i.mode = true)
      ∧ (i.mode &&& S_ISVTX ≠ 0 ↔ S_ISDIR i.mode = true ∧ i.ramfsMount ≠ none))
    ∧ ∀ d e, k.fs.buf d = .dirent e → NameOk e.name
      ∧ ∃ dir L, Lists k.fs dir L ∧ (d, e.name, e.inode) ∈ L
  := by
  have hallowed : (kernel sd).Reachable (Allowed ⟨False, True⟩) k := by
    apply hk.mono
    intro k a ha
    unfold Allowed
    split
    · exact False.elim
    · exact False.elim
    · intro ho
      contradiction
    · trivial
  have h := (kernelOk_of_reachable hallowed).files.fs
  have htree := h.tree
  refine ⟨htree.root_dir, fun d => htree.not_names_root, ?_, ?_⟩
  · intro b i hi hop
    have hnode := h.node hi hop
    have hcount := hnode.count_eq
    rw [count_inodes] at hcount
    refine ⟨htree.below b ⟨i, hi, hop⟩, htree.existsUnique_names ⟨i, hi, hop⟩, ?_, ?_, ?_, ?_⟩
    · intro hdir
      obtain ⟨L, hL⟩ := h.wellFormed.exists_lists hi hop hdir
      exact ⟨L, hL, hL.nodup⟩
    · rw [← hcount]
      ring
    · obtain hdir | hchr | hblk | ⟨hq, -⟩ := hnode.typed
      · exact Or.inl hdir
      · exact Or.inr (Or.inl hchr)
      · exact Or.inr (Or.inr hblk)
      · cases hq trivial
    · rw [← hnode.mounted_iff, isMounted, bne_iff_ne]
  · intro d e he
    obtain ⟨dir, L, hL, hmem⟩ := htree.exists_lists he
    exact ⟨htree.names dir L _ hL hmem, dir, L, hL, hmem⟩

/-- The path `/m`. -/
def slashM : CStr := ⟨[chr '/', chr 'm'], by decide⟩

/-- The directory `/m` is created, and opened. -/
theorem ramTree_of_reachable_opendir :
  ∃ k, (kernel noCard).Reachable (fun _ a => NoCreat a) k
    ∧ ∃ b i, k.fs.buf b = .inode i ∧ b ≠ k.fs.root ∧ i.count = 2 ∧ openFiles k b = 1
      ∧ ∃! d, Names k.fs d b
  := by
  let cs : List Syscall := [.mkdir (some slashM) 0x1FF, .opendir (some slashM)]
  have hrun : (runCalls noCard 0 cs bootKernel).map
      (fun x => (x.2.fs.buf 97, x.2.fs.root))
        = some (.inode { op := .ramfs, count := 2, mode := 0x41ED }, bootRoot) := by
    decide +kernel
  obtain ⟨⟨rs, k⟩, heq, hk'⟩ := Option.map_eq_some_iff.mp hrun
  obtain ⟨hbuf, hroot⟩ := Prod.ext_iff.mp hk'
  dsimp only at hbuf hroot
  have hk : (kernel noCard).Reachable (fun _ a => NoCreat a) k := by
    apply (runCalls_reachable (.start bootKernel_start) _ _).of_eq heq
    · simp [cs, NoCreat]
    · simp [cs]
  have hne : (97 : BufId) ≠ k.fs.root := by
    rw [hroot]
    decide
  obtain ⟨-, -, hinode, -⟩ := ramTree_of_reachable hk
  obtain ⟨-, hunique, -, hcount, -, -⟩ := hinode 97 _ hbuf rfl
  rw [if_neg hne] at hcount
  refine ⟨k, hk, 97, _, hbuf, hne, rfl, ?_, hunique hne⟩
  dsimp only at hcount
  omega

/-! ### Creating directories -/

/-- The mode of a new directory lets the owner search it, unless the argument or the mask of the
process does not. -/
theorem mkdirMode_and_S_IXUSR {umask mode : Word} (hmode : mode &&& S_IXUSR ≠ 0)
    (humask : umask &&& S_IXUSR = 0) :
  mkdirMode umask mode &&& S_IXUSR ≠ 0
  := by
  rw [and_S_IXUSR] at hmode ⊢
  have humask' : (ownerBits umask).getLsbD 0 = false := by
    rw [← Bool.not_eq_true, ← and_S_IXUSR]
    simpa using humask
  simp only [ownerBits, mkdirMode, BitVec.getLsbD_extractLsb', BitVec.getLsbD_or, BitVec.getLsbD_and,
    BitVec.getLsbD_not] at hmode humask' ⊢
  simp at hmode humask' ⊢
  simp [hmode, humask']

/-- No directory has two entries with the same name, in every state of a run in which nodes are not
created in the directories that are mount points.  A directory that `sys_mkdir` has created is found
by a lookup of its absolute path, and is not created again. -/
theorem mkdir_of_reachable (hk : (kernel sd).Reachable (Allowed ⟨True, False⟩) k) :
  Distinct k.fs
    ∧ ∀ pid p path mode k', k.processTable pid = some p → PathUnmounted k pid path →
      mode &&& S_IXUSR ≠ 0 → p.umask &&& S_IXUSR = 0 →
      sysMkdir sd path mode { k with current := pid } = some (0, k') →
      Distinct k'.fs
        ∧ (∃ stack c b i s', IsPath p.cwd stack ∧ path = some c
          ∧ inodeLookup sd true (render (chr '/') (absPath stack c.chars)) O_EXEC S_IFDIR k'.fs
            = some ((0, some b), s')
          ∧ s'.buf b = .inode i ∧ i.mode = mkdirMode p.umask mode)
        ∧ ∀ mode', ∃ r k'', sysMkdir sd path mode' k' = some (r, k'') ∧ r < 0
          ∧ Unchanged k'.fs k''.fs
  := by
  have h := kernelOk_of_reachable hk
  refine ⟨h.files.fs.distinct trivial, ?_⟩
  intro pid p path mode k' hp hpath hmode humask heq
  obtain ⟨stack, hcwd⟩ := h.cwds pid p hp
  have hends : Ends (sysMkdir sd path mode) { k with current := pid } _ :=
    sysMkdir_ends (h.setCurrent pid) hp hcwd fun _ => hpath
  obtain ⟨⟨h', -⟩, htable, hcurrent, ⟨hr, -⟩ | ⟨-, c, dir, name, d, b, rfl, hparent, hv, hc⟩⟩ :=
    hends.ensures.of_eq heq
  · omega
  have hs' := h'.files.fs.wellFormed
  obtain ⟨i, -, hi, hop, hdir, -⟩ := hc.buf_eq
  have hram : RamDir k.fs dir i := ⟨hi, hop, hdir, hpath p stack c hp hcwd rfl dir name i hparent hi⟩
  have hentry := hc.entry_new h.files.fs.wellFormed hram hv
  have hparent' := hc.parent h.files.fs.apart hparent
  rw [← hc.root_eq] at hparent'
  refine ⟨h'.files.fs.distinct trivial, ?_, ?_⟩
  · obtain ⟨i', s', heq', hi', hmode'⟩ := hparent'.inodeLookup_directory hs' hentry hc.buf_child
      (S_ISDIR_mkdirMode p.umask mode) (mkdirMode_and_S_IXUSR hmode humask)
    exact ⟨stack, c, b, i', s', hcwd, rfl, heq', hi', hmode'⟩
  · intro mode'
    have hp' : k'.processTable k'.current = some p := by
      rw [htable, hcurrent]
      apply hp
    have hweak : KernelOk ⟨False, False⟩ k' := h'.mono False.elim False.elim
    have hends' : Ends (sysMkdir sd (some c) mode') k' _ := sysMkdir_ends hweak hp' hcwd False.elim
    obtain ⟨r, k'', heq', -, -, -, ⟨hr, hext⟩ | ⟨-, c', dir', name', -, -, hc', hp₁, hv₁, -⟩⟩ := hends'
    · exact ⟨r, k'', heq', hr, hext.unchanged hs'⟩
    · cases hc'
      obtain ⟨rfl, rfl⟩ := hparent'.unique hp₁
      cases hentry.not_vacant hv₁

/-- The path `/m/x`. -/
def slashMX : CStr := ⟨[chr '/', chr 'm', chr '/', chr 'x'], by decide⟩

/-- The calls that create the directory `/m`, and mount the SD card there. -/
def mountM : List Syscall :=
  [.mkdir (some slashM) 0x1FF,
    .mount (some ⟨devMmcblk0, by decide⟩) (some slashM) (some ⟨vfat, by decide⟩) 0]

/-- Without a card, the directory `/m/x` is not found after it was created, and is created twice. -/
theorem mkdir_of_reachable_mounted :
  (∃ k r s',
      runCalls noCard 0 (mountM ++ [.mkdir (some slashMX) 0x1FF]) bootKernel = some ([0, 1, 0], k)
        ∧ inodeLookup noCard true slashMX.chars O_EXEC S_IFDIR k.fs = some ((r, none), s') ∧ r < 0)
    ∧ ∃ k, runCalls noCard 0
        (mountM ++ [.mkdir (some slashMX) 0x1FF, .mkdir (some slashMX) 0x1FF]) bootKernel
        = some ([0, 1, 0, 0], k)
      ∧ (kernel noCard).Reachable (fun _ _ => True) k ∧ ¬ Distinct k.fs
  := by
  constructor
  · have hrun : (runCalls noCard 0 (mountM ++ [.mkdir (some slashMX) 0x1FF]) bootKernel).map
        (fun x => (x.1, (inodeLookup noCard true slashMX.chars O_EXEC S_IFDIR x.2.fs).map Prod.fst))
          = some ([0, 1, 0], some (-ENOENT, none)) := by
      decide +kernel
    obtain ⟨⟨rs, k⟩, heq, hx⟩ := Option.map_eq_some_iff.mp hrun
    obtain ⟨rfl, hlookup⟩ := Prod.ext_iff.mp hx
    obtain ⟨⟨r, s'⟩, heq', rfl⟩ := Option.map_eq_some_iff.mp hlookup
    exact ⟨k, -ENOENT, s', heq, heq', by decide⟩
  · let m : Inode :=
      { newInode 0x43ED 1 with ramfsDir := some 94, ramfsMount := some 96 }
    let x₁ : RamfsDirent := ⟨[chr 'x'], some 93, some 92⟩
    let x₂ : RamfsDirent := ⟨[chr 'x'], some 91, none⟩
    have hrun : (runCalls noCard 0
        (mountM ++ [.mkdir (some slashMX) 0x1FF, .mkdir (some slashMX) 0x1FF]) bootKernel).map
        (fun x => (x.1, x.2.fs.buf 97, x.2.fs.buf 94, x.2.fs.buf 92))
          = some ([0, 1, 0, 0], .inode m, .dirent x₁, .dirent x₂) := by
      decide +kernel
    obtain ⟨⟨rs, k⟩, heq, hx⟩ := Option.map_eq_some_iff.mp hrun
    simp only [Prod.mk.injEq] at hx
    obtain ⟨rfl, hdir, hx₁, hx₂⟩ := hx
    have hk := reachable_of_runCalls heq (by simp [mountM])
    refine ⟨k, heq, hk, ?_⟩
    intro hdistinct
    have hL : Lists k.fs 97 [(94, [chr 'x'], some 93), (92, [chr 'x'], some 91)] :=
      ⟨_, [(94, x₁), (92, x₂)], hdir, rfl, by decide, ⟨rfl, hx₁, rfl, hx₂, rfl⟩, rfl⟩
    exact absurd (hdistinct 97 _ hL) (by decide)

/-- The directory `/m` is found after it was created. -/
theorem mkdir_of_reachable_slashM :
  (kernel noCard).Reachable (Allowed ⟨True, False⟩) bootKernel
    ∧ ∃ k' b i s', sysMkdir noCard (some slashM) 0x1FF { bootKernel with current := 0 } = some (0, k')
      ∧ inodeLookup noCard true slashM.chars O_EXEC S_IFDIR k'.fs = some ((0, some b), s')
      ∧ s'.buf b = .inode i ∧ i.mode = 0x41ED
  := by
  have hk : (kernel noCard).Reachable (Allowed ⟨True, False⟩) bootKernel := .start bootKernel_start
  have hmkdir : (sysMkdir noCard (some slashM) 0x1FF { bootKernel with current := 0 }).map Prod.fst
      = some 0 := by
    decide +kernel
  obtain ⟨⟨_, k'⟩, heq, rfl⟩ := Option.map_eq_some_iff.mp hmkdir
  have hpath : PathUnmounted bootKernel 0 (some slashM) := by
    intro p stack c _ _ _ dir name i _ hi
    rw [booted_bootKernel.fs_eq] at hi
    obtain ⟨-, rfl⟩ := inode_of_boot hi
    decide
  obtain ⟨-, hall⟩ := mkdir_of_reachable hk
  obtain ⟨-, ⟨stack, c, b, i, s', -, hc, hlookup, hi, hmode⟩, -⟩ :=
    hall 0 shell (some slashM) 0x1FF k' booted_bootKernel.shell_eq hpath (by decide) (by decide) heq
  cases hc
  refine ⟨hk, k', b, i, s', heq, hlookup, hi, ?_⟩
  rw [hmode]
  decide

end Mosnix.Os
