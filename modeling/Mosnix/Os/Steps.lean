import Mosnix.Os.Invariant

/-!
# The invariant is kept

Every system call keeps the invariant of the kernel and the names of the nodes, and only `sys_open`
and `sys_opendir` can fault.  The nodes that a call creates are restricted by a policy: `Allowed q k a` says that the
action `a` creates only such nodes in the state `k`.  The invariant holds in every state of a run
whose actions are allowed.
-/

namespace Mosnix.Os

open Fat Fs Path Program

variable {σ : Type} {sd : SdDriver σ} {k k' : Kernel σ} {f : FileId} {n : Fd} {p p' : Proc}
  {pid : ProcId} {q : Policy}

/-! ### Processes -/

/-- A member of a process other than the working directory is changed. -/
theorem KernelOk.setProc (h : KernelOk q k) (hp : k.processTable pid = some p)
    (hcwd : p'.cwd = p.cwd) :
  KernelOk q (k.setProc pid p')
  := by
  refine ⟨h.files, h.cwds.set ?_, h.tempPath⟩
  rw [hcwd]
  apply h.cwds pid p hp

/-- A file that a descriptor refers to is in use. -/
theorem Counted.pos_of_fd (h : Counted k 0) (hp : k.processTable pid = some p)
    (hf : p.fd n = some f) :
  0 < (k.globalFd f).count
  := by
  apply h.count_pos
  simpa using refs_pos_of_fd hp hf

theorem Counted.pos_of_inFlight (h : Counted k 0) (hp : k.processTable pid = some p)
    (hf : p.inFlight = some f) :
  0 < (k.globalFd f).count
  := by
  apply h.count_pos
  simpa using refs_pos_of_inFlight hp hf

/-! ### The system calls of `file.c` -/

section Files

variable (h : KernelOk q k) (hc : Counted k 0) (hp : k.processTable k.current = some p)

include h hc hp

/-- A reference to a file that a descriptor refers to is taken. -/
theorem FilesOk.refFile (hf : p.fd n = some f) : FilesOk q k.fs (k.refFile f).globalFd := by
  have hpos := hc.pos_of_fd hp hf
  refine h.files.setFile _ ?_ rfl rfl rfl
  dsimp only
  omega

/-- A descriptor is replaced, and the reference to its file is given up. -/
theorem dup2Replace_ends {m : Fd} (hf : p.fd m = some f) :
  Ends (dup2Replace f n (p.fd n)) (k.refFile f) fun _ k' => Follows q k k'
  := by
  have href := FilesOk.refFile h hc hp hf
  apply Ends.bind (P := fun _ k' => k'.processTable = k.processTable ∧ k'.current = k.current
    ∧ Follows q k k')
  · cases hn : p.fd n with
    | none =>
        apply Ends.pure
        exact ⟨rfl, rfl, ⟨href, h.cwds, h.tempPath⟩, Kept.refl k.fs⟩
    | some f₂ =>
        have hpos : 0 < ((k.refFile f).globalFd f₂).count := by
          apply (hc.refFile hp hf).count_pos
          have hrefs := refs_pos_of_fd hp hn
          have hone : 0 ≤ one (some f) f₂ := by
            rw [one]
            split_ifs <;> decide
          change 0 < (k.refs f₂ : ℤ) + _
          omega
        apply Ends.discard
        refine (FilesOk.fileDeref_ends href hpos).mono ?_
        rintro _ _ ⟨fs, rfl, hfiles, hkept⟩
        exact ⟨rfl, rfl, ⟨hfiles, h.cwds, h.tempPath⟩, hkept⟩
  · rintro _ k₁ ⟨hproc, hcur, hok, hkept⟩
    have hp₁ : k₁.processTable k₁.current = some p := by rw [hproc, hcur, hp]
    apply Ends.bind_of_eq (currentProc_eq hp₁)
    apply Ends.bind_of_eq setCurrentProc_eq
    apply Ends.pure
    exact ⟨hok.setProc hp₁ rfl, hkept⟩

/-- What a call goes on with that does not look up a path. -/
theorem Does.ends_ok {c : Syscall} {m : KernelM σ Int} (hdoes : Does sd k p c m k')
    (hready : p.inFlight = none ↔ c ≠ .transferEnd) (hlooks : ¬ LooksUp c) :
  Ends m k' fun _ k' => Follows q k k'
  := by
  have hcwds {p' : Proc} (hcwd : p'.cwd = p.cwd) :
      CwdsOk (Function.update k.processTable k.current (some p')) := by
    apply h.cwds.set
    rw [hcwd]
    apply h.cwds _ p hp
  cases hdoes with
  | returns => exact Ends.pure h.follows
  | closes hn hf =>
      apply Ends.mono
      · exact FilesOk.fileDeref_ends h.files (hc.pos_of_fd hp hf)
      · rintro _ _ ⟨fs, rfl, hfiles, hkept⟩
        exact ⟨⟨hfiles, hcwds rfl, h.tempPath⟩, hkept⟩
  | begins _ hf =>
      apply Ends.pure
      exact ⟨⟨FilesOk.refFile h hc hp hf, hcwds rfl, h.tempPath⟩, Kept.refl k.fs⟩
  | ends hf =>
      refine Ends.bind_discard (FilesOk.fileDeref_ends h.files (hc.pos_of_inFlight hp hf)) ?_
      rintro _ _ ⟨fs, rfl, hfiles, hkept⟩
      apply Ends.pure
      exact ⟨⟨hfiles, hcwds rfl, h.tempPath⟩, hkept⟩
  | faults hf => cases hready.mp hf rfl
  | duplicates _ hf => apply dup2Replace_ends h hc hp hf
  | flags => exact Ends.pure ⟨h.setProc hp rfl, Kept.refl k.fs⟩
  | sets =>
      apply Ends.pure
      exact ⟨⟨h.files.setFile _ Iff.rfl rfl rfl rfl, h.cwds, h.tempPath⟩, Kept.refl k.fs⟩
  | masks => exact Ends.pure ⟨h.setProc hp rfl, Kept.refl k.fs⟩
  | looksUp hc' => cases hlooks hc'

end Files

/-! ### Modes -/

theorem and_0x1FF_and {x y : Word} (hy : 0x1FF &&& y = 0) : x &&& 0x1FF &&& y = 0 := by
  rw [BitVec.and_assoc, hy]
  exact BitVec.and_zero

theorem S_ISDIR_mkdirMode (umask mode : Word) : S_ISDIR (mkdirMode umask mode) = true := by
  rw [S_ISDIR, mkdirMode, BitVec.and_or_distrib_right, and_0x1FF_and (by decide)]
  decide

/-- `sys_mkdir` creates directories only. -/
theorem modeOk_mkdirMode (umask mode : Word) : ModeOk q (mkdirMode umask mode) := by
  constructor
  · exact Or.inl (S_ISDIR_mkdirMode umask mode)
  · rw [isMounted, mkdirMode, BitVec.and_or_distrib_right, and_0x1FF_and (by decide)]
    decide

/-- `sys_mknod` creates devices only. -/
theorem modeOk_mknod {mode : Word} (htype : ¬ (¬ S_ISCHR mode = true ∧ ¬ S_ISBLK mode = true))
    (hbits : ¬ mode &&& (S_ISUID ||| S_ISGID ||| S_ISVTX) ≠ 0) :
  ModeOk q mode
  := by
  constructor
  · rw [not_and_or, not_not, not_not] at htype
    right
    exact htype.imp_right Or.inl
  · rw [not_not] at hbits
    have hvtx : mode &&& S_ISVTX = mode &&& (S_ISUID ||| S_ISGID ||| S_ISVTX) &&& S_ISVTX := by
      rw [BitVec.and_assoc]
      rfl
    rw [isMounted, hvtx, hbits]
    rfl

theorem modeOk_open (hq : ¬ q.typed) (umask mode : Word) :
  ModeOk q (mode &&& ~~~umask &&& 0x1FF)
  := by
  constructor
  · right
    right
    right
    exact ⟨hq, and_0x1FF_and (by decide)⟩
  · rw [isMounted, and_0x1FF_and (by decide)]
    rfl

/-! ### The system calls of `dir.c` and `mount.c` -/

/-- The walk along a path does not end at a mount point, in the working directory of a process. -/
def PathUnmounted (k : Kernel σ) (pid : ProcId) (pathname : Option CStr) : Prop :=
  ∀ p stack c, k.processTable pid = some p → IsPath p.cwd stack → pathname = some c →
    Unmounted k.fs (walkPath (absPath stack c.chars))

section Mount

variable {s : FileSystem σ} {dir : BufId} {i : Inode} {held infos : List BufId}

/-- `fatfs_mount_sd` on a directory that is not a mount point. -/
theorem fatfsMountSd_ends (h : FsOk q s held infos) (hram : RamDir s dir i) :
  Ends (fatfsMountSd sd dir) s fun _ s' => FsOk q s' held infos ∧ Kept s s'
  := by
  apply Ends.bind (h.wellFormed.fatfsNewInode_ends _ _)
  rintro _ s₁ (⟨rfl, hext⟩ | ⟨m, rfl, hraw, hext⟩)
  · apply Ends.pure
    exact ⟨h.trans hext, (Extends.refl h.wellFormed).kept hext⟩
  · have hi₁ := hext.inode_eq hram.buf_eq
    have hext' := hext.callSd (sd.sdDetect s₁.sd).2
    apply Ends.bind_of_eq rfl
    refine Ends.bind_of_eq (readInode_eq hi₁) ?_
    apply Ends.bind_of_eq store_eq
    apply Ends.pure
    refine ⟨h.mount hext' hraw hi₁ hram.op_eq hram.isDir, ?_⟩
    apply ((Extends.refl h.wellFormed).kept hext').trans
    exact RamDir.kept_mount ⟨hi₁, hram.op_eq, hram.isDir, hram.unmounted⟩

/-- `sys_mount` after the directory is found. -/
theorem mountDir_ends (h : FsOk q s (dir :: held) infos) {mountflags : Long} :
  Ends (mountDir sd dir mountflags) s fun _ s' => FsOk q s' held infos ∧ Kept s s'
  := by
  have hderef {s₁ : FileSystem σ} {r : Int} (h₁ : FsOk q s₁ (dir :: held) infos) (hs₁ : Kept s s₁) :
      Ends (do discard (inodeDeref dir); return r) s₁ fun _ s' => FsOk q s' held infos ∧ Kept s s' := by
    apply Ends.bind_discard (h₁.inodeDeref_ends.and h₁.kept_inodeDeref.ensures)
    rintro _ s' ⟨hs', hkept⟩
    apply Ends.pure
    exact ⟨hs', hs₁.trans hkept⟩
  obtain ⟨i, hi⟩ : ∃ i, s.buf dir = .inode i := by
    obtain ⟨s₀, -, hext⟩ := h
    apply hext.held_inode dir List.mem_cons_self
  apply Ends.bind_of_eq (readInode_eq hi)
  split_ifs with hop hdir hmounted
  · apply hderef h (Kept.refl s)
  · apply hderef h (Kept.refl s)
  · apply hderef h (Kept.refl s)
  · apply Ends.bind (fatfsMountSd_ends h ⟨hi, not_not.mp hop, hdir, by simpa using hmounted⟩)
    rintro r s' ⟨hs', hkept⟩
    apply hderef hs' hkept
  · apply hderef h (Kept.refl s)

end Mount

/-- A lookup that fails. -/
theorem KernelOk.kept (h : KernelOk q k) {fs : FileSystem σ} (hext : Extends k.fs fs [] []) :
  Kept k.fs fs
  :=
  (Extends.refl h.files.fs.wellFormed).kept hext

section Directories

variable {path : Option CStr} {stack : List (List Byte)} (h : KernelOk q k)
  (hp : k.processTable k.current = some p) (hcwd : IsPath p.cwd stack)

include h hp hcwd

/-- What `sys_mkdir` does: it fails and changes nothing, or it creates a directory. -/
theorem sysMkdir_ends {mode : Word} (hpath : q.distinct → PathUnmounted k k.current path) :
  Ends (sysMkdir sd path mode) k fun r k' => Follows q k k' ∧ k'.processTable = k.processTable
    ∧ k'.current = k.current
    ∧ (r < 0 ∧ Extends k.fs k'.fs [] []
      ∨ r = 0 ∧ ∃ c dir name d b, path = some c
        ∧ Parent k.fs k.fs.root (walkPath (absPath stack c.chars)) dir name ∧ Vacant k.fs dir name
        ∧ Created k.fs k'.fs dir name (newInode (mkdirMode p.umask mode) 1) d b)
  := by
  apply Ends.bind_of_eq (currentProc_eq hp)
  apply Ends.bind (inodeLookupPath_ends hp hcwd h.tempPath h.files.fs.wellFormed)
  rintro ⟨error, inode⟩ k₁ hlooked
  have hfs := hlooked.fsOk h.files.fs fun _ c hc =>
    ⟨modeOk_mkdirMode p.umask mode, fun hq => hpath hq p stack c hp hcwd hc⟩
  have hcreated := hlooked.created h.files.fs.wellFormed
  obtain ⟨fs, temp, rfl, htemp⟩ := hlooked.exists_eq
  dsimp only at hfs hcreated ⊢
  obtain ⟨he, hext⟩ | ⟨rfl, c, dir, name, d, b, hc, rfl, hparent, hv, hb⟩ := hcreated
  · rw [if_neg (by omega)]
    apply Ends.pure
    exact ⟨h.setFs (h.files.fs.trans hext) htemp (h.kept hext), rfl, rfl, Or.inl ⟨he, hext⟩⟩
  · rw [if_pos (by decide)]
    have hderef := (FsOk.inodeDeref_ends hfs).and (hb.deref_child (one_lt_two : (1 : ℤ) < 2)).ensures
    refine Ends.bind_discard (onFs_ends hderef) ?_
    rintro _ _ ⟨fs', rfl, hfs', hb'⟩
    apply Ends.pure
    refine ⟨h.setFs hfs' htemp ?_, rfl, rfl, Or.inr ⟨rfl, c, dir, name, d, b, hc, hparent, hv, hb'⟩⟩
    exact hb'.kept h.files.fs.wellFormed h.files.fs.apart (isNew_newInode _)

/-- `sys_mknod` keeps the invariant. -/
theorem sysMknod_ends {mode dev : Word} (hpath : q.distinct → PathUnmounted k k.current path) :
  Ends (sysMknod sd path mode dev) k fun _ k' => Follows q k k'
  := by
  apply Ends.bind_of_eq (currentProc_eq hp)
  dsimp only
  split_ifs with htype hbits
  · exact Ends.pure h.follows
  · exact Ends.pure h.follows
  · apply Ends.bind (inodeLookupPath_ends hp hcwd h.tempPath h.files.fs.wellFormed)
    rintro ⟨error, inode⟩ k₁ hlooked
    have hfs := hlooked.fsOk h.files.fs fun _ c hc =>
      ⟨modeOk_mknod htype hbits, fun hq => hpath hq p stack c hp hcwd hc⟩
    have hcreated := hlooked.created h.files.fs.wellFormed
    obtain ⟨fs, temp, rfl, htemp⟩ := hlooked.exists_eq
    dsimp only at hfs hcreated ⊢
    obtain ⟨he, hext⟩ | ⟨rfl, c, dir, name, d, b, hc, rfl, hparent, hv, hb⟩ := hcreated
    · rw [if_neg (by omega)]
      apply Ends.pure
      exact h.setFs (h.files.fs.trans hext) htemp (h.kept hext)
    · rw [if_pos (by decide)]
      have hdevice : Ends (mknodDevice b dev) fs fun _ fs' =>
          FsOk q fs' (inodes k.globalFd) (infos k.globalFd) ∧ Kept k.fs fs' := by
        apply Ends.bind_of_eq (readInode_eq hb.buf_child)
        apply Ends.bind_of_eq store_eq
        apply Ends.discard
        have hset := hb.set_child { newInode (mode &&& ~~~p.umask) 2 with device := dev }
        have hderef := hset.deref_child (one_lt_two : (1 : ℤ) < 2)
        apply ((FsOk.setDevice hfs hb.buf_child rfl dev).inodeDeref_ends.and hderef.ensures).mono
        rintro _ fs' ⟨hfs', hc'⟩
        exact ⟨hfs', hc'.kept h.files.fs.wellFormed h.files.fs.apart ⟨rfl, le_rfl, rfl, rfl⟩⟩
      refine Ends.bind (onFs_ends hdevice) ?_
      rintro _ _ ⟨fs', rfl, hfs', hkept⟩
      apply Ends.pure
      exact h.setFs hfs' htemp hkept

/-- What `sys_chdir` does: it fails and leaves the working directory as it is, or it sets the working
directory to a path that was found to be that of a directory. -/
theorem sysChdir_ends :
  Ends (sysChdir sd path) k fun r k' => Follows q k k' ∧ k'.current = k.current
    ∧ (r < 0 ∧ k'.processTable = k.processTable
      ∨ r = 0 ∧ ∃ c cwd s', path = some c ∧ IsPath cwd (absPath stack c.chars)
        ∧ inodeLookup sd false (render (chr '/') (absPath stack c.chars)) O_EXEC S_IFDIR k.fs
          = some ((0, none), s')
        ∧ k'.processTable = Function.update k.processTable k.current (some { p with cwd := cwd }))
  := by
  apply Ends.bind (inodeLookupPath_ends hp hcwd h.tempPath h.files.fs.wellFormed)
  intro r k₁ hlooked
  cases hlooked with
  | failed he htemp hext =>
      dsimp only
      rw [if_neg (by omega)]
      apply Ends.pure
      exact ⟨h.setFs (h.files.fs.trans hext) htemp (h.kept hext), rfl, Or.inl ⟨he, rfl⟩⟩
  | looked c hc he htemp heq =>
      obtain ⟨rfl, rfl, hext⟩ :=
        (looked_of_eq h.files.fs.wellFormed heq).checked_of_not_creat he (by decide)
      obtain ⟨cwd, hcopy, hcwd'⟩ := htemp.strcpyConstrained_eq hcwd.length_eq
      dsimp only
      rw [if_pos (by decide)]
      refine Ends.bind_of_eq (currentProc_eq (p := p) hp) ?_
      apply Ends.bind_of_eq getKernel_eq
      dsimp only
      rw [hcopy]
      apply Ends.bind_of_eq setCurrentProc_eq
      apply Ends.pure
      refine ⟨⟨⟨⟨h.files.fs.trans hext, h.files.file⟩, h.cwds.set ⟨_, hcwd'⟩, htemp.length_eq⟩,
        h.kept hext⟩, rfl, Or.inr ⟨rfl, c, cwd, _, hc, hcwd', heq, rfl⟩⟩

/-- `sys_mount` keeps the invariant. -/
theorem sysMount_ends {source target filesystemtype : Option CStr} {mountflags : Long} :
  Ends (sysMount sd source target filesystemtype mountflags) k fun _ k' => Follows q k k'
  := by
  unfold sysMount
  split
  · split_ifs
    · exact Ends.pure h.follows
    · exact Ends.pure h.follows
    · split
      · exact Ends.pure h.follows
      · apply Ends.bind (inodeLookupPath_ends hp hcwd h.tempPath h.files.fs.wellFormed)
        rintro ⟨error, dir⟩ k₁ hlooked
        have hfs := hlooked.fsOk h.files.fs fun ho => by cases ho (by decide)
        have hkept := hlooked.kept h.files.fs
        have hresult := hlooked.outcome h.files.fs.wellFormed
        obtain ⟨fs, temp, rfl, htemp⟩ := hlooked.exists_eq
        dsimp only at hfs hkept hresult ⊢
        obtain ⟨he, rfl, -⟩ | ⟨rfl, b, rfl, -⟩ := hresult
        · rw [if_pos he]
          apply Ends.pure
          exact h.setFs hfs htemp hkept
        · rw [if_neg (by decide)]
          apply Ends.mono
          · exact onFs_ends (mountDir_ends hfs)
          · rintro _ _ ⟨fs', rfl, hfs', hkept'⟩
            exact h.setFs hfs' htemp (hkept.trans hkept')
  · exact Ends.pure h.follows

/-- `file_open` keeps the invariant. -/
theorem fileOpen_ensures {flags mode : Word}
    (hcreate : flags &&& O_CREAT ≠ 0 → ModeOk q mode ∧ (q.distinct → PathUnmounted k k.current path)) :
  Ensures (fileOpen sd path flags mode) k fun _ k' => Follows q k k'
  := by
  apply Ensures.bind (inodeLookupPath_ends hp hcwd h.tempPath h.files.fs.wellFormed).ensures
  rintro ⟨error, inode⟩ k₁ hlooked
  have hfs := hlooked.fsOk h.files.fs fun ho c hc =>
    ⟨(hcreate ho).1, fun hq => (hcreate ho).2 hq p stack c hp hcwd hc⟩
  have hkept := hlooked.kept h.files.fs
  have hresult := hlooked.outcome h.files.fs.wellFormed
  obtain ⟨fs, temp, rfl, htemp⟩ := hlooked.exists_eq
  dsimp only at hfs hkept hresult ⊢
  obtain ⟨he, rfl, -⟩ | ⟨rfl, b, rfl, -⟩ := hresult
  · rw [if_pos he]
    apply Ensures.pure
    exact h.setFs hfs htemp hkept
  · rw [if_neg (by decide)]
    have hnode {i : Inode} := hfs.node (b := b) (i := i)
    have hreg {i : Inode} := hfs.noReg (b := b) (i := i)
    obtain ⟨s₀, hrest, hext⟩ := hfs
    obtain ⟨i, hi⟩ := hext.held_inode b (by simp)
    apply Ensures.mono
    · exact fileOpenInode_ensures hext hrest.wellFormed hi (hreg hi)
        (fun hop _ hm => ((hnode hi hop).mounted_iff.mp hm).2) hp
    · intro r k' hopened
      refine ⟨⟨hopened.filesOk hrest h.files.file, hopened.cwds hp h.cwds, ?_⟩, hkept.trans ?_⟩
      · rw [hopened.tempPath_eq]
        apply htemp
      · obtain ⟨-, -, hext'⟩ | ⟨f, n, -, -, hfile⟩ := hopened
        · exact hext.kept hext'
        · exact hext.kept hfile.fs

end Directories

/-! ### Actions -/

/-- The action creates only nodes that the policy `q` allows. -/
def Allowed (q : Policy) (k : Kernel σ) (a : Action σ) : Prop :=
  match a with
  | .call pid (.mkdir path _) => q.distinct → PathUnmounted k pid path
  | .call pid (.mknod path _ _) => q.distinct → PathUnmounted k pid path
  | .call pid (.open path flags _) =>
      flags &&& O_CREAT ≠ 0 → ¬ q.typed ∧ (q.distinct → PathUnmounted k pid path)
  | _ => True

/-- A system call other than `sys_open` and `sys_opendir` does not fault, and keeps the invariant and
the names. -/
theorem run_ends (h : KernelOk q k) (hc : Counted k 0) (c : Syscall)
    (hready : Ready k k.current c) (hallowed : Allowed q k (.call k.current c)) (hopens : ¬ Opens c) :
  Ends (c.run sd) k fun _ k' => Follows q k k'
  := by
  obtain ⟨p, hp, hin⟩ := hready
  obtain ⟨stack, hcwd⟩ := h.cwds _ p hp
  by_cases hlooks : LooksUp c
  · cases c with
    | chdir path => exact (sysChdir_ends h hp hcwd).mono fun _ _ hends => hends.1
    | mkdir path mode => exact (sysMkdir_ends h hp hcwd hallowed).mono fun _ _ hends => hends.1
    | mknod path mode dev => apply sysMknod_ends h hp hcwd hallowed
    | mount source target filesystemtype mountflags => apply sysMount_ends h hp hcwd
    | «open» path flags mode => cases hopens trivial
    | opendir path => cases hopens trivial
    | _ => cases hlooks
  · apply (run_comes hp c).ends
    intro m k' hdoes
    apply hdoes.ends_ok h hc hp hin hlooks

/-- A system call keeps the invariant and the names. -/
theorem run_ensures (h : KernelOk q k) (hc : Counted k 0) (c : Syscall)
    (hready : Ready k k.current c) (hallowed : Allowed q k (.call k.current c)) :
  Ensures (c.run sd) k fun _ k' => Follows q k k'
  := by
  by_cases hopens : Opens c
  · obtain ⟨p, hp, -⟩ := hready
    obtain ⟨stack, hcwd⟩ := h.cwds _ p hp
    cases c with
    | «open» path flags mode =>
        apply Ensures.bind_of_eq (currentProc_eq hp)
        apply fileOpen_ensures h hp hcwd
        intro ho
        obtain ⟨hq, hpath⟩ := hallowed ho
        exact ⟨modeOk_open hq p.umask mode, hpath⟩
    | opendir path =>
        apply fileOpen_ensures h hp hcwd
        intro ho
        cases ho (by decide)
    | _ => cases hopens
  · apply (run_ends h hc c hready hallowed hopens).ensures

/-- The operation of a file in flight keeps the invariant and the names. -/
theorem operate_follows (h : KernelOk q k) (hc : Counted k 0) {posn : Long} {info : FatfsInodeInfo}
    {t : σ} :
  Ensures (operate posn info t) k fun _ k' => Follows q k k'
  := by
  apply Ensures.bind currentProc_ensures
  rintro p k ⟨rfl, hp⟩
  split
  · apply Ensures.fault
  · rename_i f hf
    have hpos := hc.pos_of_inFlight hp hf
    have hfiles := h.files.setFile (f := f) { k.globalFd f with posn := posn } Iff.rfl rfl rfl rfl
    obtain ⟨s₀, hrest, hext⟩ := hfiles.fs
    have hext' := hext.callSd t
    apply Ensures.bind_of_eq readFile_eq
    apply Ensures.bind_of_eq setFile_eq
    apply Ensures.bind_of_eq (onFs_eq rfl)
    split
    · apply Ensures.pure
      exact ⟨⟨⟨⟨s₀, hrest, hext'⟩, hfiles.file⟩, h.cwds, h.tempPath⟩, hext.kept hext'⟩
    · rename_i j hj
      have hmem : j ∈ infos (Function.update k.globalFd f { k.globalFd f with posn := posn }) := by
        apply Refs.mem_held (i := f)
        simp [File.holds, hpos, hj]
      obtain ⟨-, x, hx⟩ := hext'.infos_new j hmem
      have hset := hext'.setInfo hmem info
      apply Ends.ensures
      refine Ends.bind_discard_of_eq (onFs_eq (readInfo_eq hx)) ?_
      refine ⟨(), _, onFs_eq store_eq, ?_⟩
      exact ⟨⟨⟨⟨s₀, hrest, hset⟩, hfiles.file⟩, h.cwds, h.tempPath⟩, hext.kept hset⟩

theorem KernelOk.setCurrent (h : KernelOk q k) (pid : ProcId) :
  KernelOk q { k with current := pid }
  :=
  ⟨h.files, h.cwds, h.tempPath⟩

/-- A step of the kernel that is allowed keeps the invariant and the names. -/
theorem KernelOk.step {a : Action σ} (h : KernelOk q k) (hc : Counted k 0) (hallowed : Allowed q k a)
    (hstep : (kernel sd).step k a k') :
  Follows q k k'
  := by
  have hcurrent (pid : ProcId) : Counted { k with current := pid } 0 :=
    hc.congr (fun _ => rfl) rfl rfl
  cases a with
  | call pid c =>
      obtain ⟨hready, r, heq⟩ := hstep
      obtain ⟨hok, hkept⟩ := (run_ensures (h.setCurrent pid) (hcurrent pid) c hready hallowed).of_eq heq
      exact ⟨hok, hkept⟩
  | operate pid posn info t =>
      obtain ⟨hok, hkept⟩ := (operate_follows (h.setCurrent pid) (hcurrent pid)).of_eq hstep
      exact ⟨hok, hkept⟩
  | procCreate parent =>
      obtain ⟨r, heq⟩ := hstep
      obtain rfl | ⟨pid, p, -, hchild, rfl⟩ := procCreate_ensures.of_eq heq
      · apply h.follows
      · obtain ⟨p₀, hp₀, hcwd⟩ := hchild.cwd_eq parent rfl
        refine ⟨⟨h.files, h.cwds.set ?_, h.tempPath⟩, Kept.refl k.fs⟩
        rw [hcwd]
        apply h.cwds parent p₀ hp₀

/-! ### Runs -/

theorem isPath_rootCwd : IsPath rootCwd [['r', 'o', 'o', 't'].map chr] where
  length_eq := by decide
  holds := by
    refine ⟨by decide, List.replicate 58 0, ?_⟩
    decide
  normal := by
    intro c hc
    rw [List.mem_singleton.mp hc]
    exact ⟨by decide, by decide, by decide, by decide⟩
  zero_notMem := by decide

/-- The invariant holds at boot. -/
theorem Booted.kernelOk {t : σ} {tempPath : List Byte} (h : Booted k t tempPath)
    (htemp : tempPath.length = CONFIG_PATH_MAX) (q : Policy) :
  KernelOk q k
  := by
  have hholds {α : Type} (x : File → Option α) (hx : x console = none) (f : FileId) :
      (k.globalFd f).holds (x (k.globalFd f)) = none := by
    by_cases hf : f = 0
    · rw [hf, h.console_eq, hx]
      rfl
    · simp [File.holds, h.count_eq f hf]
  refine ⟨⟨?_, ?_⟩, ?_, ?_⟩
  · rw [h.fs_eq, inodes, infos]
    simp only [hholds File.inode rfl, hholds File.fatfsInfo rfl, Refs.held_none]
    exact ⟨boot t, rest_boot q t, Extends.refl (wellFormed_boot t)⟩
  · intro f hpos
    by_cases hf : f = 0
    · rw [hf, h.console_eq]
      exact ⟨.basicTty, rfl, fun hne => by cases hne rfl⟩
    · rw [h.count_eq f hf] at hpos
      cases hpos
  · intro pid p hp
    by_cases hpid : pid = 0
    · rw [hpid, h.shell_eq] at hp
      cases hp
      exact ⟨_, isPath_rootCwd⟩
    · rw [h.process_eq pid hpid] at hp
      cases hp
  · rw [h.tempPath_eq, htemp]

/-- The invariant holds in every state of a run whose actions are allowed. -/
theorem kernelOk_of_reachable (hk : (kernel sd).Reachable (Allowed q) k) : KernelOk q k := by
  have hboth : KernelOk q k ∧ Counted k 0 := by
    apply hk.invariant
    · rintro k ⟨t, files, tempPath, htemp, heq⟩
      have hbooted := (procStartShell_ends t files tempPath).ensures.of_eq heq
      exact ⟨hbooted.kernelOk htemp q, hbooted.counted⟩
    · rintro k a k' ⟨h, hc⟩ hallowed hstep
      exact ⟨(h.step hc hallowed hstep).ok, hc.step hstep⟩
  apply hboth.1

/-- The kernel without a card after `proc_start_shell`. -/
def bootKernel : Kernel Unit :=
  ((procStartShell (kernelInit () (fun _ => console) (List.replicate CONFIG_PATH_MAX 0))).get rfl).2

theorem bootKernel_start : (kernel noCard).start bootKernel :=
  ⟨(), fun _ => console, List.replicate CONFIG_PATH_MAX 0, by simp, rfl⟩

theorem booted_bootKernel : Booted bootKernel () (List.replicate CONFIG_PATH_MAX 0) :=
  (procStartShell_ends () (fun _ => console) _).ensures.of_eq rfl

/-- The system calls `cs` of the process `pid`, one after the other. -/
def runCalls (sd : SdDriver σ) (pid : ProcId) : List Syscall → KernelM σ (List Int)
  | [] => return []
  | c :: cs => do
      modifyThe (Kernel σ) fun k => { k with current := pid }
      match (← currentProc).inFlight with
      | some _ => fault
      | none =>
          let r ← c.run sd
          let rs ← runCalls sd pid cs
          return r :: rs

/-- The calls of a process lead from a state of a run to another. -/
theorem runCalls_reachable {ok : Kernel σ → Action σ → Prop} {cs : List Syscall}
    (hk : (kernel sd).Reachable ok k) (hok : ∀ k, ∀ c ∈ cs, ok k (.call pid c))
    (hcs : ∀ c ∈ cs, c ≠ .transferEnd) :
  Ensures (runCalls sd pid cs) k fun _ k' => (kernel sd).Reachable ok k'
  := by
  induction cs generalizing k with
  | nil =>
      apply Ensures.pure
      apply hk
  | cons c cs ih =>
      rw [List.forall_mem_cons] at hcs
      apply Ensures.bind_of_eq rfl
      apply Ensures.bind currentProc_ensures
      rintro p _ ⟨rfl, hp⟩
      split
      · apply Ensures.fault
      · rename_i hin
        apply Ensures.bind (P := fun _ k' => (kernel sd).Reachable ok k')
        · cases hrun : c.run sd { k with current := pid } with
          | none =>
              left
              apply hrun
          | some r =>
              right
              have hready : Ready k pid c := ⟨p, hp, by simp [hin, hcs.1]⟩
              refine ⟨r.1, r.2, hrun, ?_⟩
              exact .step hk (hok k c List.mem_cons_self) ⟨hready, r.1, hrun⟩
        · intro r k₁ hk₁
          apply Ensures.bind (ih hk₁ _ hcs.2)
          · intro rs k₂ hk₂
            apply Ensures.pure
            apply hk₂
          · intro k' c' hc'
            apply hok k' c' (List.mem_cons_of_mem _ hc')

/-- The calls of the shell after boot. -/
theorem reachable_of_runCalls {cs : List Syscall} {rs : List Int} {k : Kernel Unit}
    (heq : runCalls noCard 0 cs bootKernel = some (rs, k)) (hcs : ∀ c ∈ cs, c ≠ .transferEnd) :
  (kernel noCard).Reachable (fun _ _ => True) k
  :=
  (runCalls_reachable (.start bootKernel_start) (fun _ _ _ => trivial) hcs).of_eq heq

end Mosnix.Os
