import Mosnix.Os.Directories

/-!
# Open files

What the invariants of the kernel say about the table of open files, in every state of a run, and
about `file_open`.  The references to a file are counted, and a file is closed when the last of them
goes.  A call of `file_open` that fails changes nothing, unless an inode that was found cannot be
opened; then the file has no operations when it is given up.  A character device is not opened by
`sys_open`, as the mode that the call passes on has no type.
-/

namespace Mosnix.Os

open Fat Fs Path Program

variable {σ : Type} {sd : SdDriver σ} {k k' : Kernel σ} {pid : ProcId} {p : Proc} {f : FileId}
  {path : Option CStr} {flags mode : Word}

/-! ### References -/

/-- The greatest value of `file_ref_count_t`. -/
def FILE_REF_COUNT_MAX : ℤ := 127

/-- The entry that `file_new` returns has no references. -/
theorem refs_of_fileNew (hc : Counted k 0) (heq : fileNew flags mode k = some (some f, k')) :
  k.refs f = 0
  := by
  obtain ⟨hnone, -⟩ | ⟨g, hg, hzero, -⟩ := fileNew_ends.ensures.of_eq heq
  · cases hnone
  · cases hg
    have hcount := hc.count_eq f
    rw [hzero, Pi.zero_apply] at hcount
    omega

/-- The count of every open file is the number of its references, in every state of the kernel: the
file descriptors of the processes, and the calls of `sys_read` and `sys_write` that have not ended.
A file is closed once, when it loses its last reference.  The entries that `file_new` hands out have
no references, and the counts stay in the range of their type. -/
theorem count_of_reachable (hk : (kernel sd).Reachable (fun _ _ => True) k) :
  (∀ f, (k.globalFd f).count = Refs.refs k.slot f + Refs.refs k.transfer f
      ∧ (k.globalFd f).count < FILE_REF_COUNT_MAX
      ∧ History f k.events (decide (0 < (k.globalFd f).count)))
    ∧ (∀ flags mode f k', fileNew flags mode k = some (some f, k') →
      Refs.refs k.slot f = 0 ∧ Refs.refs k.transfer f = 0)
    ∧ ∀ pid c, Ready k pid c → (∀ path flags mode, c ≠ .open path flags mode) →
      (∀ path, c ≠ .opendir path) → ∃ r k', c.run sd { k with current := pid } = some (r, k')
  := by
  have hc := counted_of_reachable hk
  refine ⟨?_, ?_, ?_⟩
  · intro f
    have hcount : (k.globalFd f).count = k.refs f := by
      rw [hc.count_eq, Pi.zero_apply, add_zero]
    have hle : k.refs f ≤ 54 := refs_le k f
    refine ⟨?_, ?_, hc.history f⟩
    · rw [hcount, Kernel.refs, Nat.cast_add]
    · rw [hcount, FILE_REF_COUNT_MAX]
      omega
  · intro flags mode f k' heq
    have hzero := refs_of_fileNew hc heq
    rw [Kernel.refs] at hzero
    omega
  · intro pid c hready hopen hopendir
    have hc' : Counted { k with current := pid } 0 := hc.congr (fun _ => rfl) rfl rfl
    have hopens : ¬ Opens c := by
      intro hopens
      cases c with
      | «open» path flags mode => cases hopen path flags mode rfl
      | opendir path => cases hopendir path rfl
      | _ => cases hopens
    obtain ⟨r, k', heq, -⟩ := run_ends ((kernelOk_anything hk).setCurrent pid) hc' c hready
      (allowed_anything _ _) hopens
    exact ⟨r, k', heq⟩

/-- The shell copies a descriptor of the console, closes another, and reads. -/
theorem count_of_reachable_console :
  ∃ k, (kernel noCard).Reachable (fun _ _ => True) k ∧ (k.globalFd 0).count = 4
    ∧ Refs.refs k.slot 0 + Refs.refs k.transfer 0 = 4
  := by
  let cs : List Syscall := [.dup 0, .dup2 3 3, .close 0, .readBegin 1 false 1]
  have hrun : (runCalls noCard 0 cs bootKernel).map (fun x => (x.2.globalFd 0).count) = some 4 := by
    decide +kernel
  obtain ⟨⟨rs, k⟩, heq, hcount⟩ := Option.map_eq_some_iff.mp hrun
  have hk := reachable_of_runCalls heq (by simp [cs])
  obtain ⟨hrefs, -⟩ := count_of_reachable hk
  have h := (hrefs 0).1
  dsimp only at hcount
  refine ⟨k, hk, hcount, ?_⟩
  omega

/-! ### Failing to open a file -/

/-- The lookup of `file_open` creates a node. -/
def Creates (sd : SdDriver σ) (path : Option CStr) (flags mode : Word) (k : Kernel σ) : Prop :=
  ∃ b k₁ dir name child d, inodeLookupPath sd true path flags mode k = some ((0, some b), k₁)
    ∧ Created k.fs k₁.fs dir name child d b

/-- A reference that is added is not the creation of a node. -/
theorem not_created {s s' : FileSystem σ} {dir d b c : BufId} {name : List Byte} {child : Inode}
    (h : Extends s s' [c] []) :
  ¬ Created s s' dir name child d b
  := by
  intro hc
  have hbuf := h.dirent_iff.mp hc.buf_dirent
  rw [hc.dirent_raw] at hbuf
  cases hbuf

/-- Nothing is created without the flag `O_CREAT`. -/
theorem not_creates (h : KernelOk ⟨False, False⟩ k) (hp : k.processTable k.current = some p)
    (ho : flags &&& O_CREAT = 0) :
  ¬ Creates sd path flags mode k
  := by
  rintro ⟨b, k₁, dir, name, child, d, heq, hc⟩
  obtain ⟨stack, hcwd⟩ := h.cwds _ p hp
  have hs := h.files.fs.wellFormed
  have hlooked := (inodeLookupPath_ends hp hcwd h.tempPath hs).ensures.of_eq heq
  obtain ⟨he, -⟩ | ⟨-, c, -, hext | ⟨hcreat, -⟩⟩ := hlooked.outcome hs
  · cases he
  · exact not_created hext hc
  · contradiction

/-- `file_open`, if the lookup fails. -/
theorem fileOpen_eq_of_neg {e : Int} {out : Option BufId}
    (heq : inodeLookupPath sd true path flags mode k = some ((e, out), k')) (he : e < 0) :
  fileOpen sd path flags mode k = some (e, k')
  := by
  change (inodeLookupPath sd true path flags mode k).bind _ = _
  rw [heq]
  exact congrFun (if_pos he) k'

/-- `file_open`, if the lookup finds an inode. -/
theorem fileOpen_eq_of_found {b : BufId}
    (heq : inodeLookupPath sd true path flags mode k = some ((0, some b), k')) :
  fileOpen sd path flags mode k = fileOpenInode sd b flags k'
  := by
  change (inodeLookupPath sd true path flags mode k).bind _ = _
  rw [heq]
  rfl

/-- A call of `file_open` by the current process, which does not create a node. -/
theorem KernelOk.fileOpen_iff (h : KernelOk ⟨False, False⟩ k)
    (hp : k.processTable k.current = some p) (hcreates : ¬ Creates sd path flags mode k) :
  (∃ r k', fileOpen sd path flags mode k = some (r, k')
      ∧ (r < 0 → (∀ f, (k'.globalFd f).count = (k.globalFd f).count)
        ∧ k'.processTable = k.processTable ∧ Unchanged k.fs k'.fs)) ↔
    ∀ b k₁, inodeLookupPath sd true path flags mode k = some ((0, some b), k₁) →
      (∃ f, (k.globalFd f).count = 0) → Openable sd k₁.fs b
  := by
  obtain ⟨stack, hcwd⟩ := h.cwds _ p hp
  have hs := h.files.fs.wellFormed
  have hends : Ends (inodeLookupPath sd true path flags mode) k _ :=
    inodeLookupPath_ends hp hcwd h.tempPath hs
  obtain ⟨⟨e, out⟩, k₁, heq, hlooked⟩ := hends
  have houtcome := hlooked.outcome hs
  obtain ⟨fs, temp, rfl, -⟩ := hlooked.exists_eq
  rw [heq]
  dsimp only at houtcome
  obtain ⟨he, rfl, hext⟩ | ⟨rfl, b, rfl, hext | ⟨-, dir, name, child, d, hc⟩⟩ := houtcome
  · rw [fileOpen_eq_of_neg heq he]
    constructor
    · rintro - b k₂ ⟨⟩
    · intro _
      exact ⟨e, _, rfl, fun _ => ⟨fun _ => rfl, rfl, hext.unchanged hs⟩⟩
  · rw [fileOpen_eq_of_found heq]
    have hfs : FsOk ⟨False, False⟩ fs (b :: inodes k.globalFd) (infos k.globalFd) :=
      h.files.fs.trans hext
    obtain ⟨i, hi⟩ := hext.held_inode b (by simp)
    have hmount (hop : i.op = .ramfs) (_ : S_ISDIR i.mode = true) (hm : isMounted i.mode = true) :
        i.ramfsMount ≠ none :=
      ((hfs.node hi hop).mounted_iff.mp hm).2
    constructor
    · rintro ⟨r, k', heq', -⟩ b' k₂ ⟨⟩ hfree
      by_contra hno
      have hfault : fileOpenInode sd b flags { k with fs := fs, tempPath := temp } = none :=
        fileOpenInode_fault hext hs hi (hfs.noReg hi) hmount hfree hno
      rw [hfault] at heq'
      cases heq'
    · intro hopenable
      have hends : Ends (fileOpenInode sd b flags) { k with fs := fs, tempPath := temp } _ :=
        fileOpenInode_ends hext hs hi (hfs.noReg hi) hmount hp (hopenable b _ rfl)
      obtain ⟨r, k', heq', ⟨-, hfailed, hext'⟩ | ⟨f, n, rfl, -⟩⟩ := hends
      · exact ⟨r, k', heq', fun _ => ⟨hfailed.count_eq, hfailed.processTable_eq, hext'.unchanged hs⟩⟩
      · refine ⟨_, k', heq', fun hr => ?_⟩
        omega
  · cases hcreates ⟨b, _, dir, name, child, d, heq, hc⟩

/-- A call of `file_open` that fails, and creates no node, leaves the counts of the files, the
descriptors of the process and the file system as they were, if and only if the inode that it finds
can be opened, or the table of open files is full.  Otherwise it faults. -/
theorem fileOpen_atomic_iff (hk : (kernel sd).Reachable (fun _ _ => True) k)
    (hp : k.processTable pid = some p)
    (hcreates : ¬ Creates sd path flags mode { k with current := pid }) :
  (∃ r k', fileOpen sd path flags mode { k with current := pid } = some (r, k')
      ∧ (r < 0 → (∀ f, (k'.globalFd f).count = (k.globalFd f).count)
        ∧ k'.processTable = k.processTable ∧ Unchanged k.fs k'.fs)) ↔
    ∀ b k₁, inodeLookupPath sd true path flags mode { k with current := pid }
        = some ((0, some b), k₁) →
      (∃ f, (k.globalFd f).count = 0) → Openable sd k₁.fs b
  :=
  ((kernelOk_anything hk).setCurrent pid).fileOpen_iff hp hcreates

/-- The directory `/m`, where no card is mounted, cannot be opened: `file_open` follows the pointer
`op` of a file that has none. -/
theorem fileOpen_atomic_mounted :
  ∃ k, runCalls noCard 0 mountM bootKernel = some ([0, 1], k)
    ∧ (kernel noCard).Reachable (fun _ _ => True) k
    ∧ ¬ Creates noCard (some slashM) O_RDONLY S_IFDIR { k with current := 0 }
    ∧ fileOpen noCard (some slashM) O_RDONLY S_IFDIR { k with current := 0 } = none
  := by
  have hrun : (runCalls noCard 0 mountM bootKernel).map
      (fun x => (x.1, (x.2.processTable 0).isSome,
        (fileOpen noCard (some slashM) O_RDONLY S_IFDIR { x.2 with current := 0 }).isNone))
        = some ([0, 1], true, true) := by
    decide +kernel
  obtain ⟨⟨rs, k⟩, heq, hx⟩ := Option.map_eq_some_iff.mp hrun
  simp only [Prod.mk.injEq, Option.isSome_iff_exists, Option.isNone_iff_eq_none] at hx
  obtain ⟨rfl, ⟨p, hp⟩, hnone⟩ := hx
  have hk := reachable_of_runCalls heq (by simp [mountM])
  have hcreates : ¬ Creates noCard (some slashM) O_RDONLY S_IFDIR { k with current := 0 } :=
    not_creates ((kernelOk_anything hk).setCurrent 0) hp (by decide)
  exact ⟨k, heq, hk, hcreates, hnone⟩

/-- The path `/m` does not exist when the shell has started. -/
theorem fileOpen_atomic_slashM :
  (kernel noCard).Reachable (fun _ _ => True) bootKernel
    ∧ ∃ r k', fileOpen noCard (some slashM) O_RDONLY S_IFDIR { bootKernel with current := 0 }
        = some (r, k') ∧ r < 0 ∧ Unchanged bootKernel.fs k'.fs
  := by
  have hk : (kernel noCard).Reachable (fun _ _ => True) bootKernel := .start bootKernel_start
  have hp := booted_bootKernel.shell_eq
  have hcreates : ¬ Creates noCard (some slashM) O_RDONLY S_IFDIR { bootKernel with current := 0 } :=
    not_creates ((kernelOk_anything hk).setCurrent 0) hp (by decide)
  have hlookup : (inodeLookupPath noCard true (some slashM) O_RDONLY S_IFDIR
      { bootKernel with current := 0 }).map Prod.fst = some (-ENOENT, none) := by
    decide +kernel
  obtain ⟨⟨_, k₁⟩, heq₁, rfl⟩ := Option.map_eq_some_iff.mp hlookup
  obtain ⟨r, k', heq, hunchanged⟩ := (fileOpen_atomic_iff hk hp hcreates).mpr (by simp [heq₁])
  have heq' := heq
  rw [fileOpen_eq_of_neg heq₁ (by decide)] at heq'
  cases heq'
  exact ⟨hk, -ENOENT, k₁, heq, by decide, (hunchanged (by decide)).2.2⟩

/-! ### Opening a character device -/

/-- A mode without a type does not match a character device. -/
theorem checkResult_device {i : Inode} (hmode : mode &&& S_IFMT = 0) (hchr : S_ISCHR i.mode = true) :
  checkResult flags mode i < 0
  := by
  have htype : (mode ^^^ i.mode) &&& S_IFMT ≠ 0 := by
    rw [ne_eq, type_eq_iff, hmode, beq_iff_eq.mp hchr]
    decide
  rw [checkResult, if_pos htype]
  split_ifs
  · decide
  · decide
  · decide

/-- A character device is not opened by `sys_open`, whatever its permissions and the arguments are. -/
theorem sysOpen_device (hk : (kernel sd).Reachable (fun _ _ => True) k)
    (hp : k.processTable pid = some p) {stack : List (List Byte)} (hcwd : IsPath p.cwd stack)
    {c : CStr} {dirs : List BufId} {b : BufId} {i : Inode}
    (hw : Walk k.fs k.fs.root (absPath stack c.chars) dirs b) (hi : k.fs.buf b = .inode i)
    (hchr : S_ISCHR i.mode = true) (flags mode : Word) :
  ∃ r k', sysOpen sd (some c) flags mode { k with current := pid } = some (r, k') ∧ r < 0
  := by
  have h := (kernelOk_anything hk).setCurrent pid
  have hs := h.files.fs.wellFormed
  have hends : Ends (sysOpen sd (some c) flags mode) { k with current := pid } fun r _ => r < 0 := by
    refine Ends.bind_of_eq (currentProc_eq hp) ?_
    refine Ends.bind (inodeLookupPath_ends hp hcwd h.tempPath hs) ?_
    rintro ⟨e, out⟩ k₁ hlooked
    cases hlooked with
    | failed he _ _ =>
        dsimp only
        rw [if_pos he]
        apply Ends.pure
        apply he
    | looked c' hc he _ heq =>
        cases hc
        obtain ⟨hpass, hno⟩ := (hw.inodeLookup_result h.files.fs hi).ensures.of_eq heq
        have hcheck : checkResult flags (mode &&& ~~~p.umask &&& 0x1FF) i < 0 :=
          checkResult_device (and_0x1FF_and (by decide)) hchr
        by_cases hpass' : AccessPass k.fs dirs flags i
        · rw [← hpass hpass'] at hcheck
          omega
        · have hneg := hno hpass'
          dsimp only at hneg
          rw [hneg] at he
          cases he
  obtain ⟨r, k', heq, hr⟩ := hends
  exact ⟨r, k', heq, hr⟩

/-- The kernel after the shell has created the device `/m`, which has the number of `/dev/null`. -/
theorem exists_device :
  ∃ k p stack, (kernel noCard).Reachable (fun _ _ => True) k
    ∧ k.processTable 0 = some p ∧ IsPath p.cwd stack ∧ p.fd 3 = none ∧ (k.globalFd 1).count = 0
    ∧ Walk k.fs k.fs.root (absPath stack slashM.chars) [k.fs.root] 97
    ∧ k.fs.buf 97 = .inode { newInode 0x21ED 1 with device := DEV_NULL }
    ∧ HasMode k.fs S_IXUSR k.fs.root
    ∧ ∃ k', sysOpen noCard (some slashM) O_WRONLY 0 { k with current := 0 } = some (-EACCES, k')
  := by
  let root : Inode := { newInode rootMode 3 with ramfsDir := some 98 }
  let null : Inode := { newInode 0x21ED 1 with device := DEV_NULL }
  let cs : List Syscall := [.mknod (some slashM) (S_IFCHR ||| 0x1FF) DEV_NULL]
  have hfs : (runCalls noCard 0 cs bootKernel).map
      (fun x => (x.2.fs.buf x.2.fs.root, x.2.fs.buf 98, x.2.fs.buf 97))
        = some (.inode root, .dirent ⟨[chr 'm'], some 97, none⟩, .inode null) := by
    decide +kernel
  have hopen : (runCalls noCard 0 cs bootKernel).map
      (fun x => ((x.2.processTable 0).map fun p => p.fd 3, (x.2.globalFd 1).count,
        (sysOpen noCard (some slashM) O_WRONLY 0 { x.2 with current := 0 }).map Prod.fst))
        = some (some none, 0, some (-EACCES)) := by
    decide +kernel
  obtain ⟨⟨rs, k⟩, heq, hx⟩ := Option.map_eq_some_iff.mp hfs
  rw [heq] at hopen
  simp only [Option.map_some, Option.some.injEq, Prod.mk.injEq, Option.map_eq_some_iff] at hx hopen
  obtain ⟨hroot, hm, hnull⟩ := hx
  obtain ⟨⟨p, hp, hfd⟩, hcount, ⟨_, k'⟩, hopen, rfl⟩ := hopen
  have hk := reachable_of_runCalls heq (by simp [cs])
  obtain ⟨stack, hcwd⟩ := (kernelOk_anything hk).cwds 0 p hp
  have hram : RamDir k.fs k.fs.root root := ⟨hroot, rfl, by decide, by decide⟩
  exact ⟨k, p, stack, hk, hp, hcwd, hfd, hcount, walk_first hram rfl hm rfl rfl, hnull,
    ⟨root, hroot, by decide⟩, k', hopen⟩

/-- The device `/m` may be written, but is not opened for writing. -/
theorem sysOpen_device_null :
  ∃ k p stack, (kernel noCard).Reachable (fun _ _ => True) k
    ∧ k.processTable 0 = some p ∧ IsPath p.cwd stack ∧ p.fd 3 = none ∧ (k.globalFd 1).count = 0
    ∧ Walk k.fs k.fs.root (absPath stack slashM.chars) [k.fs.root] 97
    ∧ k.fs.buf 97 = .inode { newInode 0x21ED 1 with device := DEV_NULL }
    ∧ HasMode k.fs S_IXUSR k.fs.root ∧ Grants O_WRONLY 0x21ED
    ∧ ∃ k', sysOpen noCard (some slashM) O_WRONLY 0 { k with current := 0 } = some (-EACCES, k')
  := by
  obtain ⟨k, p, stack, hk, hp, hcwd, hfd, hcount, hw, hi, hroot, hopen⟩ := exists_device
  refine ⟨k, p, stack, hk, hp, hcwd, hfd, hcount, hw, hi, hroot, ?_, hopen⟩
  rw [Grants]
  decide

/-- The device `/m` is not opened for reading. -/
theorem sysOpen_device_read :
  ∃ k, (kernel noCard).Reachable (fun _ _ => True) k
    ∧ ∃ r k', sysOpen noCard (some slashM) O_RDONLY 0 { k with current := 0 } = some (r, k') ∧ r < 0
  := by
  obtain ⟨k, p, stack, hk, hp, hcwd, -, -, hw, hi, -⟩ := exists_device
  exact ⟨k, hk, sysOpen_device hk hp hcwd hw hi (by decide) O_RDONLY 0⟩

end Mosnix.Os
