import Mosnix.Os.Syscalls

/-!
# What the system calls do

A system call checks its arguments and reads the descriptors of the process that makes it, and then
goes on with a program that is simple.  `Does sd k p c m k₁` lists these programs `m`, with the states
`k₁` in which they start.  Every call goes on so (`run_comes`); what the calls keep is proved from
this list.

The lemmas of this module hold in any state, whether or not it is one of a run.
-/

namespace Mosnix.Os

open Fat Fs Program

variable {σ : Type} {sd : SdDriver σ} {k k' : Kernel σ} {f : FileId} {pid : ProcId} {n : Fd}
  {p : Proc} {c : Syscall} {r : Int}

/-! ### The functions of `file.c` and `proc.c` -/

theorem getKernel_eq : (getThe (Kernel σ) : KernelM σ (Kernel σ)) k = some (k, k) := rfl

theorem readFile_eq : readFile f k = some (k.globalFd f, k) := rfl

theorem setFile_eq {file : File} : setFile f file k = some ((), k.setFile f file) := rfl

theorem record_eq {x : FileEvent} :
  record x k = some ((), { k with events := x :: k.events })
  := rfl

/-- The current process is the one in the table. -/
theorem currentProc_eq (hp : k.processTable k.current = some p) :
  currentProc k = some (p, k)
  := by
  simp [currentProc, hp]

theorem setCurrentProc_eq : setCurrentProc p k = some ((), k.setProc k.current p) := rfl

theorem currentProc_ensures :
  Ensures currentProc k fun p k' => k' = k ∧ k.processTable k.current = some p
  := by
  apply Ensures.of_forall
  intro p k' heq
  obtain ⟨p, hp, heq⟩ := Option.map_eq_some_iff.mp heq
  cases heq
  exact ⟨rfl, hp⟩

/-- The file of a descriptor that is in use. -/
theorem fileGet_eq (hp : k.processTable k.current = some p) (fd : Int) :
  fileGet fd k = some ((fdIndex fd).bind p.fd, k)
  := by
  unfold fileGet
  cases fdIndex fd with
  | none => rfl
  | some n => apply (bind_eq (currentProc_eq hp)).trans rfl

/-- The kernel after a reference to the file `f` is taken. -/
def Kernel.refFile (k : Kernel σ) (f : FileId) : Kernel σ :=
  k.setFile f { k.globalFd f with count := (k.globalFd f).count + 1 }

/-- The kernel after a reference to the file `f` is given up. -/
def Kernel.derefFile (k : Kernel σ) (f : FileId) (fs : FileSystem σ) : Kernel σ :=
  { k.setFile f { k.globalFd f with count := (k.globalFd f).count - 1 } with
    fs := fs
    events := if (k.globalFd f).count - 1 ≤ 0 then .closed f :: k.events else k.events }

/-- The kernel after `file_new` returns the file `f`. -/
def Kernel.newFile (k : Kernel σ) (f : FileId) (flags mode : Word) : Kernel σ :=
  { k.setFile f ⟨1, flags, mode, none, none, none, 0⟩ with events := .opened f :: k.events }

theorem fileRef_eq : fileRef f k = some ((), k.refFile f) := rfl

/-- A program on the file system does not change anything else. -/
theorem onFs_ensures {α : Type} {m : FsM σ α} :
  Ensures (onFs m) k fun _ k' => ∃ fs, k' = { k with fs := fs }
  := by
  apply Ensures.zoom
  apply Ensures.of_forall
  intro _ fs _
  exact ⟨fs, rfl⟩

/-- A file without a function for closing changes the file system only. -/
theorem fileCloseDefault_ensures :
  Ensures (fileCloseDefault f) k fun _ k' => ∃ fs, k' = { k with fs := fs }
  := by
  apply Ensures.bind_of_eq readFile_eq
  split
  · apply Ensures.pure
    exact ⟨k.fs, rfl⟩
  · apply Ensures.bind_discard onFs_ensures
    rintro _ _ ⟨fs, rfl⟩
    apply Ensures.pure
    exact ⟨fs, rfl⟩

/-- The operation `close` is recorded. -/
theorem close_ensures {op : FileOps} :
  Ensures (op.close f) k fun _ k' => ∃ fs, k' = { k with fs := fs, events := .closed f :: k.events }
  := by
  apply Ensures.bind_of_eq record_eq
  split_ifs with hfat
  · apply Ensures.bind_of_eq readFile_eq
    apply Ensures.bind onFs_ensures
    rintro _ _ ⟨fs, rfl⟩
    apply fileCloseDefault_ensures.mono
    rintro _ _ ⟨fs', rfl⟩
    exact ⟨fs', rfl⟩
  · apply fileCloseDefault_ensures

/-- A reference is given up, and the file is closed if it was the last one. -/
theorem fileDeref_ensures :
  Ensures (fileDeref f) k fun _ k' => ∃ fs, k' = k.derefFile f fs
  := by
  apply Ensures.bind_of_eq readFile_eq
  apply Ensures.bind_of_eq setFile_eq
  unfold Kernel.derefFile
  split_ifs with hlast
  · split
    · apply Ensures.fault
    · apply close_ensures
  · apply Ensures.pure
    exact ⟨k.fs, rfl⟩

/-- `file_new` finds no free entry in `global_fd`, or takes one. -/
theorem fileNew_ends {flags mode : Word} :
  Ends (fileNew flags mode) k fun r k' =>
    r = none ∧ k' = k ∧ (∀ f, (k.globalFd f).count ≠ 0)
      ∨ ∃ f, r = some f ∧ (k.globalFd f).count = 0 ∧ k' = k.newFile f flags mode
  := by
  apply Ends.bind_of_eq getKernel_eq
  split
  · rename_i hnone
    apply Ends.pure
    left
    refine ⟨rfl, rfl, fun f => ?_⟩
    simpa using List.find?_eq_none.mp hnone f (List.mem_finRange f)
  · rename_i f hf
    apply Ends.bind_of_eq setFile_eq
    apply Ends.bind_of_eq record_eq
    apply Ends.pure
    right
    exact ⟨f, rfl, by simpa using List.find?_some hf, rfl⟩

/-- The first free descriptor is free. -/
theorem fd_of_firstFree (h : firstFree p = some n) : p.fd n = none := by
  simpa using List.find?_some h

/-- `file_put` stores the file in the first descriptor that is not in use. -/
theorem filePut_ends (hp : k.processTable k.current = some p) :
  Ends (filePut f) k fun r k' => r < 0 ∧ k' = k
    ∨ ∃ n : Fd, r = n ∧ firstFree p = some n
      ∧ k' = k.setProc k.current { p with fd := Function.update p.fd n (some f) }
  := by
  apply Ends.bind_of_eq (currentProc_eq hp)
  split
  · apply Ends.pure
    left
    exact ⟨by decide, rfl⟩
  · rename_i n hn
    apply Ends.bind_of_eq setCurrentProc_eq
    apply Ends.pure
    right
    exact ⟨n, rfl, hn, rfl⟩

/-- `sys_dup2` gives up the file of the descriptor, and stores the other file in it. -/
theorem dup2Replace_ensures {file2 : Option FileId} (hp : k.processTable k.current = some p) :
  Ensures (dup2Replace f n file2) k fun r k' => r = n ∧ ∃ k₁,
    k' = k₁.setProc k.current (p.install n f)
      ∧ (file2 = none ∧ k₁ = k ∨ ∃ f₂ fs, file2 = some f₂ ∧ k₁ = k.derefFile f₂ fs)
  := by
  apply Ensures.bind (P := fun _ k₁ => file2 = none ∧ k₁ = k
    ∨ ∃ f₂ fs, file2 = some f₂ ∧ k₁ = k.derefFile f₂ fs)
  · cases file2 with
    | none => exact Ensures.pure (Or.inl ⟨rfl, rfl⟩)
    | some f₂ =>
        apply Ensures.discard
        apply fileDeref_ensures.mono
        rintro _ _ ⟨fs, rfl⟩
        exact Or.inr ⟨f₂, fs, rfl, rfl⟩
  · intro _ k₁ hk₁
    have hsame : k₁.processTable = k.processTable ∧ k₁.current = k.current := by
      obtain ⟨-, rfl⟩ | ⟨f₂, fs, -, rfl⟩ := hk₁ <;> exact ⟨rfl, rfl⟩
    have hp₁ : k₁.processTable k₁.current = some p := by rw [hsame.1, hsame.2, hp]
    apply Ensures.bind_of_eq (currentProc_eq hp₁)
    apply Ensures.bind_of_eq setCurrentProc_eq
    apply Ensures.pure
    refine ⟨rfl, k₁, ?_, hk₁⟩
    rw [hsame.2]

/-- A new process has no files, and the working directory of its parent. -/
structure IsChild (k : Kernel σ) (parent : Option ProcId) (p : Proc) : Prop where
  fd_eq : ∀ n, p.fd n = none
  inFlight_eq : p.inFlight = none
  cwd_eq : ∀ pid, parent = some pid → ∃ p₀, k.processTable pid = some p₀ ∧ p.cwd = p₀.cwd

/-- `proc_create` finds no room, or creates a process. -/
theorem procCreate_ensures {parent : Option ProcId} :
  Ensures (procCreate parent) k fun _ k' => k' = k
    ∨ ∃ pid p, k.processTable pid = none ∧ IsChild k parent p ∧ k' = k.setProc pid p
  := by
  apply Ensures.bind_of_eq getKernel_eq
  split
  · apply Ensures.pure
    left
    rfl
  · rename_i pid hpid
    apply Ensures.bind (P := fun p k' => k' = k ∧ IsChild k parent p)
    · apply Ensures.of_forall
      intro p k' heq
      cases parent with
      | none =>
          cases heq
          exact ⟨rfl, fun _ => rfl, rfl, fun _ h => by cases h⟩
      | some q =>
          obtain ⟨p₀, hq, heq⟩ := Option.map_eq_some_iff.mp heq
          cases heq
          refine ⟨rfl, fun _ => rfl, rfl, ?_⟩
          rintro _ ⟨rfl⟩
          exact ⟨p₀, hq, rfl⟩
    · rintro p _ ⟨rfl, hchild⟩
      apply Ensures.bind_of_eq rfl
      apply Ensures.pure
      right
      exact ⟨pid, p, by simpa using List.find?_some hpid, hchild, rfl⟩

/-! ### The list of the programs -/

/-- The call opens a file. -/
def Opens : Syscall → Prop
  | .open .. => True
  | .opendir .. => True
  | _ => False

/-- The call duplicates a descriptor. -/
def Duplicates : Syscall → Prop
  | .dup _ => True
  | .dup2 oldfd newfd => newfd ≠ oldfd
  | .fcntl _ cmd _ => cmd = F_DUPFD
  | _ => False

/-- The call begins to read or write. -/
def Begins : Syscall → Prop
  | .readBegin .. => True
  | .writeBegin .. => True
  | _ => False

/-- The call looks up a path. -/
def LooksUp : Syscall → Prop
  | .open .. => True
  | .opendir .. => True
  | .chdir .. => True
  | .mkdir .. => True
  | .mknod .. => True
  | .mount .. => True
  | _ => False

/-- The call installs the descriptor `n` when it returns `r`. -/
def Installs (c : Syscall) (r : Int) (n : Fd) : Prop :=
  r = n ∧ (Opens c ∨ Duplicates c)

theorem not_installs_of_neg (hr : r < 0) (n : Fd) : ¬ Installs c r n := by
  rintro ⟨rfl, -⟩
  omega

/-- A call that neither opens nor duplicates installs nothing. -/
theorem not_installs (hc : ¬ (Opens c ∨ Duplicates c)) (n : Fd) : ¬ Installs c r n := fun h => hc h.2

/-- The call `c` of the current process `p` in the state `k` goes on with the program `m` in the state
`k₁`. -/
inductive Does (sd : SdDriver σ) (k : Kernel σ) (p : Proc) :
    Syscall → KernelM σ Int → Kernel σ → Prop where
  /-- It fails, or only reads. -/
  | returns {c : Syscall} {r : Int} (hr : ∀ n, ¬ Installs c r n) : Does sd k p c (pure r) k
  | closes {fd : Int} {n : Fd} {f : FileId} (hn : fdIndex fd = some n) (hf : p.fd n = some f) :
      Does sd k p (.close fd) (fileDeref f)
        (k.setProc k.current { p with fd := Function.update p.fd n none })
  | begins {c : Syscall} {n : Fd} {f : FileId} (hc : Begins c) (hf : p.fd n = some f) :
      Does sd k p c (pure 0) ((k.refFile f).setProc k.current { p with inFlight := some f })
  | ends {f : FileId} (hf : p.inFlight = some f) :
      Does sd k p .transferEnd (do discard (fileDeref f); return 0)
        (k.setProc k.current { p with inFlight := none })
  | faults (hf : p.inFlight = none) : Does sd k p .transferEnd fault k
  | duplicates {c : Syscall} {m n : Fd} {f : FileId} (hc : Duplicates c) (hf : p.fd m = some f) :
      Does sd k p c (dup2Replace f n (p.fd n)) (k.refFile f)
  | flags {fd value : Int} {n : Fd} {f : FileId} (hn : fdIndex fd = some n) (hf : p.fd n = some f) :
      Does sd k p (.fcntl fd F_SETFD value) (pure (-EINVAL))
        (k.setProc k.current { p with cloexec := Function.update p.cloexec n (setCloexec value) })
  | sets {fd value : Int} {f : FileId} :
      Does sd k p (.fcntl fd F_SETFL value) (pure (-EINVAL))
        (k.setFile f { k.globalFd f with flags := setFlags (k.globalFd f).flags value })
  | masks {mask : Word} :
      Does sd k p (.umask mask) (pure p.umask.toNat)
        (k.setProc k.current { p with umask := mask &&& 0x1FF })
  | looksUp {c : Syscall} (hc : LooksUp c) : Does sd k p c (c.run sd) k

section Calls

variable (hp : k.processTable k.current = some p)

/-- The call fails. -/
theorem Comes.fails (hr : r < 0) : Comes (pure r : KernelM σ Int) k (Does sd k p c) :=
  .refl (.returns (not_installs_of_neg hr))

include hp

/-- `sys_close` closes, or returns. -/
theorem sysClose_comes {fd : Int} : Comes (sysClose fd) k (Does sd k p (.close fd)) := by
  apply Comes.bind_of_eq (fileGet_eq hp fd)
  split
  · rename_i n f hn hf
    rw [hn, Option.bind_some] at hf
    apply Comes.bind_of_eq (currentProc_eq hp)
    apply Comes.bind_of_eq setCurrentProc_eq
    exact .refl (.closes hn hf)
  · exact Comes.fails (by decide)

/-- The start of a transfer takes a reference, or returns. -/
theorem transferBegin_comes {fd : Int} {null : Bool} {size : Word} (hc : Begins c) :
  Comes (transferBegin fd null size) k (Does sd k p c)
  := by
  apply Comes.bind_of_eq (fileGet_eq hp fd)
  split
  · exact Comes.fails (by decide)
  · rename_i f hf
    obtain ⟨n, -, hf⟩ := Option.bind_eq_some_iff.mp hf
    split_ifs
    · exact Comes.fails (by decide)
    · apply Comes.bind_of_eq fileRef_eq
      refine Comes.bind_of_eq (currentProc_eq (p := p) hp) ?_
      apply Comes.bind_of_eq setCurrentProc_eq
      exact .refl (.begins hc hf)

/-- The end of a transfer gives the reference up. -/
theorem sysTransferEnd_comes : Comes sysTransferEnd k (Does sd k p .transferEnd) := by
  apply Comes.bind_of_eq (currentProc_eq hp)
  split
  · rename_i hf
    exact .refl (.faults hf)
  · rename_i f hf
    apply Comes.bind_of_eq setCurrentProc_eq
    exact .refl (.ends hf)

/-- The scan of `sys_dup` and `F_DUPFD` finds a descriptor that is not in use, which refers to no file
that would be given up. -/
theorem sysDupScan_comes {oldfd newfd : Int} (hc : Duplicates c) :
  Comes (sysDupScan oldfd newfd) k (Does sd k p c)
  := by
  apply Comes.bind_of_eq (fileGet_eq hp oldfd)
  split
  · exact Comes.fails (by decide)
  · rename_i f hf
    obtain ⟨m, -, hf⟩ := Option.bind_eq_some_iff.mp hf
    split
    · exact Comes.fails (by decide)
    · apply Comes.bind_of_eq (currentProc_eq hp)
      split
      · exact Comes.fails (by decide)
      · rename_i n hn
        have hnone : p.fd n = none := by
          have hsome := List.find?_some hn
          rw [decide_eq_true_eq] at hsome
          apply hsome.2
        apply Comes.bind_of_eq fileRef_eq
        refine ⟨dup2Replace f n (p.fd n), k.refFile f, .duplicates hc hf, ?_⟩
        rw [hnone]
        symm
        apply (bind_eq (show fileDerefOpt none (k.refFile f) = some ((), k.refFile f) from rfl)).trans
        exact bind_eq (currentProc_eq (k := k.refFile f) hp)

/-- `sys_dup2` duplicates, or returns. -/
theorem sysDup2_comes {oldfd newfd : Int} :
  Comes (sysDup2 oldfd newfd) k (Does sd k p (.dup2 oldfd newfd))
  := by
  apply Comes.bind_of_eq (fileGet_eq hp oldfd)
  split
  · exact Comes.fails (by decide)
  · rename_i f hf
    obtain ⟨m, -, hf⟩ := Option.bind_eq_some_iff.mp hf
    split
    · exact Comes.fails (by decide)
    · split_ifs with heq
      · apply Comes.refl
        apply Does.returns
        apply not_installs
        simp [Opens, Duplicates, heq]
      · apply Comes.bind_of_eq fileRef_eq
        refine Comes.bind_of_eq (currentProc_eq (p := p) hp) ?_
        exact .refl (.duplicates heq hf)

/-- `sys_fcntl` duplicates, sets the flag, or returns. -/
theorem sysFcntl_comes {fd cmd value : Int} :
  Comes (sysFcntl fd cmd value) k (Does sd k p (.fcntl fd cmd value))
  := by
  apply Comes.bind_of_eq (fileGet_eq hp fd)
  split
  · rename_i n f hn hf
    rw [hn, Option.bind_some] at hf
    apply Comes.bind_of_eq (currentProc_eq hp)
    apply Comes.bind_of_eq readFile_eq
    have hreads {r : Int} (hdup : cmd ≠ F_DUPFD) :
        Comes (pure r : KernelM σ Int) k (Does sd k p (.fcntl fd cmd value)) := by
      apply Comes.refl
      apply Does.returns
      apply not_installs
      simpa [Opens, Duplicates] using hdup
    split_ifs with hdup hgetfd hsetfd hgetfl hsetfl
    · exact sysDupScan_comes hp hdup
    · apply hreads hdup
    · subst hsetfd
      apply Comes.bind_of_eq setCurrentProc_eq
      exact .refl (.flags hn hf)
    · apply hreads hdup
    · subst hsetfl
      apply Comes.bind_of_eq setFile_eq
      exact .refl .sets
    · apply hreads hdup
  · exact Comes.fails (by decide)

/-- Every system call goes on as listed. -/
theorem run_comes (c : Syscall) : Comes (c.run sd) k (Does sd k p c) := by
  cases c with
  | close fd => apply sysClose_comes hp
  | readBegin fd null size => exact transferBegin_comes hp trivial
  | writeBegin fd null size => exact transferBegin_comes hp trivial
  | transferEnd => apply sysTransferEnd_comes hp
  | dup oldfd =>
      change Comes (sysDupScan oldfd 0) k _
      exact sysDupScan_comes hp trivial
  | dup2 oldfd newfd => apply sysDup2_comes hp
  | fcntl fd cmd value => apply sysFcntl_comes hp
  | umask mask =>
      apply Comes.bind_of_eq (currentProc_eq hp)
      apply Comes.bind_of_eq setCurrentProc_eq
      exact .refl .masks
  | _ => exact .refl (.looksUp trivial)

end Calls

/-! ### The calls that look up a path -/

/-- A lookup changes the file system and the path buffer only. -/
theorem inodeLookupPath_ensures {wanted : Bool} {path : Option CStr} {oflag mode : Word} :
  Ensures (inodeLookupPath sd wanted path oflag mode) k fun _ k' =>
    ∃ fs tempPath, k' = { k with fs := fs, tempPath := tempPath }
  := by
  apply Ensures.bind (P := fun _ k' => ∃ tempPath, k' = { k with tempPath := tempPath })
  · apply Ensures.bind currentProc_ensures
    rintro p _ ⟨rfl, -⟩
    apply Ensures.bind_of_eq getKernel_eq
    split
    · apply Ensures.fault
    · apply Ensures.bind_of_eq rfl
      apply Ensures.pure
      exact ⟨_, rfl⟩
  · rintro error _ ⟨tempPath, rfl⟩
    split_ifs
    · apply Ensures.pure
      exact ⟨k.fs, tempPath, rfl⟩
    · apply Ensures.bind_of_eq getKernel_eq
      apply Ensures.bind onFs_ensures
      rintro r _ ⟨fs, rfl⟩
      dsimp only
      split_ifs
      all_goals
        apply Ensures.pure
        exact ⟨fs, tempPath, rfl⟩

/-- At most the file system, the buffer `temp_path` and the working directory of the current process
`p` are changed. -/
def Located (k : Kernel σ) (p : Proc) (k' : Kernel σ) : Prop :=
  ∃ fs tempPath cwd,
    k' = Kernel.setProc { k with fs := fs, tempPath := tempPath } k.current { p with cwd := cwd }

section Located

variable (hp : k.processTable k.current = some p)

include hp

theorem located (fs : FileSystem σ) (tempPath : List Byte) :
  Located k p { k with fs := fs, tempPath := tempPath }
  := by
  refine ⟨fs, tempPath, p.cwd, ?_⟩
  rw [Kernel.setProc, ← hp, Function.update_eq_self]

/-- A call that looks up a path and does not open a file. -/
theorem LooksUp.located (hc : LooksUp c) (hopens : ¬ Opens c) :
  Ensures (c.run sd) k fun _ k' => Located k p k'
  := by
  cases c with
  | chdir path =>
      apply Ensures.bind inodeLookupPath_ensures
      rintro ⟨error, -⟩ _ ⟨fs, tempPath, rfl⟩
      dsimp only
      split_ifs
      · refine Ensures.bind_of_eq (currentProc_eq (p := p) hp) ?_
        apply Ensures.bind_of_eq getKernel_eq
        split
        · apply Ensures.fault
        · rename_i cwd _
          apply Ensures.bind_of_eq setCurrentProc_eq
          apply Ensures.pure
          exact ⟨fs, tempPath, cwd, rfl⟩
      · exact Ensures.pure (Os.located hp fs tempPath)
  | mkdir path mode =>
      apply Ensures.bind_of_eq (currentProc_eq hp)
      apply Ensures.bind inodeLookupPath_ensures
      rintro ⟨error, inode⟩ _ ⟨fs, tempPath, rfl⟩
      dsimp only
      split_ifs
      · split
        · apply Ensures.fault
        · apply Ensures.bind_discard onFs_ensures
          rintro _ _ ⟨fs', rfl⟩
          exact Ensures.pure (Os.located hp fs' tempPath)
      · exact Ensures.pure (Os.located hp fs tempPath)
  | mknod path mode dev =>
      apply Ensures.bind_of_eq (currentProc_eq hp)
      dsimp only
      split_ifs
      · exact Ensures.pure (Os.located hp k.fs k.tempPath)
      · exact Ensures.pure (Os.located hp k.fs k.tempPath)
      · apply Ensures.bind inodeLookupPath_ensures
        rintro ⟨error, inode⟩ _ ⟨fs, tempPath, rfl⟩
        dsimp only
        split_ifs
        · split
          · apply Ensures.fault
          · apply Ensures.bind onFs_ensures
            rintro _ _ ⟨fs', rfl⟩
            exact Ensures.pure (Os.located hp fs' tempPath)
        · exact Ensures.pure (Os.located hp fs tempPath)
  | mount source target filesystemtype mountflags =>
      change Ensures (sysMount sd source target filesystemtype mountflags) k _
      have hsame : Located k p k := Os.located hp k.fs k.tempPath
      unfold sysMount
      split
      · split_ifs
        · exact Ensures.pure hsame
        · exact Ensures.pure hsame
        · split
          · exact Ensures.pure hsame
          · apply Ensures.bind inodeLookupPath_ensures
            rintro ⟨error, dir⟩ _ ⟨fs, tempPath, rfl⟩
            dsimp only
            split_ifs
            · exact Ensures.pure (Os.located hp fs tempPath)
            · split
              · apply Ensures.fault
              · apply onFs_ensures.mono
                rintro _ _ ⟨fs', rfl⟩
                exact Os.located hp fs' tempPath
      · exact Ensures.pure hsame
  | «open» path flags mode => cases hopens trivial
  | opendir path => cases hopens trivial
  | _ => cases hc

end Located

end Mosnix.Os
