import Mosnix.Os.Paths

/-!
# The invariant of the kernel

The references to inodes and the information about FAT files that were added to the file system at
rest are those of the open files.  Every open file has operations.  The working directory of every
process is a path.

The lemmas of this module say how the parts of the invariant change with one open file.
-/

namespace Mosnix.Os

open Fat Fs Program

variable {σ : Type} {sd : SdDriver σ} {k k' : Kernel σ} {fs : FileSystem σ} {f : FileId}
  {files files' : FileId → File} {file : File} {pid : ProcId} {p p' : Proc} {q : Policy}

/-! ### Open files -/

/-- What a file that is open holds. -/
def File.holds {α : Type} (file : File) (x : Option α) : Option α :=
  if 0 < file.count then x else none

/-- The inodes that the open files refer to. -/
def inodes (files : FileId → File) : List BufId :=
  Refs.held fun f => (files f).holds (files f).inode

/-- The information about the open files of the FAT file system. -/
def infos (files : FileId → File) : List BufId :=
  Refs.held fun f => (files f).holds (files f).fatfsInfo

/-- The inodes that the open files other than `f` refer to. -/
def otherInodes (files : FileId → File) (f : FileId) : List BufId :=
  Refs.held (Function.update (fun g => (files g).holds (files g).inode) f none)

/-- The information about the open files other than `f`. -/
def otherInfos (files : FileId → File) (f : FileId) : List BufId :=
  Refs.held (Function.update (fun g => (files g).holds (files g).fatfsInfo) f none)

/-- An open file has operations, which are those of the FAT file system if it has information about
a FAT file. -/
def FileOk (file : File) : Prop :=
  0 < file.count → ∃ op, file.op = some op ∧ (file.fatfsInfo ≠ none → op.isFatfs = true)

/-- The open files hold what was added to the file system at rest. -/
structure FilesOk (q : Policy) (fs : FileSystem σ) (files : FileId → File) : Prop where
  fs : FsOk q fs (inodes files) (infos files)
  file : ∀ f, FileOk (files f)

/-- The working directories of the processes are paths. -/
def CwdsOk (processTable : ProcId → Option Proc) : Prop :=
  ∀ pid p, processTable pid = some p → ∃ stack, IsPath p.cwd stack

/-- The invariant of the kernel. -/
structure KernelOk (q : Policy) (k : Kernel σ) : Prop where
  files : FilesOk q k.fs k.globalFd
  cwds : CwdsOk k.processTable
  tempPath : k.tempPath.length = CONFIG_PATH_MAX

/-- The state `k'` after a step from `k` satisfies the invariant, and the nodes keep their names. -/
structure Follows (q : Policy) (k k' : Kernel σ) : Prop where
  ok : KernelOk q k'
  kept : Kept k.fs k'.fs

/-- Nothing is changed. -/
theorem KernelOk.follows (h : KernelOk q k) : Follows q k k := ⟨h, Kept.refl k.fs⟩

/-- The file system and the buffer `temp_path` are changed. -/
theorem KernelOk.setFs (h : KernelOk q k) {temp : List Byte}
    (hfs : FsOk q fs (inodes k.globalFd) (infos k.globalFd)) (htemp : temp.length = CONFIG_PATH_MAX)
    (hkept : Kept k.fs fs) :
  Follows q k { k with fs := fs, tempPath := temp }
  :=
  ⟨⟨⟨hfs, h.files.file⟩, h.cwds, htemp⟩, hkept⟩

/-- A weaker policy. -/
theorem KernelOk.mono {q' : Policy} (h : KernelOk q k) (hdistinct : q'.distinct → q.distinct)
    (htyped : q'.typed → q.typed) :
  KernelOk q' k
  :=
  ⟨⟨h.files.fs.mono hdistinct htyped, h.files.file⟩, h.cwds, h.tempPath⟩

/-- The inodes that are held, with those of one file first. -/
theorem inodes_perm (files : FileId → File) (f : FileId) :
  (inodes files).Perm (((files f).holds (files f).inode).toList ++ otherInodes files f)
  :=
  Refs.held_perm _ f

theorem infos_perm (files : FileId → File) (f : FileId) :
  (infos files).Perm (((files f).holds (files f).fatfsInfo).toList ++ otherInfos files f)
  :=
  Refs.held_perm _ f

/-- The inodes of the other files. -/
theorem otherInodes_congr (h : ∀ g, g ≠ f → files' g = files g) :
  otherInodes files' f = otherInodes files f
  := by
  rw [otherInodes, otherInodes]
  congr 1
  funext g
  by_cases hg : g = f
  · simp [hg]
  · simp [hg, h g hg]

theorem otherInfos_congr (h : ∀ g, g ≠ f → files' g = files g) :
  otherInfos files' f = otherInfos files f
  := by
  rw [otherInfos, otherInfos]
  congr 1
  funext g
  by_cases hg : g = f
  · simp [hg]
  · simp [hg, h g hg]

namespace FilesOk

/-- The file system, with what the file `f` holds first. -/
theorem split (h : FilesOk q fs files) (f : FileId) :
  FsOk q fs (((files f).holds (files f).inode).toList ++ otherInodes files f)
    (((files f).holds (files f).fatfsInfo).toList ++ otherInfos files f)
  :=
  h.fs.perm (inodes_perm files f) (infos_perm files f)

/-- The file `f` is changed, and what it holds. -/
theorem change (h : ∀ g, FileOk (files g)) (hfiles : ∀ g, g ≠ f → files' g = files g)
    (hf : FileOk (files' f))
    (hfs : FsOk q fs (((files' f).holds (files' f).inode).toList ++ otherInodes files f)
      (((files' f).holds (files' f).fatfsInfo).toList ++ otherInfos files f)) :
  FilesOk q fs files'
  := by
  constructor
  · rw [← otherInodes_congr hfiles, ← otherInfos_congr hfiles] at hfs
    apply hfs.perm (inodes_perm files' f).symm (infos_perm files' f).symm
  · intro g
    by_cases hg : g = f
    · rw [hg]
      apply hf
    · rw [hfiles g hg]
      apply h g

/-- A file is changed in members other than those that the invariant is about. -/
theorem setFile (h : FilesOk q fs files) (file : File) (hcount : 0 < file.count ↔ 0 < (files f).count)
    (hop : file.op = (files f).op) (hinode : file.inode = (files f).inode)
    (hinfo : file.fatfsInfo = (files f).fatfsInfo) :
  FilesOk q fs (Function.update files f file)
  := by
  apply change (f := f) h.file
  · intro g hg
    rw [Function.update_of_ne hg]
  · rw [Function.update_self, FileOk, hcount, hop, hinfo]
    apply h.file f
  · simp only [Function.update_self, File.holds, hcount, hinode, hinfo]
    apply h.split f

/-- A file that is not open is changed, and is not open then. -/
theorem congr_closed (h : FilesOk q fs files)
    (hcount : ∀ f, (files f).count = 0 → (files' f).count = 0)
    (hfile : ∀ f, (files f).count ≠ 0 → files' f = files f) :
  FilesOk q fs files'
  := by
  have hsame {α : Type} (x : File → Option α) (f : FileId) :
      (files' f).holds (x (files' f)) = (files f).holds (x (files f)) := by
    by_cases hf : (files f).count = 0
    · simp [File.holds, hf, hcount f hf]
    · rw [hfile f hf]
  constructor
  · rw [inodes, infos]
    simp only [hsame File.inode, hsame File.fatfsInfo]
    apply h.fs
  · intro f
    by_cases hf : (files f).count = 0
    · intro hpos
      rw [hcount f hf] at hpos
      cases hpos
    · rw [hfile f hf]
      apply h.file f

end FilesOk

/-- A reference to an open file is given up. -/
theorem FilesOk.fileDeref_ends (h : FilesOk q k.fs k.globalFd) (hpos : 0 < (k.globalFd f).count) :
  Ends (fileDeref f) k fun _ k' =>
    ∃ fs, k' = k.derefFile f fs ∧ FilesOk q k'.fs k'.globalFd ∧ Kept k.fs k'.fs
  := by
  by_cases hlast : (k.globalFd f).count = 1
  · obtain ⟨s₀, hrest, hext⟩ := h.split f
    simp only [File.holds, if_pos hpos] at hext
    apply (fileDeref_last hlast ⟨h.file f hpos, hext⟩ hrest.wellFormed).mono
    rintro _ _ ⟨fs, rfl, hfs⟩
    refine ⟨fs, rfl, ?_, hext.kept hfs⟩
    have hclosed : ¬ 0 < ((k.derefFile f fs).globalFd f).count := by
      rw [derefFile_globalFd]
      dsimp only
      omega
    apply FilesOk.change h.file (derefFile_onlyFile fs).file_eq
    · intro hpos'
      contradiction
    · simp only [File.holds, if_neg hclosed]
      exact ⟨s₀, hrest, hfs⟩
  · have hmore : ¬ (k.globalFd f).count - 1 ≤ 0 := by omega
    apply Ends.bind_of_eq readFile_eq
    apply Ends.bind_of_eq setFile_eq
    rw [if_neg hmore]
    apply Ends.pure
    refine ⟨k.fs, ?_, ?_, Kept.refl k.fs⟩
    · rw [Kernel.derefFile, if_neg hmore]
      rfl
    · refine h.setFile _ ?_ rfl rfl rfl
      dsimp only
      omega

/-- `file_open` after the lookup leads to open files that hold what they should. -/
theorem FileOpened.filesOk {s₀ : FileSystem σ} {r : Int}
    (h : FileOpened s₀ (inodes k.globalFd) (infos k.globalFd) k p r k') (hrest : Rest q s₀)
    (hfile : ∀ f, FileOk (k.globalFd f)) :
  FilesOk q k'.fs k'.globalFd
  := by
  obtain ⟨-, hfailed, hext⟩ | ⟨f, n, -, hstored, hopened⟩ := h
  · have hfiles : FilesOk q k'.fs k.globalFd := ⟨⟨s₀, hrest, hext⟩, hfile⟩
    apply hfiles.congr_closed _ hfailed.file_eq
    intro f hf
    rw [hfailed.count_eq, hf]
  · have hclosed : ¬ 0 < (k.globalFd f).count := by simp [hstored.was_free]
    have hpos : 0 < (k'.globalFd f).count := by simp [hstored.count_eq]
    have hinodes := inodes_perm k.globalFd f
    have hinfos := infos_perm k.globalFd f
    rw [File.holds, if_neg hclosed] at hinodes hinfos
    apply FilesOk.change hfile hstored.file_eq
    · intro _
      apply hopened.op
    · rw [File.holds, File.holds, if_pos hpos, if_pos hpos]
      have hfs : FsOk q k'.fs _ _ := ⟨s₀, hrest, hopened.fs⟩
      apply hfs.perm
      · apply hinodes.append_left
      · apply hinfos.append_left

/-! ### Working directories -/

/-- A process gets another working directory. -/
theorem CwdsOk.set {processTable : ProcId → Option Proc} (h : CwdsOk processTable)
    (hcwd : ∃ stack, IsPath p'.cwd stack) :
  CwdsOk (Function.update processTable pid (some p'))
  := by
  intro pid' p hp
  by_cases hpid : pid' = pid
  · rw [hpid, Function.update_self] at hp
    cases hp
    apply hcwd
  · rw [Function.update_of_ne hpid] at hp
    apply h pid' p hp

section FileOpened

variable {s₀ : FileSystem σ} {held infos : List BufId} {r : Int}

theorem FileOpened.cwds (h : FileOpened s₀ held infos k p r k')
    (hp : k.processTable k.current = some p) (hcwds : CwdsOk k.processTable) :
  CwdsOk k'.processTable
  := by
  obtain ⟨-, hfailed, -⟩ | ⟨f, n, -, hstored, -⟩ := h
  · rw [hfailed.processTable_eq]
    apply hcwds
  · rw [hstored.processTable_eq]
    apply hcwds.set
    apply hcwds _ p hp

theorem FileOpened.tempPath_eq (h : FileOpened s₀ held infos k p r k') :
  k'.tempPath = k.tempPath
  := by
  obtain ⟨-, hfailed, -⟩ | ⟨f, n, -, hstored, -⟩ := h
  · apply hfailed.tempPath_eq
  · apply hstored.tempPath_eq

end FileOpened

end Mosnix.Os
