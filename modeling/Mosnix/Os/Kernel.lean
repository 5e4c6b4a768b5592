import Mosnix.Fs.Lookup
import Mosnix.Fs.PathName

/-!
# The kernel

The state of the kernel: the file system, the table of open files of `file.c`, and the table of
processes of `proc.c`.  The functions of this module look up the inode of a path, and count the
references to open files.

A function faults if it follows a pointer that is NULL.  The state also has a record of the calls
of `file_new` and of the operation `close`, which the code does not read.
-/

namespace Mosnix.Os

open Fat Fs Program

/-! ### The state -/

/-- Maximum number of processes. -/
def CONFIG_PROC_MAX : ℕ := 6

/-- Maximum number of open files. -/
def CONFIG_FD_MAX : ℕ := 32

/-- Maximum number of file descriptors of a process. -/
def CONFIG_PROC_FD_MAX : ℕ := 8

instance : NeZero CONFIG_PROC_MAX := ⟨by decide⟩

instance : NeZero CONFIG_FD_MAX := ⟨by decide⟩

instance : NeZero CONFIG_PROC_FD_MAX := ⟨by decide⟩

/-- An index in the table of processes. -/
abbrev ProcId := Fin CONFIG_PROC_MAX

/-- An index in the table of open files, `global_fd`. -/
abbrev FileId := Fin CONFIG_FD_MAX

/-- An index in the table of file descriptors of a process. -/
abbrev Fd := Fin CONFIG_PROC_FD_MAX

/-- The tables of operations on open files. -/
inductive FileOps where
  | devNull
  | devZero
  | devFull
  | basicTty
  | rawTty
  | ramfsDir
  | fatfsDir
  | fatfsFile
  deriving DecidableEq

/-- `struct file` -/
structure File where
  count : Int
  flags : Word
  mode : Word
  op : Option FileOps
  inode : Option BufId
  fatfsInfo : Option BufId
  posn : Long
  deriving DecidableEq

/-- The members of `struct proc` that the system calls on files use.  The file of a call of
`sys_read` or `sys_write` that has not ended yet is `inFlight`; the code has it on the stack of the
process. -/
structure Proc where
  fd : Fd → Option FileId := fun _ => none
  cloexec : Fd → Byte := fun _ => 0
  umask : Word := 0
  cwd : List Byte := List.replicate CONFIG_PATH_MAX 0
  inFlight : Option FileId := none

/-- A call of `file_new` that returns a file, or of the operation `close` of a file. -/
inductive FileEvent where
  | opened (f : FileId)
  | closed (f : FileId)
  deriving DecidableEq

/-- The state of the kernel. -/
structure Kernel (σ : Type) where
  fs : FileSystem σ
  globalFd : FileId → File
  processTable : ProcId → Option Proc
  current : ProcId
  tempPath : List Byte
  events : List FileEvent := []

variable {σ : Type} (sd : SdDriver σ)

/-- The kernel with a process replaced. -/
def Kernel.setProc (k : Kernel σ) (pid : ProcId) (p : Proc) : Kernel σ :=
  { k with processTable := Function.update k.processTable pid (some p) }

/-- The kernel with an open file replaced. -/
def Kernel.setFile (k : Kernel σ) (f : FileId) (file : File) : Kernel σ :=
  { k with globalFd := Function.update k.globalFd f file }

/-- Programs of the kernel. -/
abbrev KernelM (σ : Type) := Program (Kernel σ)

/-- A program on the file system. -/
def onFs {α : Type} (m : FsM σ α) : KernelM σ α :=
  zoom Kernel.fs (fun k fs => { k with fs := fs }) m

/-- The process that `current_proc` points to. -/
def currentProc : KernelM σ Proc := fun k =>
  (k.processTable k.current).map fun p => (p, k)

/-- A store to the process that `current_proc` points to. -/
def setCurrentProc (p : Proc) : KernelM σ Unit :=
  modifyThe (Kernel σ) fun k => k.setProc k.current p

/-- An entry of `global_fd`. -/
def readFile (f : FileId) : KernelM σ File := fun k =>
  some (k.globalFd f, k)

/-- A store to an entry of `global_fd`. -/
def setFile (f : FileId) (file : File) : KernelM σ Unit :=
  modifyThe (Kernel σ) fun k => k.setFile f file

/-- A call is recorded. -/
def record (e : FileEvent) : KernelM σ Unit :=
  modifyThe (Kernel σ) fun k => { k with events := e :: k.events }

/-! ### Paths -/

/-- The call of `inode_path_to_abs` with the buffer `temp_path`. -/
def pathToTempPath (pathname : Option CStr) : KernelM σ Int := do
  let proc ← currentProc
  let k ← getThe (Kernel σ)
  match inodePathToAbs proc.cwd k.tempPath CONFIG_PATH_MAX (pathname.map CStr.chars) with
  | none => fault
  | some (error, tempPath) =>
      modifyThe (Kernel σ) fun k => { k with tempPath := tempPath }
      return error

/-- `inode_lookup_path`: the result, and the value of `*inode` if the argument `inode` is not
NULL. -/
def inodeLookupPath (wanted : Bool) (pathname : Option CStr) (oflag mode : Word) :
    KernelM σ (Int × Option BufId) := do
  let error ← pathToTempPath pathname
  if error < 0 then
    return (error, none)
  else
    let k ← getThe (Kernel σ)
    let (error, inode) ← onFs (inodeLookup sd wanted (cString k.tempPath) oflag mode)
    if error < 0 then
      return (error, none)
    else
      return (0, inode)

/-! ### References to open files -/

/-- `file_ref` -/
def fileRef (f : FileId) : KernelM σ Unit := do
  let file ← readFile f
  setFile f { file with count := file.count + 1 }

/-- `file_close_default` -/
def fileCloseDefault (f : FileId) : KernelM σ Int := do
  let file ← readFile f
  match file.inode with
  | none => return 0
  | some inode =>
      discard (onFs (inodeDeref inode))
      return 0

/-- `fatfs_close` -/
def fatfsClose (f : FileId) : KernelM σ Int := do
  let file ← readFile f
  onFs (kmallocBufFree file.fatfsInfo)
  fileCloseDefault f

/-- Whether the operations are `fatfs_dir_operations` or `fatfs_file_operations`. -/
def FileOps.isFatfs (op : FileOps) : Bool :=
  op = .fatfsDir ∨ op = .fatfsFile

/-- The function `close` of the operations of an open file. -/
def FileOps.close (op : FileOps) (f : FileId) : KernelM σ Int := do
  record (.closed f)
  if op.isFatfs then fatfsClose f else fileCloseDefault f

/-- `file_deref` -/
def fileDeref (f : FileId) : KernelM σ Int := do
  let file ← readFile f
  setFile f { file with count := file.count - 1 }
  if file.count - 1 ≤ 0 then
    match file.op with
    | none => fault
    | some op => op.close f
  else
    return 0

/-- The index of a file descriptor, if it is not out of range. -/
def fdIndex (fd : Int) : Option Fd :=
  if h : 0 ≤ fd ∧ fd < CONFIG_PROC_FD_MAX then some ⟨fd.toNat, by omega⟩ else none

/-- `file_get` -/
def fileGet (fd : Int) : KernelM σ (Option FileId) := do
  match fdIndex fd with
  | none => return none
  | some n => return (← currentProc).fd n

/-- The first descriptor of the process that is not in use. -/
def firstFree (p : Proc) : Option Fd :=
  (List.finRange CONFIG_PROC_FD_MAX).find? fun n => p.fd n = none

/-- `file_put` -/
def filePut (f : FileId) : KernelM σ Int := do
  let proc ← currentProc
  match firstFree proc with
  | none => return -EMFILE
  | some n =>
      setCurrentProc { proc with fd := Function.update proc.fd n (some f) }
      return n

/-- `file_new`: the first entry of `global_fd` that is not in use. -/
def fileNew (flags mode : Word) : KernelM σ (Option FileId) := do
  let k ← getThe (Kernel σ)
  match (List.finRange CONFIG_FD_MAX).find? fun f => (k.globalFd f).count = 0 with
  | none => return none
  | some f =>
      setFile f ⟨1, flags, mode, none, none, none, 0⟩
      record (.opened f)
      return some f

end Mosnix.Os
