import Mosnix.Lib.System
import Mosnix.Fs.WellFormed
import Mosnix.Os.Kernel

/-!
# System calls

The system calls on files and directories of `file.c`, `dir.c` and `mount.c`, with the functions of
the file systems and of `devices.c` that open a file.  The transition system `kernel` has the
processes make these calls in any order.

A call of `sys_read` or `sys_write` has two phases: before and after the call of the operation of
the file, during which other processes may run.  The operation changes the position of the file,
the information about a FAT file and the state of the SD card; the transition system lets it change
them in any way.
-/

namespace Mosnix.Os

open Fat Fs Program

variable {σ : Type} (sd : SdDriver σ)

/-! ### Opening a file -/

def DEV_NULL : Word := 0x0103
def DEV_ZERO : Word := 0x0105
def DEV_FULL : Word := 0x0107
def DEV_TTY0 : Word := 0x0400
def DEV_TTY : Word := 0x0500
def DEV_CONSOLE : Word := 0x0501

/-- The table `char_devices`: the operations that the functions `open_dev_null` and so on set. -/
def charDevices : List (Word × FileOps) :=
  [(DEV_NULL, .devNull), (DEV_ZERO, .devZero), (DEV_FULL, .devFull), (DEV_TTY, .basicTty),
    (DEV_TTY0, .basicTty), (DEV_CONSOLE, .rawTty)]

/-- `device_open` -/
def deviceOpen (dev : Word) (f : FileId) (info : List (Word × FileOps)) : KernelM σ Int := do
  match info.find? fun d => d.1 = dev with
  | none => return - ENXIO
  | some d =>
      let file ← readFile f
      setFile f { file with op := some d.2 }
      return 0

/-- `char_device_open` -/
def charDeviceOpen (dev : Word) (f : FileId) : KernelM σ Int :=
  deviceOpen dev f charDevices

/-- The part of `fatfs_open` that creates the information about the open file. -/
def fatfsOpenInfo (f : FileId) (cluster size : Long) (op : FileOps) : KernelM σ Int := do
  match ← onFs kmallocBufAlloc with
  | none => return -ENOMEM
  | some info =>
      let file ← readFile f
      setFile f { file with fatfsInfo := some info }
      let opened ← onFs (callSd fun t => (fatfsInfoNew (sd.info t) default cluster size, t))
      onFs (store info (.info opened.2))
      if opened.1 then
        setFile f { file with fatfsInfo := some info, op := some op }
        return 0
      else
        onFs (kmallocBufFree (some info))
        return - EIO

/-- `fatfs_open`.  The size of a regular file is read from the new information, which is zero. -/
def fatfsOpen (f : FileId) : KernelM σ Int := do
  let file ← readFile f
  match file.inode with
  | none => fault
  | some b =>
      let i ← onFs (readInode b)
      if S_ISDIR file.mode then
        let info ← onFs (readInfo i.fatfsInfo)
        match ← onFs (callSd (fatfsDirCluster sd info.firstCluster)) with
        | none => return - EIO
        | some cluster => fatfsOpenInfo sd f cluster 0 .fatfsDir
      else if S_ISREG file.mode then
        let info ← onFs (readInfo i.fatfsInfo)
        fatfsOpenInfo sd f info.firstCluster (default : FatfsInodeInfo).size .fatfsFile
      else
        return -EPERM

/-- The part of `ramfs_open` that passes the request on to the file system that is mounted on the
directory `b`. -/
def ramfsOpenMount (f : FileId) (b : BufId) : KernelM σ Int := do
  let file ← readFile f
  let i ← onFs (readInode b)
  match i.ramfsMount with
  | none => fault
  | some mount =>
      onFs (inodeRef mount)
      discard (onFs (inodeDeref b))
      let m ← onFs (readInode mount)
      setFile f { file with inode := some mount, mode := m.mode }
      match m.op with
      | .fatfs => fatfsOpen sd f
      | .ramfs => fault

/-- The part of `ramfs_open` that opens the character device `b`. -/
def ramfsOpenDevice (f : FileId) (b : BufId) : KernelM σ Int := do
  let file ← readFile f
  setFile f { file with inode := none }
  let i ← onFs (readInode b)
  let result ← charDeviceOpen i.device f
  discard (onFs (inodeDeref b))
  return result

/-- `ramfs_open` -/
def ramfsOpen (f : FileId) : KernelM σ Int := do
  let file ← readFile f
  match file.inode with
  | none => fault
  | some b =>
      if S_ISDIR file.mode then
        if isMounted file.mode then
          ramfsOpenMount sd f b
        else
          setFile f { file with op := some .ramfsDir }
          return 0
      else if S_ISREG file.mode then
        return 0
      else if S_ISCHR file.mode then
        ramfsOpenDevice f b
      else
        return -EACCES

/-- The function `open` of the operations of an inode. -/
def openInode (op : InodeOps) (f : FileId) : KernelM σ Int :=
  match op with
  | .ramfs => ramfsOpen sd f
  | .fatfs => fatfsOpen sd f

/-- The part of `file_open` after the inode is found. -/
def fileOpenInode (inode : BufId) (flags : Word) : KernelM σ Int := do
  let i ← onFs (readInode inode)
  match ← fileNew flags i.mode with
  | none =>
      discard (onFs (inodeDeref inode))
      return -ENFILE
  | some f =>
      let file ← readFile f
      setFile f { file with inode := some inode }
      let error ← openInode sd i.op f
      if error < 0 then
        discard (fileDeref f)
        return error
      else
        let error ← filePut f
        if error < 0 then
          discard (fileDeref f)
          return error
        else
          return error

/-- `file_open` -/
def fileOpen (path : Option CStr) (flags mode : Word) : KernelM σ Int := do
  let (error, inode) ← inodeLookupPath sd true path flags mode
  if error < 0 then
    return error
  else
    match inode with
    | none => fault
    | some inode => fileOpenInode sd inode flags

/-! ### The system calls of `file.c` -/

/-- `sys_open` -/
def sysOpen (path : Option CStr) (flags mode : Word) : KernelM σ Int := do
  let proc ← currentProc
  fileOpen sd path flags (mode &&& ~~~proc.umask &&& 0x1FF)

/-- `sys_close` -/
def sysClose (fd : Int) : KernelM σ Int := do
  match fdIndex fd, ← fileGet fd with
  | some n, some f =>
      let proc ← currentProc
      setCurrentProc { proc with fd := Function.update proc.fd n none }
      fileDeref f
  | _, _ => return -EBADF

/-- The part of `sys_read` and `sys_write` before the call of the operation; `null` says that the
pointer `data` is NULL.  The result is the error, if the function returns. -/
def transferBegin (fd : Int) (null : Bool) (size : Word) : KernelM σ Int := do
  match ← fileGet fd with
  | none => return -EBADF
  | some f =>
      if null ∧ size > 0 then
        return -EFAULT
      else
        fileRef f
        let proc ← currentProc
        setCurrentProc { proc with inFlight := some f }
        return 0

/-- The part of `sys_read` and `sys_write` after the call of the operation. -/
def sysTransferEnd : KernelM σ Int := do
  let proc ← currentProc
  match proc.inFlight with
  | none => fault
  | some f =>
      setCurrentProc { proc with inFlight := none }
      discard (fileDeref f)
      return 0

/-- `sys_read` before the call of the operation. -/
def sysReadBegin (fd : Int) (null : Bool) (size : Word) : KernelM σ Int :=
  transferBegin fd null size

/-- `sys_write` before the call of the operation. -/
def sysWriteBegin (fd : Int) (null : Bool) (size : Word) : KernelM σ Int :=
  transferBegin fd null size

/-- The process with the file `f` as the file of the descriptor `n`, and with the close-on-exec flag
cleared. -/
def Proc.install (p : Proc) (n : Fd) (f : FileId) : Proc :=
  { p with
    fd := Function.update p.fd n (some f)
    cloexec := Function.update p.cloexec n 0 }

/-- The loop of `sys_dup_scan`, from the descriptor `newfd` on. -/
def dupScan (f : FileId) (newfd : Fd) : KernelM σ Int := do
  let proc ← currentProc
  match (List.finRange CONFIG_PROC_FD_MAX).find? fun n => newfd ≤ n ∧ proc.fd n = none with
  | none => return -EMFILE
  | some n =>
      fileRef f
      setCurrentProc (proc.install n f)
      return n

/-- `sys_dup_scan` -/
def sysDupScan (oldfd newfd : Int) : KernelM σ Int := do
  match ← fileGet oldfd with
  | none => return -EBADF
  | some f =>
      match fdIndex newfd with
      | none => return -EBADF
      | some n => dupScan f n

/-- `sys_dup` -/
def sysDup (oldfd : Int) : KernelM σ Int :=
  sysDupScan oldfd 0

/-- A reference to the file that a descriptor refers to is given up, if there is one. -/
def fileDerefOpt (file2 : Option FileId) : KernelM σ Unit :=
  match file2 with
  | none => return ()
  | some f2 => discard (fileDeref f2)

/-- The part of `sys_dup2` that replaces the descriptor `n`, whose file is `file2`. -/
def dup2Replace (f : FileId) (n : Fd) (file2 : Option FileId) : KernelM σ Int := do
  fileDerefOpt file2
  let proc ← currentProc
  setCurrentProc (proc.install n f)
  return n

/-- `sys_dup2` -/
def sysDup2 (oldfd newfd : Int) : KernelM σ Int := do
  match ← fileGet oldfd with
  | none => return -EBADF
  | some f =>
      match fdIndex newfd with
      | none => return -EBADF
      | some n =>
          if newfd = oldfd then
            return newfd
          else
            fileRef f
            dup2Replace f n ((← currentProc).fd n)

def F_DUPFD : Int := 0
def F_GETFD : Int := 1
def F_SETFD : Int := 2
def F_GETFL : Int := 3
def F_SETFL : Int := 4
def FD_CLOEXEC : Word := 1
def O_NONBLOCK : Word := 0x0800

/-- The close-on-exec flag after `F_SETFD`. -/
def setCloexec (value : Int) : Byte :=
  (BitVec.ofInt 16 value &&& FD_CLOEXEC).setWidth 8

/-- The file flags after `F_SETFL`. -/
def setFlags (flags : Word) (value : Int) : Word :=
  if BitVec.ofInt 16 value &&& O_NONBLOCK ≠ 0 then flags ||| O_NONBLOCK else flags &&& ~~~O_NONBLOCK

/-- `sys_fcntl` -/
def sysFcntl (fd cmd value : Int) : KernelM σ Int := do
  match fdIndex fd, ← fileGet fd with
  | some n, some f =>
      let proc ← currentProc
      let file ← readFile f
      if cmd = F_DUPFD then
        sysDupScan fd value
      else if cmd = F_GETFD then
        return (proc.cloexec n).toNat
      else if cmd = F_SETFD then
        setCurrentProc { proc with cloexec := Function.update proc.cloexec n (setCloexec value) }
        return -EINVAL
      else if cmd = F_GETFL then
        return file.flags.toInt
      else if cmd = F_SETFL then
        setFile f { file with flags := setFlags file.flags value }
        return -EINVAL
      else
        return -EINVAL
  | _, _ => return -EBADF

/-! ### The system calls of `dir.c` and `mount.c` -/

/-- `sys_getcwd`: the returned value and the buffer `buf`; `null` says that the pointer `result` is
NULL. -/
def sysGetcwd (buf : Option (List Byte)) (size : Word) (null : Bool) :
    KernelM σ (Int × Option (List Byte)) := do
  match buf with
  | none => return (-EFAULT, none)
  | some buf =>
      if null then
        return (-EFAULT, some buf)
      else if size = 0 then
        return (-EINVAL, some buf)
      else
        let proc ← currentProc
        match strcpyConstrained buf 0 proc.cwd size.toNat with
        | none => fault
        | some buf => return (0, some buf)

/-- `sys_chdir` -/
def sysChdir (path : Option CStr) : KernelM σ Int := do
  let (error, _) ← inodeLookupPath sd false path O_EXEC S_IFDIR
  if error ≥ 0 then
    let proc ← currentProc
    let k ← getThe (Kernel σ)
    match strcpyConstrained proc.cwd 0 k.tempPath CONFIG_PATH_MAX with
    | none => fault
    | some cwd =>
        setCurrentProc { proc with cwd := cwd }
        return error
  else
    return error

/-- The mode of the directory that `sys_mkdir` creates. -/
def mkdirMode (umask mode : Word) : Word :=
  S_IFDIR ||| (mode &&& ~~~umask &&& 0x1FF)

/-- `sys_mkdir` -/
def sysMkdir (path : Option CStr) (mode : Word) : KernelM σ Int := do
  let proc ← currentProc
  let (error, inode) ←
    inodeLookupPath sd true path (O_CREAT ||| O_EXCL) (mkdirMode proc.umask mode)
  if error ≥ 0 then
    match inode with
    | none => fault
    | some inode =>
        discard (onFs (inodeDeref inode))
        return error
  else
    return error

/-- The part of `sys_mknod` after the inode is created. -/
def mknodDevice (inode : BufId) (dev : Word) : FsM σ Unit := do
  let i ← readInode inode
  store inode (.inode { i with device := dev })
  discard (inodeDeref inode)

/-- `sys_mknod` -/
def sysMknod (path : Option CStr) (mode dev : Word) : KernelM σ Int := do
  let proc ← currentProc
  let mode := mode &&& ~~~proc.umask
  if ¬ S_ISCHR mode ∧ ¬ S_ISBLK mode then
    return -EINVAL
  else if mode &&& (S_ISUID ||| S_ISGID ||| S_ISVTX) ≠ 0 then
    return -EINVAL
  else
    let (error, inode) ← inodeLookupPath sd true path (O_CREAT ||| O_EXCL) mode
    if error ≥ 0 then
      match inode with
      | none => fault
      | some inode =>
          onFs (mknodDevice inode dev)
          return error
    else
      return error

/-- `sys_opendir` -/
def sysOpendir (path : Option CStr) : KernelM σ Int :=
  fileOpen sd path O_RDONLY S_IFDIR

/-- `sys_umask` -/
def sysUmask (mask : Word) : KernelM σ Int := do
  let proc ← currentProc
  setCurrentProc { proc with umask := mask &&& 0x1FF }
  return proc.umask.toNat

/-- The information about the root directory of the SD card. -/
def rootInfo : FatfsInodeInfo :=
  { (default : FatfsInodeInfo) with firstCluster := FAT_END_CLUSTER }

/-- The mode of the root directory of the SD card. -/
def fatRootMode : Word := S_IFDIR ||| 0x1ED

/-- `fatfs_mount_sd` -/
def fatfsMountSd (dir : BufId) : FsM σ Int := do
  match ← fatfsNewInode fatRootMode rootInfo with
  | none => return -ENOMEM
  | some root =>
      let result ← callSd sd.sdDetect
      let d ← readInode dir
      store dir (.inode { d with mode := d.mode ||| S_ISVTX, ramfsMount := some root })
      return if result = SD_DETECT_NONE then 1 else 0

def MS_REMOUNT : Long := 0x20

/-- The part of `sys_mount` after the directory is found. -/
def mountDir (dir : BufId) (mountflags : Long) : FsM σ Int := do
  let d ← readInode dir
  if d.op ≠ .ramfs then
    discard (inodeDeref dir)
    return -EINVAL
  else if ¬ S_ISDIR d.mode then
    discard (inodeDeref dir)
    return -ENOTDIR
  else if isMounted d.mode then
    discard (inodeDeref dir)
    return if mountflags &&& MS_REMOUNT ≠ 0 then 0 else -EBUSY
  else
    let error ← fatfsMountSd sd dir
    discard (inodeDeref dir)
    return error

/-- The path `/dev/mmcblk0`. -/
def devMmcblk0 : List Byte :=
  ['/', 'd', 'e', 'v', '/', 'm', 'm', 'c', 'b', 'l', 'k', '0'].map chr

/-- The name `vfat`. -/
def vfat : List Byte := ['v', 'f', 'a', 't'].map chr

/-- `sys_mount` -/
def sysMount (source target filesystemtype : Option CStr) (mountflags : Long) :
    KernelM σ Int := do
  match source, filesystemtype with
  | some source, some filesystemtype =>
      if source.chars ≠ devMmcblk0 then
        return -ENOTBLK
      else if filesystemtype.chars ≠ vfat then
        return -ENODEV
      else
        match target with
        | none => return 0
        | some target =>
            let (error, dir) ← inodeLookupPath sd true (some target) O_EXEC S_IFDIR
            if error < 0 then
              return error
            else
              match dir with
              | none => fault
              | some dir => onFs (mountDir sd dir mountflags)
  | _, _ => return -EFAULT

/-! ### Processes -/

/-- The buffer of the working directory of the first process. -/
def rootCwd : List Byte :=
  ['/', 'r', 'o', 'o', 't'].map chr ++ List.replicate 59 0

/-- The part of `proc_create` that initializes the process, as a child of `parent` if there is
one. -/
def newProc (parent : Option ProcId) : KernelM σ Proc := fun k =>
  match parent with
  | none => some ({ cwd := rootCwd, umask := 0x12 }, k)
  | some q => (k.processTable q).map fun p => ({ cwd := p.cwd, umask := p.umask }, k)

/-- `proc_create`: the new process, if there is room for it.  The memory of the process and of its
arguments is not modelled; if it is exhausted then `proc_create` changes nothing. -/
def procCreate (parent : Option ProcId) : KernelM σ (Option ProcId) := do
  let k ← getThe (Kernel σ)
  match (List.finRange CONFIG_PROC_MAX).find? fun pid => (k.processTable pid).isNone with
  | none => return none
  | some pid =>
      let proc ← newProc parent
      modifyThe (Kernel σ) fun k => k.setProc pid proc
      return some pid

/-- `open_dev_tty0` -/
def openDevTty0 (f : FileId) : KernelM σ Unit := do
  let file ← readFile f
  setFile f { file with op := some .basicTty }

/-- A store to a file descriptor of the process `pid`. -/
def setFd (pid : ProcId) (n : Fd) (f : FileId) : KernelM σ Unit := fun k =>
  (k.processTable pid).map fun p =>
    ((), k.setProc pid { p with fd := Function.update p.fd n (some f) })

/-- `proc_start_shell` -/
def procStartShell : KernelM σ Unit := do
  match ← procCreate none with
  | none => fault
  | some pid =>
      match ← fileNew O_RDWR 0x1B0 with
      | none => fault
      | some console =>
          openDevTty0 console
          setFd pid 0 console
          fileRef console
          setFd pid 1 console
          fileRef console
          setFd pid 2 console

/-- `file_init`, from any contents of `global_fd`. -/
def fileInit (files : FileId → File) : FileId → File := fun f => { files f with count := 0 }

/-- The state of the kernel before `proc_start_shell`. -/
def kernelInit (t : σ) (files : FileId → File) (tempPath : List Byte) : Kernel σ where
  fs := boot t
  globalFd := fileInit files
  processTable _ := none
  current := 0
  tempPath := tempPath

/-! ### The transition system -/

/-- A system call, or a phase of one. -/
inductive Syscall where
  | open (path : Option CStr) (flags mode : Word)
  | close (fd : Int)
  | readBegin (fd : Int) (null : Bool) (size : Word)
  | writeBegin (fd : Int) (null : Bool) (size : Word)
  | transferEnd
  | dup (oldfd : Int)
  | dup2 (oldfd newfd : Int)
  | fcntl (fd cmd value : Int)
  | chdir (path : Option CStr)
  | mkdir (path : Option CStr) (mode : Word)
  | mknod (path : Option CStr) (mode dev : Word)
  | opendir (path : Option CStr)
  | umask (mask : Word)
  | mount (source target filesystemtype : Option CStr) (mountflags : Long)

/-- The function of a system call. -/
def Syscall.run : Syscall → KernelM σ Int
  | .open path flags mode => sysOpen sd path flags mode
  | .close fd => sysClose fd
  | .readBegin fd null size => sysReadBegin fd null size
  | .writeBegin fd null size => sysWriteBegin fd null size
  | .transferEnd => sysTransferEnd
  | .dup oldfd => sysDup oldfd
  | .dup2 oldfd newfd => sysDup2 oldfd newfd
  | .fcntl fd cmd value => sysFcntl fd cmd value
  | .chdir path => sysChdir sd path
  | .mkdir path mode => sysMkdir sd path mode
  | .mknod path mode dev => sysMknod sd path mode dev
  | .opendir path => sysOpendir sd path
  | .umask mask => sysUmask mask
  | .mount source target filesystemtype mountflags =>
      sysMount sd source target filesystemtype mountflags

/-- The operation of the file in flight changes the position of the file, the information about a
FAT file and the state of the SD card. -/
def operate (posn : Long) (info : FatfsInodeInfo) (t : σ) : KernelM σ Unit := do
  let proc ← currentProc
  match proc.inFlight with
  | none => fault
  | some f =>
      let file ← readFile f
      setFile f { file with posn := posn }
      onFs (callSd fun _ => ((), t))
      match file.fatfsInfo with
      | none => pure ()
      | some j =>
          discard (onFs (readInfo (some j)))
          onFs (store j (.info info))

/-- What happens in the kernel: a process makes a system call, the operation of a file in flight
runs, or a process is created. -/
inductive Action (σ : Type) where
  | call (pid : ProcId) (c : Syscall)
  | operate (pid : ProcId) (posn : Long) (info : FatfsInodeInfo) (t : σ)
  | procCreate (parent : ProcId)

/-- The process `pid` makes the call `c`; a process that waits in a call of `sys_read` or `sys_write`
makes no other call. -/
def Ready (k : Kernel σ) (pid : ProcId) (c : Syscall) : Prop :=
  ∃ p, k.processTable pid = some p ∧ (p.inFlight = none ↔ c ≠ .transferEnd)

/-- The transition system of the kernel, from the state after `proc_start_shell` on. -/
def kernel : System (Kernel σ) (Action σ) where
  start k := ∃ t files tempPath, tempPath.length = CONFIG_PATH_MAX ∧
    procStartShell (kernelInit t files tempPath) = some ((), k)
  step k a k' :=
    match a with
    | .call pid c => Ready k pid c ∧ ∃ r, c.run sd { k with current := pid } = some (r, k')
    | .operate pid posn info t => operate posn info t { k with current := pid } = some ((), k')
    | .procCreate parent => ∃ r, procCreate (some parent) k = some (r, k')

end Mosnix.Os
