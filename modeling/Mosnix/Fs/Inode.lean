import Mosnix.Lib.Program
import Mosnix.Fat.Volume

/-!
# Inodes

The buffer cache of `kmalloc.c`, the structures that are kept in it, and the reference counts of
inodes with the functions that release the inodes of the two file systems.

A buffer is modelled by what it is used for, and the free list by the list of its buffers.  A
function faults if it follows a pointer that is NULL, or that points to a buffer used for something
else.
-/

namespace Mosnix.Fs

open Fat Program

/-! ### The buffer cache -/

/-- The number of buffers in the buffer cache. -/
def CONFIG_NUM_BUFFERS : ℕ := 100

instance : NeZero CONFIG_NUM_BUFFERS := ⟨by decide⟩

/-- A buffer of the buffer cache. -/
abbrev BufId := Fin CONFIG_NUM_BUFFERS

/-- The operations of an inode: `ramfs_operations` or `fatfs_operations`. -/
inductive InodeOps where
  | ramfs
  | fatfs
  deriving DecidableEq

/-- `struct inode`.  The members of the union are fields, of which the code uses those that belong
to the type of the inode. -/
structure Inode where
  op : InodeOps
  count : Int
  mode : Word := 0
  fatfsInfo : Option BufId := none
  ramfsData : Option BufId := none
  ramfsSize : Word := 0
  ramfsDir : Option BufId := none
  ramfsMount : Option BufId := none
  device : Word := 0
  deriving DecidableEq

/-- `struct ramfs_dirent`, with the characters of the name. -/
structure RamfsDirent where
  name : List Byte
  inode : Option BufId
  next : Option BufId := none
  deriving DecidableEq

/-- What a buffer is used for; a buffer that is free, or has just been allocated, is `raw`. -/
inductive Buffer where
  | raw
  | inode (i : Inode)
  | dirent (d : RamfsDirent)
  | data (next : Option BufId)
  | info (i : FatfsInodeInfo)
  deriving DecidableEq

/-- The state of the file system: the buffers, the free list, the root inode, and the driver of the
SD card. -/
@[ext]
structure FileSystem (σ : Type) where
  buf : BufId → Buffer
  freeBuffers : List BufId
  root : BufId
  sd : σ

/-- Programs on the file system. -/
abbrev FsM (σ : Type) := Program (FileSystem σ)

variable {σ : Type}

/-- The file system with a buffer replaced. -/
def FileSystem.set (s : FileSystem σ) (b : BufId) (x : Buffer) : FileSystem σ :=
  { s with buf := Function.update s.buf b x }

/-- A store to a buffer. -/
def store (b : BufId) (x : Buffer) : FsM σ Unit :=
  modifyThe (FileSystem σ) fun s => s.set b x

/-- `kmalloc_buf_alloc` -/
def kmallocBufAlloc : FsM σ (Option BufId) := fun s =>
  match s.freeBuffers with
  | [] => some (none, s)
  | b :: free => some (some b, { s.set b .raw with freeBuffers := free })

/-- `kmalloc_buf_free` -/
def kmallocBufFree (b : Option BufId) : FsM σ Unit := fun s =>
  match b with
  | none => some ((), s)
  | some b => some ((), { s.set b .raw with freeBuffers := b :: s.freeBuffers })

/-- `kmalloc_init` puts each buffer in turn at the head of the free list.  The root inode is not
allocated yet. -/
def kmallocInit (sd : σ) : FileSystem σ where
  buf _ := .raw
  freeBuffers := (List.finRange CONFIG_NUM_BUFFERS).reverse
  root := ⟨0, by decide⟩
  sd := sd

/-- The inode that a pointer points to. -/
def readInode (b : BufId) : FsM σ Inode := fun s =>
  match s.buf b with
  | .inode i => some (i, s)
  | _ => none

/-- The directory entry that a pointer points to. -/
def readDirent (b : BufId) : FsM σ RamfsDirent := fun s =>
  match s.buf b with
  | .dirent d => some (d, s)
  | _ => none

/-- The link of the fragment of data that a pointer points to. -/
def readData (b : BufId) : FsM σ (Option BufId) := fun s =>
  match s.buf b with
  | .data next => some (next, s)
  | _ => none

/-- The structure that the pointer `fatfs_info` points to. -/
def readInfo (b : Option BufId) : FsM σ FatfsInodeInfo := fun s =>
  match b with
  | none => none
  | some b =>
      match s.buf b with
      | .info i => some (i, s)
      | _ => none

/-- A call of the driver of the SD card. -/
def callSd {α : Type} (f : StateM σ α) : FsM σ α :=
  onPart FileSystem.sd (fun s sd => { s with sd := sd }) f

/-! ### Modes -/

def S_IFMT : Word := 0xF000
def S_IFDIR : Word := 0x4000
def S_IFCHR : Word := 0x2000
def S_IFBLK : Word := 0x6000
def S_IFREG : Word := 0x8000
def S_IFLNK : Word := 0xA000
def S_ISUID : Word := 0x0800
def S_ISGID : Word := 0x0400
def S_ISVTX : Word := 0x0200
def S_IXUSR : Word := 0x0040

def S_ISDIR (mode : Word) : Bool := mode &&& S_IFMT == S_IFDIR
def S_ISCHR (mode : Word) : Bool := mode &&& S_IFMT == S_IFCHR
def S_ISBLK (mode : Word) : Bool := mode &&& S_IFMT == S_IFBLK
def S_ISREG (mode : Word) : Bool := mode &&& S_IFMT == S_IFREG
def S_ISLNK (mode : Word) : Bool := mode &&& S_IFMT == S_IFLNK

/-- The inode of a directory of the RAM file system is a mount point. -/
def isMounted (mode : Word) : Bool := mode &&& S_ISVTX != 0

/-! ### Reference counts -/

/-- `inode_alloc` -/
def inodeAlloc (op : InodeOps) : FsM σ (Option BufId) := do
  match ← kmallocBufAlloc with
  | none => return none
  | some b =>
      store b (.inode { op := op, count := 1 })
      return some b

/-- `inode_ref` -/
def inodeRef (b : BufId) : FsM σ Unit := do
  let i ← readInode b
  store b (.inode { i with count := i.count + 1 })

/-- The names `.` and `..`, for which `ramfs_is_dot` or `ramfs_is_dot_dot` holds. -/
def isDots (name : List Byte) : Bool :=
  name == [chr '.'] || name == [chr '.', chr '.']

/-- The inode of an entry of a directory that is released loses a reference, by `deref`. -/
def releaseChild (deref : BufId → FsM σ Int) (current : RamfsDirent) : FsM σ Unit :=
  if isDots current.name then return ()
  else
    match current.inode with
    | none => fault
    | some child => discard (deref child)

/-- The loop of `ramfs_release` over the entries of a directory; `fuel` bounds their number. -/
def releaseDirents (deref : BufId → FsM σ Int) : ℕ → Option BufId → FsM σ Unit
  | _, none => return ()
  | 0, some _ => fault
  | fuel + 1, some b => do
      let current ← readDirent b
      releaseChild deref current
      kmallocBufFree (some b)
      releaseDirents deref fuel current.next

/-- The loop of `ramfs_release` over the data of a file. -/
def releaseData : ℕ → Option BufId → FsM σ Unit
  | _, none => return ()
  | 0, some _ => fault
  | fuel + 1, some b => do
      let next ← readData b
      kmallocBufFree (some b)
      releaseData fuel next

/-- `ramfs_release` -/
def ramfsRelease (deref : BufId → FsM σ Int) (inode : Inode) : FsM σ Int := do
  if S_ISDIR inode.mode then
    releaseDirents deref CONFIG_NUM_BUFFERS inode.ramfsDir
    if isMounted inode.mode then
      match inode.ramfsMount with
      | none => return 0
      | some mount =>
          discard (deref mount)
          return 0
    else
      return 0
  else if S_ISREG inode.mode || S_ISLNK inode.mode then
    releaseData CONFIG_NUM_BUFFERS inode.ramfsData
    return 0
  else
    return 0

/-- `fatfs_release` -/
def fatfsRelease (inode : Inode) : FsM σ Int := do
  kmallocBufFree inode.fatfsInfo
  return 0

/-- The function `release` of the operations of an inode. -/
def InodeOps.release (deref : BufId → FsM σ Int) (inode : Inode) : FsM σ Int :=
  match inode.op with
  | .ramfs => ramfsRelease deref inode
  | .fatfs => fatfsRelease inode

/-- `inode_deref`, with a bound on the depth of the directories that are released. -/
def inodeDerefLoop : ℕ → BufId → FsM σ Int
  | 0, _ => fault
  | fuel + 1, b => do
      let i ← readInode b
      let i := { i with count := i.count - 1 }
      store b (.inode i)
      if i.count ≤ 0 then
        let result ← InodeOps.release (inodeDerefLoop fuel) i
        kmallocBufFree (some b)
        return result
      else
        return 0

/-- `inode_deref` -/
def inodeDeref (b : BufId) : FsM σ Int :=
  inodeDerefLoop (CONFIG_NUM_BUFFERS + 1) b

/-- `inode_get_root` -/
def inodeGetRoot : FsM σ BufId := do
  let s ← getThe (FileSystem σ)
  inodeRef s.root
  return s.root

end Mosnix.Fs
