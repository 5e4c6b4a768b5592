import Mosnix.Fs.Inode
import Mosnix.Util

/-!
# Looking up and creating inodes

The lookup and creation of inodes in the RAM file system (`ramfs.c`) and in the FAT file system
(`fatfs.c`), and `inode_lookup` of `inode.c`, which walks along a path.  The configuration is that
of `config.h`: no symbolic links, no users other than root, and no entries for `.` and `..` in
directories.
-/

namespace Mosnix.Fs

open Fat Program

variable {σ : Type} (sd : SdDriver σ)

/-! ### The FAT file system -/

/-- The mode of the inode of a directory entry. -/
def fatMode (entry : DirEntry) : Word :=
  (if entry.attrs &&& FAT_ATTR_READ_ONLY ≠ 0 then 0x16D else 0x1ED)
    ||| (if entry.attrs &&& FAT_ATTR_DIRECTORY ≠ 0 then S_IFDIR else S_IFREG)

/-- The information about the file of a directory entry. -/
def fatInfo (entry : DirEntry) : FatfsInodeInfo :=
  { (default : FatfsInodeInfo) with
    firstCluster := entry.clusterHigh ++ entry.clusterLow
    size := entry.size }

/-- The part of `fatfs_create_inode` and `fatfs_mount_sd` that allocates an inode and its
information. -/
def fatfsNewInode (mode : Word) (x : FatfsInodeInfo) : FsM σ (Option BufId) := do
  match ← inodeAlloc .fatfs with
  | none => return none
  | some b =>
      match ← kmallocBufAlloc with
      | none =>
          discard (inodeDeref b)
          return none
      | some info =>
          let i ← readInode b
          store info (.info x)
          store b (.inode { i with fatfsInfo := some info, mode := mode })
          return some b

/-- `fatfs_create_inode` -/
def fatfsCreateInode (entry : DirEntry) : FsM σ (Option BufId) :=
  fatfsNewInode (fatMode entry) (fatInfo entry)

/-- `fatfs_lookup`: the result, and the inode on success. -/
def fatfsLookup (dir : BufId) (name : List Byte) : FsM σ (Int × Option BufId) := do
  let i ← readInode dir
  if ¬ S_ISDIR i.mode then
    return (-ENOTDIR, none)
  else
    let info ← readInfo i.fatfsInfo
    match ← callSd (fatfsFindEntry sd info.firstCluster name) with
    | .error error => return (error, none)
    | .ok entry =>
        match ← fatfsCreateInode entry with
        | none => return (-ENOMEM, none)
        | some b => return (0, some b)

/-! ### The RAM file system -/

/-- Maximum size of a name in a directory entry. -/
def RAMFS_MAX_NAME : ℕ := 13

/-- The loop of `ramfs_lookup`, from an entry on; `fuel` bounds the number of entries. -/
def ramfsLookupLoop (name : List Byte) : ℕ → Option BufId → FsM σ (Int × Option BufId)
  | _, none => return (-ENOENT, none)
  | 0, some _ => fault
  | fuel + 1, some b => do
      let dirent ← readDirent b
      if dirent.name = name then
        match dirent.inode with
        | some found =>
            inodeRef found
            return (0, some found)
        | none => return (-EPERM, none)
      else
        ramfsLookupLoop name fuel dirent.next

/-- `ramfs_lookup`: the result, and the inode on success.  Only inodes of the FAT file system are
mounted. -/
def ramfsLookup (dir : BufId) (name : List Byte) : FsM σ (Int × Option BufId) := do
  let i ← readInode dir
  if ¬ S_ISDIR i.mode then
    return (-ENOTDIR, none)
  else if isMounted i.mode then
    match i.ramfsMount with
    | some mount =>
        let m ← readInode mount
        match m.op with
        | .fatfs => fatfsLookup sd mount name
        | .ramfs => fault
    | none => return (-ENOENT, none)
  else
    ramfsLookupLoop name CONFIG_NUM_BUFFERS i.ramfsDir

/-- The loop of `ramfs_mknod` that adds the entry `new` after the last entry, from the entry `b`
on. -/
def appendDirent (new : BufId) : ℕ → BufId → FsM σ Unit
  | 0, _ => fault
  | fuel + 1, b => do
      let dirent ← readDirent b
      match dirent.next with
      | none => store b (.dirent { dirent with next := some new })
      | some next => appendDirent new fuel next

/-- The part of `ramfs_mknod` that adds the entry `new` to the end of the directory `dir`. -/
def ramfsAddDirent (dir : BufId) (i : Inode) (new : BufId) : FsM σ Unit :=
  match i.ramfsDir with
  | none => store dir (.inode { i with ramfsDir := some new })
  | some first => appendDirent new CONFIG_NUM_BUFFERS first

/-- `ramfs_mknod`: the result, and the inode on success.  Every caller asks for the inode. -/
def ramfsMknod (dir : BufId) (name : List Byte) (mode : Word) : FsM σ (Int × Option BufId) := do
  let i ← readInode dir
  if ¬ S_ISDIR i.mode then
    return (-ENOTDIR, none)
  else if name.length > RAMFS_MAX_NAME then
    return (-ENAMETOOLONG, none)
  else
    match ← kmallocBufAlloc with
    | none => return (-ENOMEM, none)
    | some dirent =>
        match ← inodeAlloc .ramfs with
        | none =>
            kmallocBufFree (some dirent)
            return (-ENOMEM, none)
        | some child =>
            let c ← readInode child
            store child (.inode { c with mode := mode })
            store dirent (.dirent { name := name, inode := some child })
            ramfsAddDirent dir i dirent
            inodeRef child
            return (0, some child)

/-- The mode of the root directory, `drwxrwxr-x`. -/
def rootMode : Word := S_IFDIR ||| 0x1FD

/-- `ramfs_init` -/
def ramfsInit : FsM σ Unit := do
  match ← inodeAlloc .ramfs with
  | none => fault
  | some root =>
      let i ← readInode root
      store root (.inode { i with mode := rootMode })
      inodeRef root
      inodeRef root
      modifyThe (FileSystem σ) fun s => { s with root := root }

/-! ### Paths -/

def F_OK : Word := 0
def X_OK : Word := 1
def W_OK : Word := 2
def R_OK : Word := 3

def O_RDONLY : Word := 0x0000
def O_WRONLY : Word := 0x0001
def O_RDWR : Word := 0x0002
def O_EXEC : Word := 0x0003
def O_ACCMODE : Word := 0x0003
def O_CREAT : Word := 0x0040
def O_EXCL : Word := 0x0080

/-- `oflag_to_access_mode` -/
def oflagToAccessMode (oflag : Word) : Word :=
  if oflag &&& O_ACCMODE = O_RDONLY then R_OK
  else if oflag &&& O_ACCMODE = O_WRONLY then W_OK
  else if oflag &&& O_ACCMODE = O_RDWR then R_OK ||| W_OK
  else X_OK

/-- `inode_access` -/
def inodeAccess (inode : Inode) (mode : Word) : Int :=
  if mode = F_OK then 0
  else
    let imode := inode.mode >>> 6
    if mode &&& imode &&& 7 = mode then 0 else -EACCES

/-- The function `lookup` of the operations of an inode. -/
def InodeOps.lookup (op : InodeOps) (dir : BufId) (name : List Byte) :
    FsM σ (Int × Option BufId) :=
  match op with
  | .ramfs => ramfsLookup sd dir name
  | .fatfs => fatfsLookup sd dir name

/-- The function `mknod` of the operations of an inode, which `fatfs_operations` does not have. -/
def InodeOps.mknod (op : InodeOps) :
    Option (BufId → List Byte → Word → FsM σ (Int × Option BufId)) :=
  match op with
  | .ramfs => some ramfsMknod
  | .fatfs => none

/-- A reference to an inode is given up and an error is returned. -/
def derefAndReturn (node : BufId) (error : Int) : FsM σ (Int × Option BufId) := do
  discard (inodeDeref node)
  return (error, none)

/-- A referenced inode is returned, if the caller of `inode_lookup` asks for it. -/
def returnInode (wanted : Bool) (node : BufId) (result : Int) : FsM σ (Int × Option BufId) := do
  if wanted then
    return (result, some node)
  else
    discard (inodeDeref node)
    return (result, none)

/-- The part of `inode_lookup` that creates the last component of the path. -/
def inodeLookupCreate (wanted : Bool) (node : BufId) (i : Inode) (name : List Byte) (mode : Word) :
    FsM σ (Int × Option BufId) := do
  if inodeAccess i W_OK < 0 then
    derefAndReturn node (inodeAccess i W_OK)
  else
    match InodeOps.mknod i.op with
    | none => derefAndReturn node (-EROFS)
    | some mknod =>
        let (error, child) ← mknod node name mode
        discard (inodeDeref node)
        if error < 0 then
          return (error, none)
        else
          match child with
          | none => fault
          | some child => returnInode wanted child 1

/-- The part of `inode_lookup` after the walk along the path, which checks the node that was
found. -/
def inodeLookupCheck (wanted : Bool) (node : BufId) (oflag mode : Word) :
    FsM σ (Int × Option BufId) := do
  let i ← readInode node
  let error := inodeAccess i (oflagToAccessMode oflag)
  if error < 0 then
    derefAndReturn node error
  else if (mode ^^^ i.mode) &&& S_IFMT ≠ 0 then
    if S_ISDIR mode then
      derefAndReturn node (-ENOTDIR)
    else if S_ISDIR i.mode then
      derefAndReturn node (-EISDIR)
    else
      derefAndReturn node (-EACCES)
  else if oflag &&& O_CREAT ≠ 0 ∧ oflag &&& O_EXCL ≠ 0 then
    derefAndReturn node (-EEXIST)
  else
    returnInode wanted node 0

/-- The loop of `inode_lookup`, from the referenced node `node` on, along the rest `path` of the
path; `fuel` bounds the number of components. -/
def inodeLookupLoop (wanted : Bool) (oflag mode : Word) :
    ℕ → BufId → List Byte → FsM σ (Int × Option BufId)
  | 0, _, _ => fault
  | fuel + 1, node, path => do
      if path = [] then
        inodeLookupCheck wanted node oflag mode
      else
        let i ← readInode node
        if ¬ S_ISDIR i.mode then
          derefAndReturn node (-ENOTDIR)
        else if inodeAccess i X_OK < 0 then
          derefAndReturn node (inodeAccess i X_OK)
        else
          let namelen := strlenPathComponent path CONFIG_PATH_MAX
          let name := path.take namelen
          let isLast := path.drop namelen = []
          let (error, child) ← InodeOps.lookup sd i.op node name
          if error = -ENOENT ∧ isLast ∧ oflag &&& O_CREAT ≠ 0 then
            inodeLookupCreate wanted node i name mode
          else if error < 0 then
            derefAndReturn node error
          else
            match child with
            | none => fault
            | some child =>
                discard (inodeDeref node)
                let c ← readInode child
                if S_ISLNK c.mode then
                  derefAndReturn child (-EINVAL)
                else if isLast then
                  inodeLookupCheck wanted child oflag mode
                else
                  inodeLookupLoop wanted oflag mode fuel child (path.drop (namelen + 1))

/-- `inode_lookup`, on the characters of a path: the result, and the value of `*inode` if the
argument `inode` is not NULL.  Symbolic links are not supported, so `follow` is not used. -/
def inodeLookup (wanted : Bool) (pathname : List Byte) (oflag mode : Word) :
    FsM σ (Int × Option BufId) := do
  let node ← inodeGetRoot
  inodeLookupLoop sd wanted oflag mode (pathname.length + 1) node (pathname.drop 1)

end Mosnix.Fs
