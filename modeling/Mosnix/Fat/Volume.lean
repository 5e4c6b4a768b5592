import Mosnix.Fat.Name

/-!
# Reading a FAT volume

The functions of `fatutils.c` and `fatfs.c` that follow a chain of clusters on the SD card, and
`sd_cluster_to_block` of `sdcard.c`.  The driver of the card is a parameter, with states `σ`: it
detects a card, and reads a block into the cache.  It may fail, and it may give other answers each
time it is called.
-/

namespace Mosnix.Fat

/-! ### The driver of the SD card -/

def SD_DETECT_NONE : Byte := 0

/-- Size of a block on an SD card. -/
def SD_BLKSIZE : ℕ := 512

def FAT_END_CLUSTER : Long := 0x0FFFFFF8

/-- The members of `sd_info` that the file system reads; `block` gives the byte at an offset of the
cached block. -/
structure SdInfo where
  clusterSize : Byte
  clusterShift : Byte
  fat1 : Long
  root : Long
  clusterOffset : Long
  clusterCount : Long
  block : ℕ → Byte

/-- The driver of the SD card: the value of `sd_info`, and the functions `sd_detect` and
`sd_cache_read` with their results. -/
structure SdDriver (σ : Type) where
  info : σ → SdInfo
  sdDetect : σ → Byte × σ
  sdCacheRead : Long → σ → Byte × σ

/-- The 16-bit value at an offset of a block. -/
def word (block : ℕ → Byte) (offset : ℕ) : Word :=
  block (offset + 1) ++ block offset

/-- The 32-bit value at an offset of a block. -/
def long (block : ℕ → Byte) (offset : ℕ) : Long :=
  word block (offset + 2) ++ word block offset

/-- The directory entry at an offset of a block. -/
def dirEntryAt (block : ℕ → Byte) (offset : ℕ) : DirEntry where
  name := (List.range FAT_NAME_LEN).map fun i => block (offset + i)
  attrs := block (offset + 11)
  clusterHigh := word block (offset + 20)
  clusterLow := word block (offset + 26)
  size := long block (offset + 28)
  name_length := by rw [List.length_map, List.length_range]

/-- `sd_cluster_to_block` -/
def sdClusterToBlock (info : SdInfo) (cluster : Long) : Long :=
  if cluster < 2 then 0
  else if cluster - 2 ≥ info.clusterCount then 0
  else info.clusterOffset + ((cluster - 2) <<< info.clusterShift.toNat)

section Driver

variable {σ : Type} (sd : SdDriver σ)

/-! ### Chains of clusters -/

/-- `fat_get` -/
def fatGet (cluster : Long) : StateM σ (Option Long) := do
  let info := sd.info (← get)
  if cluster > info.clusterCount + 1 then
    return none
  else
    let status ← sd.sdCacheRead (info.fat1 + cluster >>> 7)
    if status ≠ 0 then
      return none
    else
      let offset := (cluster &&& 0x7F).toNat
      return some (long (sd.info (← get)).block (4 * offset) &&& 0x0FFFFFFF)

/-- `fat_get_next_cluster` -/
def fatGetNextCluster (cluster : Long) : StateM σ Long := do
  match ← fatGet sd cluster with
  | some next => return if next < FAT_END_CLUSTER then next else 0
  | none => return 0

/-- `struct fatfs_inode_info` -/
structure FatfsInodeInfo where
  firstCluster : Long
  size : Long
  cluster : Long
  block : Long
  offset : BitVec 9
  blocksLeft : BitVec 7
  deriving DecidableEq, Inhabited

/-- `fatfs_info_new`: whether the cluster has a block, and the changed structure. -/
def fatfsInfoNew (sdInfo : SdInfo) (info : FatfsInodeInfo) (cluster size : Long) :
    Bool × FatfsInodeInfo :=
  let block := sdClusterToBlock sdInfo cluster
  let info := { info with firstCluster := cluster, cluster := cluster, size := size, block := block }
  if block = 0 then (false, info)
  else (true, { info with offset := 0, blocksLeft := sdInfo.clusterSize.setWidth 7 })

/-- The part of `fatfs_info_read_prepare` that advances to the next block or cluster, at the end of
a block: the result if the function returns, or the changed structure. -/
def fatfsInfoAdvance (info : FatfsInodeInfo) :
    StateM σ (Except (Int × FatfsInodeInfo) FatfsInodeInfo) := do
  let blocksLeft : Byte := info.blocksLeft.setWidth 8 - 1
  if blocksLeft = 0 then
    let cluster ← fatGetNextCluster sd info.cluster
    let info := { info with cluster := cluster }
    if cluster = 0 then
      return .error (0, { info with block := 0 })
    else
      let sdInfo := sd.info (← get)
      let block := sdClusterToBlock sdInfo cluster
      if block = 0 then
        return .error (- EIO, info)
      else
        return .ok { info with
          block := block, blocksLeft := sdInfo.clusterSize.setWidth 7, offset := 0 }
  else
    return .ok { info with
      block := info.block + 1, blocksLeft := blocksLeft.setWidth 7, offset := 0 }

/-- The part of `fatfs_info_read_prepare` that reads the current block. -/
def fatfsInfoReadBlock (info : FatfsInodeInfo) : StateM σ (Int × FatfsInodeInfo) := do
  let status ← sd.sdCacheRead info.block
  if status ≠ 0 then
    return (- EIO, info)
  else
    return (SD_BLKSIZE - info.offset.toNat, info)

/-- `fatfs_info_read_prepare`: the result, and the changed structure.  The data is at the offset
`info->offset` of the cached block. -/
def fatfsInfoReadPrepare (info : FatfsInodeInfo) : StateM σ (Int × FatfsInodeInfo) := do
  if info.block = 0 then
    return (0, info)
  else if info.offset.toNat ≥ SD_BLKSIZE then
    match ← fatfsInfoAdvance sd info with
    | .error r => return r
    | .ok info => fatfsInfoReadBlock sd info
  else
    fatfsInfoReadBlock sd info

/-- The size of `struct fat_dir_entry`. -/
def SIZEOF_FAT_DIR_ENTRY : ℕ := 32

/-- `fatfs_info_read_dirent`: the result with the entry that was read, and the changed
structure. -/
def fatfsInfoReadDirent (info : FatfsInodeInfo) :
    StateM σ (Except Int DirEntry × FatfsInodeInfo) := do
  let (size, info) ← fatfsInfoReadPrepare sd info
  if size ≤ 0 then
    return (.error size, info)
  else if size ≤ SIZEOF_FAT_DIR_ENTRY then
    return (.error (-EINVAL), info)
  else
    let entry := dirEntryAt (sd.info (← get)).block info.offset.toNat
    return (.ok entry, { info with offset := info.offset + BitVec.ofNat 9 SIZEOF_FAT_DIR_ENTRY })

/-- The loop of `fatfs_lookup`: the entry with the name `name83` among the next `maxEntries` ones,
or the error. -/
def fatfsLookupLoop (name83 : List Byte) : ℕ → FatfsInodeInfo → StateM σ (Except Int DirEntry)
  | 0, _ => return .error (-ENOENT)
  | maxEntries + 1, reader => do
      let (result, reader) ← fatfsInfoReadDirent sd reader
      match result with
      | .error result => return .error (if result < 0 then result else -ENOENT)
      | .ok entry =>
          if entry.name.head? = some FAT_DIR_END then
            return .error (-ENOENT)
          else if entry.name.head? = some FAT_DIR_DELETED then
            fatfsLookupLoop name83 maxEntries reader
          else if entry.attrs &&& FAT_ATTR_BLOCKED ≠ 0 then
            fatfsLookupLoop name83 maxEntries reader
          else if entry.name = name83 then
            return .ok entry
          else
            fatfsLookupLoop name83 maxEntries reader

/-- The first cluster of a directory.  The value `FAT_END_CLUSTER` stands for the root directory of
the SD card, which has to be detected again. -/
def fatfsDirCluster (cluster : Long) : StateM σ (Option Long) := do
  if cluster = FAT_END_CLUSTER then
    let detected ← sd.sdDetect
    if detected = SD_DETECT_NONE then
      return none
    else
      return some (sd.info (← get)).root
  else
    return some cluster

/-- The search of `fatfs_lookup`, from the first cluster of the directory on. -/
def fatfsSearch (name83 : List Byte) (cluster : Long) : StateM σ (Except Int DirEntry) := do
  let opened := fatfsInfoNew (sd.info (← get)) default cluster 0
  if opened.1 then
    fatfsLookupLoop sd name83 65535 opened.2
  else
    return .error (- EIO)

/-- The part of `fatfs_lookup` before an inode is created: the entry with the name `name` of the
directory with the first cluster `cluster`, or the error. -/
def fatfsFindEntry (cluster : Long) (name : List Byte) : StateM σ (Except Int DirEntry) := do
  match fatFormatName name with
  | none => return .error (-EINVAL)
  | some name83 =>
      match ← fatfsDirCluster sd cluster with
      | none => return .error (-ENOENT)
      | some cluster => fatfsSearch sd name83 cluster

/-! ### Errors -/

/-- The search of a directory fails with an error code. -/
theorem fatfsLookupLoop_error {name83 : List Byte} {maxEntries : ℕ} {reader : FatfsInodeInfo}
    {t : σ} {e : Int} (h : (fatfsLookupLoop sd name83 maxEntries reader t).1 = .error e) :
  e < 0
  := by
  induction maxEntries generalizing reader t with
  | zero =>
      cases h
      decide
  | succ n ih =>
      rw [fatfsLookupLoop] at h
      simp only [bind, StateT.bind] at h
      generalize fatfsInfoReadDirent sd reader t = r at h
      obtain ⟨⟨result, reader'⟩, t'⟩ := r
      cases result with
      | error result =>
          cases h
          split_ifs with hneg
          · apply hneg
          · decide
      | ok entry =>
          dsimp only at h
          split_ifs at h
          · cases h
            decide
          · apply ih h
          · apply ih h
          · cases h
          · apply ih h

/-- The search for an entry fails with an error code. -/
theorem fatfsFindEntry_error {cluster : Long} {name : List Byte} {t : σ} {e : Int}
    (h : (fatfsFindEntry sd cluster name t).1 = .error e) :
  e < 0
  := by
  unfold fatfsFindEntry at h
  cases hname : fatFormatName name with
  | none =>
      rw [hname] at h
      cases h
      decide
  | some name83 =>
      rw [hname] at h
      simp only [bind, StateT.bind] at h
      generalize fatfsDirCluster sd cluster t = r at h
      obtain ⟨found, t'⟩ := r
      cases found with
      | none =>
          cases h
          decide
      | some cluster' =>
          change ((if (fatfsInfoNew (sd.info t') default cluster' 0).1 then
              fatfsLookupLoop sd name83 65535 (fatfsInfoNew (sd.info t') default cluster' 0).2
            else pure (.error (- EIO)) : StateM σ (Except Int DirEntry)) t').1 = _ at h
          split_ifs at h
          · apply fatfsLookupLoop_error sd h
          · cases h
            decide

end Driver

end Mosnix.Fat
