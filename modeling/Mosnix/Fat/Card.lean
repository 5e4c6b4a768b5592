import Mosnix.Fat.Volume

/-!
# Volumes on a card

A FAT32 volume is the geometry of a card and the contents of its blocks.  A directory or a file is a
chain of clusters, and its entries or bytes are those of the blocks of the clusters in order.  A
driver serves a volume if its reads succeed and give the contents of the blocks.

The functions of `fatfs.c` do not get past the first block of a chain: the offset in a block has 9
bits, so that it is never the size of a block, and the last entry of a block is refused.  For them a
directory is a cursor on the entries of its first block but the last, with an error at the end
(`Remaining`).
-/

namespace Mosnix.Fat

/-! ### Volumes -/

/-- A FAT32 volume.  Its clusters are on the card, after the first block. -/
structure Volume where
  clusterShift : Byte
  fat1 : Long
  root : Long
  clusterOffset : Long
  clusterCount : Long
  disk : Long → ℕ → Byte
  shift_le : clusterShift.toNat ≤ 7
  offset_pos : 0 < clusterOffset.toNat
  fits : clusterOffset.toNat + clusterCount.toNat * 2 ^ clusterShift.toNat ≤ 2 ^ 32

variable {cs : List Long} {block block' : ℕ → Byte} {offset : ℕ}

namespace Volume

variable (v : Volume) {c : Long} {info : SdInfo}

/-- The number of blocks in a cluster. -/
def clusterSize : ℕ := 2 ^ v.clusterShift.toNat

/-- The number of a cluster of the volume. -/
def Valid (c : Long) : Prop :=
  2 ≤ c.toNat ∧ c.toNat < v.clusterCount.toNat + 2

/-- The first block of a cluster. -/
def firstBlock (c : Long) : Long :=
  BitVec.ofNat 32 (v.clusterOffset.toNat + (c.toNat - 2) * v.clusterSize)

/-- The entry of a cluster in the FAT. -/
def next (c : Long) : Long :=
  long (v.disk (v.fat1 + c >>> 7)) (4 * (c &&& 0x7F).toNat) &&& 0x0FFFFFFF

/-- A chain of clusters that starts at `c`. -/
inductive Chain : Long → List Long → Prop where
  | last {c : Long} : v.Valid c → FAT_END_CLUSTER ≤ v.next c → Chain c [c]
  | cons {c : Long} {cs : List Long} :
      v.Valid c → v.next c < FAT_END_CLUSTER → Chain (v.next c) cs → Chain c (c :: cs)

/-- The blocks of a chain of clusters. -/
def blocks (cs : List Long) : List Long :=
  cs.flatMap fun c => (List.range v.clusterSize).map fun j => v.firstBlock c + BitVec.ofNat 32 j

/-- The directory entry with the number `i` of a block. -/
def entryAt (b : Long) (i : ℕ) : DirEntry :=
  dirEntryAt (v.disk b) (SIZEOF_FAT_DIR_ENTRY * i)

/-- The directory entries in a chain of clusters. -/
def entries (cs : List Long) : List DirEntry :=
  (v.blocks cs).flatMap fun b => (List.range 16).map (v.entryAt b)

/-- The bytes in a chain of clusters. -/
def bytes (cs : List Long) : List Byte :=
  (v.blocks cs).flatMap fun b => (List.range SD_BLKSIZE).map (v.disk b)

/-- The entries of the first block of a cluster, without the last one. -/
def firstEntries (c : Long) : List DirEntry :=
  (List.range 15).map (v.entryAt (v.firstBlock c))

variable {v}

/-- A chain starts with a valid cluster. -/
theorem Chain.valid (h : v.Chain c cs) : v.Valid c := by
  cases h with
  | last h => apply h
  | cons h => apply h

theorem Chain.eq_cons (h : v.Chain c cs) : ∃ cs', cs = c :: cs' := by
  cases h with
  | last => exact ⟨[], rfl⟩
  | cons => exact ⟨_, rfl⟩

/-- A chain starts with the first block of its first cluster. -/
theorem Chain.blocks_eq (h : v.Chain c cs) :
  ∃ bs, v.blocks cs = v.firstBlock c :: bs
  := by
  obtain ⟨cs', rfl⟩ := h.eq_cons
  obtain ⟨n, hn⟩ : ∃ n, v.clusterSize = n + 1 :=
    Nat.exists_eq_add_one.mpr (Nat.two_pow_pos _)
  rw [blocks, List.flatMap_cons, hn, List.range_succ_eq_map, List.map_cons, List.cons_append]
  exact ⟨_, congrArg (· :: _) (BitVec.add_zero _)⟩

/-- A directory starts with the entries of its first block. -/
theorem Chain.entries_eq (h : v.Chain c cs) :
  ∃ rest, v.entries cs = v.firstEntries c ++ rest
  := by
  obtain ⟨bs, hbs⟩ := h.blocks_eq
  have hrange : List.range 16 = List.range 15 ++ [15] := List.range_succ
  rw [entries, hbs, List.flatMap_cons, hrange, List.map_append, List.append_assoc]
  exact ⟨_, rfl⟩

/-- The members of `sd_info` for a volume. -/
structure Describes (v : Volume) (info : SdInfo) : Prop where
  clusterSize : info.clusterSize = BitVec.ofNat 8 v.clusterSize
  clusterShift : info.clusterShift = v.clusterShift
  fat1 : info.fat1 = v.fat1
  root : info.root = v.root
  clusterOffset : info.clusterOffset = v.clusterOffset
  clusterCount : info.clusterCount = v.clusterCount

/-- The blocks of a cluster are numbers of 32 bits. -/
theorem Valid.firstBlock_lt (h : v.Valid c) :
  v.clusterOffset.toNat + (c.toNat - 2) * v.clusterSize < 2 ^ 32
  := by
  have hlt : (c.toNat - 2) * v.clusterSize < v.clusterCount.toNat * v.clusterSize := by
    apply Nat.mul_lt_mul_of_pos_right _ (Nat.two_pow_pos _)
    have := h.1
    have := h.2
    omega
  have hfits : v.clusterOffset.toNat + v.clusterCount.toNat * v.clusterSize ≤ 2 ^ 32 := v.fits
  omega

theorem Valid.firstBlock_ne_zero (h : v.Valid c) : v.firstBlock c ≠ 0 := by
  intro hzero
  have htoNat := congrArg BitVec.toNat hzero
  rw [firstBlock, BitVec.toNat_ofNat, Nat.mod_eq_of_lt h.firstBlock_lt] at htoNat
  have := v.offset_pos
  simp at htoNat
  omega

theorem not_lt_two {c : Long} : ¬ c < 2 ↔ 2 ≤ c.toNat := by
  rw [BitVec.lt_def, not_lt]
  rfl

theorem toNat_sub_two {c : Long} (h : 2 ≤ c.toNat) : (c - 2).toNat = c.toNat - 2 := by
  bv_omega

/-- `sd_cluster_to_block` on a cluster of the volume. -/
theorem Describes.sdClusterToBlock_eq (hinfo : v.Describes info) (h : v.Valid c) :
  sdClusterToBlock info c = v.firstBlock c
  := by
  obtain ⟨hge, hlt⟩ := h
  have hcount : ¬ c - 2 ≥ info.clusterCount := by
    rw [hinfo.clusterCount, ge_iff_le, BitVec.le_def, toNat_sub_two hge]
    omega
  rw [sdClusterToBlock, if_neg (not_lt_two.mpr hge), if_neg hcount, hinfo.clusterOffset,
    hinfo.clusterShift]
  apply BitVec.eq_of_toNat_eq
  rw [firstBlock, BitVec.toNat_add, BitVec.toNat_shiftLeft, toNat_sub_two hge, Nat.shiftLeft_eq,
    BitVec.toNat_ofNat, Nat.add_mod_mod]
  rfl

/-- `sd_cluster_to_block` on the number of no cluster. -/
theorem Describes.sdClusterToBlock_of_not (hinfo : v.Describes info) (h : ¬ v.Valid c) :
  sdClusterToBlock info c = 0
  := by
  rw [sdClusterToBlock]
  split_ifs with hc hcount
  · rfl
  · rfl
  · exfalso
    apply h
    have hge := not_lt_two.mp hc
    rw [hinfo.clusterCount, ge_iff_le, BitVec.le_def, toNat_sub_two hge] at hcount
    exact ⟨hge, by omega⟩

/-- The clusters that have blocks. -/
theorem Describes.sdClusterToBlock_ne_zero (hinfo : v.Describes info) :
  sdClusterToBlock info c ≠ 0 ↔ v.Valid c
  := by
  by_cases h : v.Valid c
  · simpa [hinfo.sdClusterToBlock_eq h, h] using h.firstBlock_ne_zero
  · simp [hinfo.sdClusterToBlock_of_not h, h]

end Volume

/-! ### Drivers -/

/-- The driver serves the volume in the states `ready`: a card is detected, and the reads of blocks
succeed. -/
structure Serves {σ : Type} (sd : SdDriver σ) (v : Volume) (ready : σ → Prop) : Prop where
  describes {t : σ} : ready t → v.Describes (sd.info t)
  sdDetect {t : σ} : ready t →
    (sd.sdDetect t).1 ≠ SD_DETECT_NONE ∧ ready (sd.sdDetect t).2
  sdCacheRead {t : σ} (b : Long) : ready t →
    (sd.sdCacheRead b t).1 = 0 ∧ ready (sd.sdCacheRead b t).2 ∧
    ∀ i < SD_BLKSIZE, (sd.info (sd.sdCacheRead b t).2).block i = v.disk b i

/-- A driver for a volume, whose state is the block that was read last. -/
def Volume.driver (v : Volume) : SdDriver (ℕ → Byte) where
  info block :=
    { clusterSize := BitVec.ofNat 8 v.clusterSize
      clusterShift := v.clusterShift
      fat1 := v.fat1
      root := v.root
      clusterOffset := v.clusterOffset
      clusterCount := v.clusterCount
      block := block }
  sdDetect block := (2, block)
  sdCacheRead b _ := (0, v.disk b)

/-- The driver serves its volume. -/
theorem Volume.serves_driver (v : Volume) : Serves v.driver v fun _ => True where
  describes _ := ⟨rfl, rfl, rfl, rfl, rfl, rfl⟩
  sdDetect _ := ⟨show (2 : Byte) ≠ SD_DETECT_NONE by decide, trivial⟩
  sdCacheRead _ _ := ⟨rfl, trivial, fun _ _ => rfl⟩

/-- A volume with one cluster of one block, and no other blocks than the FAT. -/
def oneCluster (block : ℕ → Byte) : Volume where
  clusterShift := 0
  fat1 := 1
  root := 2
  clusterOffset := 2
  clusterCount := 1
  disk b := if b = 1 then fun _ => 0xFF else block
  shift_le := by decide
  offset_pos := by decide
  fits := by decide

theorem oneCluster_chain (block : ℕ → Byte) : (oneCluster block).Chain 2 [2] := by
  have hfat : (oneCluster block).disk ((1 : Long) + (2 : Long) >>> 7) = fun _ => 0xFF := by
    change (if (1 : Long) + (2 : Long) >>> 7 = 1 then fun _ => 0xFF else block) = _
    rw [if_pos (by decide)]
  apply Volume.Chain.last
  · exact ⟨le_rfl, Nat.lt_succ_self 2⟩
  · change _ ≤ long ((oneCluster block).disk ((1 : Long) + (2 : Long) >>> 7)) (4 * (2 &&& 0x7F : Long).toNat) &&& _
    rw [hfat]
    decide

/-! ### Directory entries -/

/-- A number of two bytes depends on them only. -/
theorem word_congr (h : ∀ i, offset ≤ i → i < offset + 2 → block i = block' i) :
  word block offset = word block' offset
  := by
  rw [word, word, h (offset + 1) (by omega) (by omega), h offset (by omega) (by omega)]

theorem long_congr (h : ∀ i, offset ≤ i → i < offset + 4 → block i = block' i) :
  long block offset = long block' offset
  := by
  rw [long, long]
  congr 1
  · apply word_congr
    intro i hi hi'
    apply h i (by omega) (by omega)
  · apply word_congr
    intro i hi hi'
    apply h i (by omega) (by omega)

/-- A directory entry depends on its own bytes only. -/
theorem dirEntryAt_congr
    (h : ∀ i, offset ≤ i → i < offset + SIZEOF_FAT_DIR_ENTRY → block i = block' i) :
  dirEntryAt block offset = dirEntryAt block' offset
  := by
  have hbyte {i : ℕ} (hi : i < 32) : block (offset + i) = block' (offset + i) :=
    h (offset + i) (by omega) (by rw [SIZEOF_FAT_DIR_ENTRY]; omega)
  have hword {i : ℕ} (hi : i < 31) : word block (offset + i) = word block' (offset + i) := by
    apply word_congr
    intro j hj hj'
    apply h j (by omega) (by rw [SIZEOF_FAT_DIR_ENTRY]; omega)
  have hlong {i : ℕ} (hi : i < 29) : long block (offset + i) = long block' (offset + i) := by
    apply long_congr
    intro j hj hj'
    apply h j (by omega) (by rw [SIZEOF_FAT_DIR_ENTRY]; omega)
  have hname : (List.range FAT_NAME_LEN).map (fun i => block (offset + i)) =
      (List.range FAT_NAME_LEN).map fun i => block' (offset + i) := by
    apply List.map_congr_left
    intro i hi
    rw [List.mem_range, FAT_NAME_LEN] at hi
    apply hbyte (by omega)
  simp only [dirEntryAt, hname, hbyte (show 11 < 32 by decide), hword (show 20 < 31 by decide),
    hword (show 26 < 31 by decide), hlong (show 28 < 29 by decide)]

/-! ### Reading directory entries -/

section Driver

variable {σ : Type} (sd : SdDriver σ) (reader : FatfsInodeInfo) (t : σ)

theorem offset_lt : ¬ reader.offset.toNat ≥ SD_BLKSIZE := by
  have := reader.offset.isLt
  rw [SD_BLKSIZE]
  omega

/-- `fatfs_info_read_prepare` stays in its block. -/
theorem fatfsInfoReadPrepare_eq :
  fatfsInfoReadPrepare sd reader t =
    if reader.block = 0 then ((0, reader), t)
    else if (sd.sdCacheRead reader.block t).1 ≠ 0 then
      ((- EIO, reader), (sd.sdCacheRead reader.block t).2)
    else (((SD_BLKSIZE - reader.offset.toNat : Int), reader), (sd.sdCacheRead reader.block t).2)
  := by
  unfold fatfsInfoReadPrepare
  split_ifs with hblock hoffset hstatus hstatus
  · rfl
  · apply absurd hoffset (offset_lt reader)
  · apply absurd hoffset (offset_lt reader)
  · change (if (sd.sdCacheRead reader.block t).1 ≠ 0 then _ else _ :
      StateM σ (Int × FatfsInodeInfo)) (sd.sdCacheRead reader.block t).2 = _
    rw [if_pos hstatus]
    rfl
  · change (if (sd.sdCacheRead reader.block t).1 ≠ 0 then _ else _ :
      StateM σ (Int × FatfsInodeInfo)) (sd.sdCacheRead reader.block t).2 = _
    rw [if_neg hstatus]
    rfl

/-- The block is read, or there is no data. -/
theorem fatfsInfoReadPrepare_cases :
  ∃ size t', fatfsInfoReadPrepare sd reader t = ((size, reader), t') ∧
    (size ≤ 0 ∨ size = SD_BLKSIZE - reader.offset.toNat)
  := by
  rw [fatfsInfoReadPrepare_eq]
  split_ifs
  · exact ⟨0, t, rfl, Or.inl le_rfl⟩
  · exact ⟨- EIO, _, rfl, Or.inl (by decide)⟩
  · exact ⟨_, _, rfl, Or.inr rfl⟩

variable {sd reader t}

/-- An entry that was read is behind the reader, in the same block. -/
theorem fatfsInfoReadDirent_offset {e : DirEntry} {reader' : FatfsInodeInfo} {t' : σ}
    (h : fatfsInfoReadDirent sd reader t = ((.ok e, reader'), t')) :
  reader'.offset.toNat = reader.offset.toNat + SIZEOF_FAT_DIR_ENTRY
  := by
  obtain ⟨size, t₁, hprepare, hsize⟩ := fatfsInfoReadPrepare_cases sd reader t
  unfold fatfsInfoReadDirent at h
  simp only [bind, StateT.bind] at h
  rw [hprepare] at h
  dsimp only at h
  split_ifs at h with hpos hentry
  · cases h
  · cases h
  · cases h
    have := hsize.resolve_left hpos
    rw [SD_BLKSIZE, SIZEOF_FAT_DIR_ENTRY] at *
    rw [BitVec.toNat_add]
    simp
    omega

end Driver

/-- The entries that a reader of a directory of the volume can still read. -/
structure Remaining (v : Volume) (reader : FatfsInodeInfo) (es : List DirEntry) : Prop where
  exists_at : ∃ c i, v.Valid c ∧ reader.block = v.firstBlock c ∧ i ≤ 15 ∧
    reader.offset = BitVec.ofNat 9 (SIZEOF_FAT_DIR_ENTRY * i) ∧ es = (v.firstEntries c).drop i

section Serves

variable {σ : Type} {sd : SdDriver σ} {v : Volume} {ready : σ → Prop} {reader : FatfsInodeInfo}
  {t : σ}

/-- A reader that was set up for a directory. -/
theorem Serves.opened (hsd : Serves sd v ready) (ht : ready t) {c : Long} (hc : v.Valid c)
    (x : FatfsInodeInfo) (size : Long) :
  (fatfsInfoNew (sd.info t) x c size).1 = true ∧
    Remaining v (fatfsInfoNew (sd.info t) x c size).2 (v.firstEntries c)
  := by
  rw [fatfsInfoNew, (hsd.describes ht).sdClusterToBlock_eq hc, if_neg hc.firstBlock_ne_zero]
  exact ⟨rfl, ⟨c, 0, hc, rfl, by omega, rfl, rfl⟩⟩

/-- The current block is read. -/
theorem Serves.readPrepare_eq (hsd : Serves sd v ready) (ht : ready t) (hblock : reader.block ≠ 0) :
  fatfsInfoReadPrepare sd reader t =
    (((SD_BLKSIZE - reader.offset.toNat : Int), reader), (sd.sdCacheRead reader.block t).2)
  := by
  rw [fatfsInfoReadPrepare_eq, if_neg hblock,
    if_neg (not_not.mpr (hsd.sdCacheRead reader.block ht).1)]

theorem Volume.length_firstEntries (v : Volume) (c : Long) : (v.firstEntries c).length = 15 := by
  rw [firstEntries, List.length_map, List.length_range]

/-- The first 15 entries of a directory are those that can be read. -/
theorem Volume.Chain.take_entries {c : Long} (h : v.Chain c cs) :
  (v.entries cs).take 15 = v.firstEntries c
  := by
  obtain ⟨rest, hrest⟩ := h.entries_eq
  rw [hrest, List.take_left' (v.length_firstEntries c)]

/-- At most 15 entries remain. -/
theorem Remaining.length_le {es : List DirEntry} (h : Remaining v reader es) : es.length ≤ 15 := by
  obtain ⟨c, i, -, -, -, -, rfl⟩ := h
  rw [List.length_drop, v.length_firstEntries]
  omega

theorem toNat_entryOffset {i : ℕ} (hi : i ≤ 15) :
  (BitVec.ofNat 9 (SIZEOF_FAT_DIR_ENTRY * i)).toNat = 32 * i
  := by
  rw [BitVec.toNat_ofNat, SIZEOF_FAT_DIR_ENTRY]
  omega

/-- The next entry is read. -/
theorem Serves.readDirent_cons (hsd : Serves sd v ready) (ht : ready t) {e : DirEntry}
    {es : List DirEntry} (h : Remaining v reader (e :: es)) :
  ∃ reader' t', fatfsInfoReadDirent sd reader t = ((.ok e, reader'), t') ∧
    Remaining v reader' es ∧ ready t'
  := by
  obtain ⟨c, i, hc, hblock, hi, hoffset, hes⟩ := h
  have hlt : i < (v.firstEntries c).length := by
    by_contra hge
    rw [List.drop_eq_nil_of_le (not_lt.mp hge)] at hes
    cases hes
  have hlt' : i < 15 := by rwa [v.length_firstEntries] at hlt
  rw [List.drop_eq_getElem_cons hlt] at hes
  obtain ⟨he, hes'⟩ := List.cons.inj hes
  obtain ⟨-, ht', hdata⟩ := hsd.sdCacheRead reader.block ht
  have hentry : dirEntryAt (sd.info (sd.sdCacheRead reader.block t).2).block reader.offset.toNat = e := by
    rw [he, hoffset, toNat_entryOffset hi]
    simp only [Volume.firstEntries, List.getElem_map, List.getElem_range, Volume.entryAt]
    rw [← hblock]
    apply dirEntryAt_congr
    intro j hj hj'
    apply hdata
    rw [SIZEOF_FAT_DIR_ENTRY] at hj'
    rw [SD_BLKSIZE]
    omega
  have hsize : ¬ (SD_BLKSIZE - reader.offset.toNat : Int) ≤ SIZEOF_FAT_DIR_ENTRY := by
    rw [hoffset, toNat_entryOffset hi, SD_BLKSIZE, SIZEOF_FAT_DIR_ENTRY]
    omega
  have hpos : ¬ (SD_BLKSIZE - reader.offset.toNat : Int) ≤ 0 := by
    intro hle
    apply hsize
    apply hle.trans
    decide
  refine ⟨{ reader with offset := reader.offset + BitVec.ofNat 9 SIZEOF_FAT_DIR_ENTRY },
    (sd.sdCacheRead reader.block t).2, ?_, ⟨c, i + 1, hc, hblock, hlt', ?_, hes'⟩, ht'⟩
  · unfold fatfsInfoReadDirent
    simp only [bind, StateT.bind]
    rw [hsd.readPrepare_eq ht (by rw [hblock]; apply hc.firstBlock_ne_zero)]
    dsimp only
    rw [if_neg hpos, if_neg hsize, ← hentry]
    rfl
  · dsimp only
    rw [hoffset, Nat.mul_succ, BitVec.ofNat_add]

/-- There is no next entry. -/
theorem Serves.readDirent_nil (hsd : Serves sd v ready) (ht : ready t) (h : Remaining v reader []) :
  ∃ t', fatfsInfoReadDirent sd reader t = ((.error (-EINVAL), reader), t') ∧ ready t'
  := by
  obtain ⟨c, i, hc, hblock, hi, hoffset, hes⟩ := h
  have hi' : i = 15 := by
    have := List.drop_eq_nil_iff.mp hes.symm
    rw [v.length_firstEntries] at this
    omega
  have hsize : (SD_BLKSIZE - reader.offset.toNat : Int) = 32 := by
    rw [hoffset, toNat_entryOffset hi, hi', SD_BLKSIZE]
    rfl
  refine ⟨(sd.sdCacheRead reader.block t).2, ?_, (hsd.sdCacheRead reader.block ht).2.1⟩
  unfold fatfsInfoReadDirent
  simp only [bind, StateT.bind]
  rw [hsd.readPrepare_eq ht (by rw [hblock]; apply hc.firstBlock_ne_zero)]
  dsimp only
  rw [hsize]
  rfl

end Serves

/-! ### The blocks of a chain -/

/-- The result of a call of `fatfs_info_read_prepare`, with the block and the offset in it that the
pointer to the data refers to. -/
structure Prepared where
  result : Int
  block : Long
  offset : ℕ
  deriving DecidableEq

section

variable {σ : Type}

/-- Successive calls of `fatfs_info_read_prepare`, each followed by an advance of `info->offset` by
the result. -/
def fatfsInfoReadAll (sd : SdDriver σ) : ℕ → FatfsInodeInfo → StateM σ (List Prepared)
  | 0, _ => return []
  | n + 1, info => do
      let (size, info) ← fatfsInfoReadPrepare sd info
      let call : Prepared := ⟨size, info.block, info.offset.toNat⟩
      let info := { info with offset := info.offset + BitVec.ofInt 9 size }
      return call :: (← fatfsInfoReadAll sd n info)

/-- The calls give the blocks of the chain, each from its start on and each once and in order, and
return 0 after that. -/
def CoversBlocks (sd : SdDriver σ) (v : Volume) (cs : List Long) (info : FatfsInodeInfo) (t : σ) :
    Prop :=
  ∀ n, ((fatfsInfoReadAll sd n info t).1.take (v.blocks cs).length
      = ((v.blocks cs).map fun b => Prepared.mk SD_BLKSIZE b 0).take n)
    ∧ ∀ call ∈ (fatfsInfoReadAll sd n info t).1.drop (v.blocks cs).length, call.result = 0

variable {sd : SdDriver σ} {v : Volume} {ready : σ → Prop} {info : FatfsInodeInfo} {t : σ}

/-- The calls at the start of a block give the block again each time: the advance by its size takes
the 9 bits of the offset back to 0. -/
theorem Serves.readAll_eq (hsd : Serves sd v ready) (ht : ready t) (hblock : info.block ≠ 0)
    (hoffset : info.offset = 0) (n : ℕ) :
  (fatfsInfoReadAll sd n info t).1 = List.replicate n ⟨SD_BLKSIZE, info.block, 0⟩
  := by
  induction n generalizing t with
  | zero => rfl
  | succ n ih =>
      have hsize : (SD_BLKSIZE - info.offset.toNat : Int) = SD_BLKSIZE := by
        rw [hoffset]
        rfl
      have hadvance : { info with offset := info.offset + BitVec.ofInt 9 SD_BLKSIZE } = info := by
        have hwrap : info.offset + BitVec.ofInt 9 SD_BLKSIZE = info.offset := by
          rw [hoffset]
          rfl
        rw [hwrap]
      have hrest := ih (hsd.sdCacheRead info.block ht).2.1
      rw [List.replicate_succ, ← hrest]
      simp only [fatfsInfoReadAll, bind, StateT.bind]
      rw [hsd.readPrepare_eq ht hblock, hsize]
      dsimp only
      rw [hadvance, hoffset]
      rfl

/-- On every chain of clusters, `fatfs_info_new` succeeds, every call of `fatfs_info_read_prepare`
gives the first block, and the calls do not cover the blocks of the chain. -/
theorem fatfsInfoReadAll_not_covers (hsd : Serves sd v ready) (ht : ready t) {c : Long}
    {cs : List Long} (hcs : v.Chain c cs) (x : FatfsInodeInfo) (size : Long) :
  (fatfsInfoNew (sd.info t) x c size).1 = true
    ∧ (∀ n, (fatfsInfoReadAll sd n (fatfsInfoNew (sd.info t) x c size).2 t).1
      = List.replicate n ⟨SD_BLKSIZE, v.firstBlock c, 0⟩)
    ∧ ¬ CoversBlocks sd v cs (fatfsInfoNew (sd.info t) x c size).2 t
  := by
  have hne := hcs.valid.firstBlock_ne_zero
  have hcalls : ∀ n, (fatfsInfoReadAll sd n (fatfsInfoNew (sd.info t) x c size).2 t).1
      = List.replicate n ⟨SD_BLKSIZE, v.firstBlock c, 0⟩ := by
    intro n
    rw [fatfsInfoNew, (hsd.describes ht).sdClusterToBlock_eq hcs.valid, if_neg hne]
    exact hsd.readAll_eq ht hne rfl n
  refine ⟨(hsd.opened ht hcs.valid x size).1, hcalls, ?_⟩
  intro hcovers
  have hend := (hcovers ((v.blocks cs).length + 1)).2
  rw [hcalls, List.drop_replicate, Nat.add_sub_cancel_left] at hend
  have hresult : (SD_BLKSIZE : Int) = 0 := hend _ (List.mem_singleton_self _)
  exact absurd hresult (by decide)

/-- In a directory of one block, the second call gives the block again. -/
theorem fatfsInfoReadAll_oneCluster :
  (oneCluster fun _ => 0).Chain 2 [2] ∧ (oneCluster fun _ => 0).blocks [2] = [2]
    ∧ (fatfsInfoReadAll (oneCluster fun _ => 0).driver 2
        (fatfsInfoNew ((oneCluster fun _ => 0).driver.info fun _ => 0) default 2 0).2 fun _ => 0).1
      = [⟨512, 2, 0⟩, ⟨512, 2, 0⟩]
    ∧ ¬ CoversBlocks (oneCluster fun _ => 0).driver (oneCluster fun _ => 0) [2]
      (fatfsInfoNew ((oneCluster fun _ => 0).driver.info fun _ => 0) default 2 0).2 fun _ => 0
  := by
  have hcalls : (fatfsInfoReadAll (oneCluster fun _ => 0).driver 2
      (fatfsInfoNew ((oneCluster fun _ => 0).driver.info fun _ => 0) default 2 0).2 fun _ => 0).1
        = [⟨512, 2, 0⟩, ⟨512, 2, 0⟩] := by
    decide
  refine ⟨oneCluster_chain _, by decide, hcalls, ?_⟩
  intro hcovers
  have hend := (hcovers 2).2
  rw [hcalls] at hend
  have hresult := hend ⟨512, 2, 0⟩ (by decide)
  exact absurd hresult (by decide)

/-- The chains of the volume with one cluster. -/
theorem fatfsInfoReadAll_not_covers_oneCluster :
  ¬ CoversBlocks (oneCluster fun _ => 0).driver (oneCluster fun _ => 0) [2]
    (fatfsInfoNew ((oneCluster fun _ => 0).driver.info fun _ => 0) default 2 0).2 fun _ => 0
  :=
  (fatfsInfoReadAll_not_covers (oneCluster fun _ => 0).serves_driver trivial (oneCluster_chain _)
    default 0).2.2

end

end Mosnix.Fat
