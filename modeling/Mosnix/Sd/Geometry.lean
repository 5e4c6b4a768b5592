import Mosnix.Sd.Stages

/-!
# The geometry of a detected volume

A detection takes the geometry of the volume from the card: the size of the card from the
card-specific data, the partition from block 0, and the sizes of the FATs and of the clusters from
the boot record.  `Header.Fits` says when these values fit together, and `Consistent` that the
members of `sd_info` describe a volume in which the FATs and the clusters have their places.
`sd_detect` computes the latter from the former modulo 2^32, and compares nothing, so it accepts
a volume whether or not its header fits.
-/

namespace Mosnix.Sd

open Fat Program

/-! ### The header of a volume -/

/-- What a detection reads from the card: the card-specific data, block 0 and the boot record. -/
structure Header where
  csd : ℕ → Byte
  mbr : ℕ → Byte
  pbr : ℕ → Byte

namespace Header

variable (h : Header)

/-- The first block of the volume: block 0 if the card has no partitions. -/
def partOffset : Long := if h.mbr 450 = 0x0C then long h.mbr 454 else 0

/-- The number of blocks of the volume. -/
def partSize : Long := if h.mbr 450 = 0x0C then long h.mbr 458 else sdGetSize h.csd

/-- The number of blocks before the FATs. -/
def reserved : Word := word h.pbr 14

/-- The number of blocks of a FAT. -/
def fatSize : Long := long h.pbr 36

/-- The number of blocks of a cluster. -/
def clusterSize : Byte := h.pbr 13

/-- The reserved blocks and the FATs are in the volume, which ends before block 2^32, and a FAT has
an entry for every cluster. -/
def Fits : Prop :=
  h.reserved.toNat + 2 * h.fatSize.toNat ≤ h.partSize.toNat ∧
  h.partOffset.toNat + h.partSize.toNat ≤ 2 ^ 32 ∧
  (h.partSize.toNat - (h.reserved.toNat + 2 * h.fatSize.toNat)) / h.clusterSize.toNat + 2 ≤
    128 * h.fatSize.toNat

/-- The header passes the checks of a detection. -/
structure Valid : Prop where
  size : sdGetSize h.csd ≠ 0
  mbrSignature : h.mbr 510 = 0x55 ∧ h.mbr 511 = 0xAA
  partType : h.mbr 450 ≠ 0x0E
  pbrSignature : h.pbr 510 = 0x55 ∧ h.pbr 511 = 0xAA
  blockSize : h.pbr 11 = 0 ∧ h.pbr 12 = 2
  clusterSize : h.clusterSize ∈ clusterSizes
  fats : h.pbr 16 = 2
  rootEntries : h.pbr 17 = 0 ∧ h.pbr 18 = 0
  blocks16 : h.pbr 19 = 0 ∧ h.pbr 20 = 0
  media : h.pbr 21 = 0xF0 ∨ 0xF8 ≤ h.pbr 21

end Header

section Driver

variable {σ : Type}

/-- Block 0 and the boot record are read from the card. -/
def ReadsPartition (spi : Spi σ) (s : SdState σ) (h : Header) : Prop :=
  ∃ s₁, sdRead spi 0 s = some (SD_R1_READY, s₁) ∧ s₁.info.block = h.mbr ∧
    if h.mbr 450 = 0x0C then
      ∃ s₂, sdRead spi h.partOffset { s₁ with info := { s₁.info with
          partOffset := h.partOffset, partSize := h.partSize } } = some (SD_R1_READY, s₂) ∧
        s₂.info.block = h.pbr
    else h.mbr = h.pbr

/-- The card-specific data, block 0 and the boot record are read from a card that was identified. -/
def ReadsHeader (spi : Spi σ) (s : SdState σ) (h : Header) : Prop :=
  ∃ s₁, spiReceiveBlock spi 18 s = some ((), s₁) ∧ s₁.info.block = h.csd ∧
    ReadsPartition spi { s₁ with info := { s₁.info with
      block := sdGetSizeScratch h.csd, partSize := sdGetSize h.csd } } h

/-- A detection identifies the card, after the card of the last detection did not answer. -/
def Identifies (spi : Spi σ) (fuel : ℕ) (s s' : SdState σ) : Prop :=
  ∃ s₁ version, (if s.info.detect = 0 then s₁ = s else sdQueryCid spi s = some (false, s₁)) ∧
    sdIdentify spi fuel { s₁ with info := { s₁.info with
      detect := 0, sdhc := 0, partOffset := 0, partSize := 0 } } = some (some version, s')

/-! ### What a detection records -/

/-- The members of `sd_info` that a detection computes from the header. -/
structure Records (h : Header) (info : SdInfoT) : Prop where
  partOffset : info.partOffset = h.partOffset
  partSize : info.partSize = h.partSize
  fatSize : info.fatSize = h.fatSize
  clusterSize : info.clusterSize = h.clusterSize
  clusterSize_mem : h.clusterSize ∈ clusterSizes
  clusterShift : info.clusterShift = clusterShiftLoop h.clusterSize 8 1 0
  fat1 : info.fat1 = h.reserved.setWidth 32 + h.partOffset
  clusterOffset : info.clusterOffset =
    h.reserved.setWidth 32 + h.fatSize + h.fatSize + h.partOffset
  clusterCount : info.clusterCount =
    (h.partSize - (h.reserved.setWidth 32 + h.fatSize + h.fatSize)) >>> info.clusterShift.toNat

variable {spi : Spi σ}

theorem sdReadSigned_ensures (blknum : Long) (s : SdState σ) :
  Ensures (sdReadSigned spi blknum) s fun signed s' =>
    signed = true → sdRead spi blknum s = some (SD_R1_READY, s')
  := by
  apply Ensures.bind_of_forall
  intro response s₁ hread
  apply Ensures.get_bind
  apply Ensures.pure
  intro hsigned
  rw [← (of_decide_eq_true hsigned).1]
  apply hread

variable {s : SdState σ} {h : Header}

/-- The partition of a card of a given size. -/
theorem sdReadPartition_ensures (csd : ℕ → Byte) (hoffset : s.info.partOffset = 0)
    (hsize : s.info.partSize = sdGetSize csd) :
  Ensures (sdReadPartition spi) s fun found s' => found = true →
    ∃ h : Header, h.csd = csd ∧ ReadsPartition spi s h ∧ s'.info.block = h.pbr ∧
      s'.info.partOffset = h.partOffset ∧ s'.info.partSize = h.partSize
  := by
  apply Ensures.bind (sdReadSigned_ensures 0 s)
  intro signed s₁ hsigned
  cases signed with
  | false =>
      apply Ensures.pure
      rintro ⟨⟩
  | true =>
      have hread := hsigned rfl
      have hlayout := (keeps_sdRead 0).of_eq hread
      apply Ensures.get_bind
      dsimp only
      split_ifs with htype
      · have hmodify : (modifyInfo fun info => { info with
            partOffset := long s₁.info.block 454, partSize := long s₁.info.block 458 } :
            Program (SdState σ) Unit) s₁ = some ((), { s₁ with info := { s₁.info with
              partOffset := long s₁.info.block 454, partSize := long s₁.info.block 458 } }) := rfl
        apply Ensures.bind_of_eq hmodify
        apply (sdReadSigned_ensures _ _).mono
        intro found s₂ hfound hfound'
        have hread₂ := hfound hfound'
        have hlayout₂ := (keeps_sdRead _).of_eq hread₂
        let h : Header := ⟨csd, s₁.info.block, s₂.info.block⟩
        have hpartOffset : h.partOffset = long s₁.info.block 454 := if_pos htype
        have hpartSize : h.partSize = long s₁.info.block 458 := if_pos htype
        refine ⟨h, rfl, ⟨s₁, hread, rfl, ?_⟩, rfl, ?_, ?_⟩
        · rw [if_pos htype, hpartOffset, hpartSize]
          exact ⟨s₂, hread₂, rfl⟩
        · rw [hpartOffset]
          apply congrArg (fun layout => layout.1.partOffset) hlayout₂
        · rw [hpartSize]
          apply congrArg (fun layout => layout.1.partSize) hlayout₂
      · apply Ensures.pure
        intro _
        let h : Header := ⟨csd, s₁.info.block, s₁.info.block⟩
        have hpartOffset : h.partOffset = 0 := if_neg htype
        have hpartSize : h.partSize = sdGetSize csd := if_neg htype
        refine ⟨h, rfl, ⟨s₁, hread, rfl, ?_⟩, rfl, ?_, ?_⟩
        · rw [if_neg htype]
        · rw [hpartOffset, ← hoffset]
          apply congrArg (fun layout => layout.1.partOffset) hlayout
        · rw [hpartSize, ← hsize]
          apply congrArg (fun layout => layout.1.partSize) hlayout

/-- What is recorded of a header. -/
theorem sdReadHeader_ensures (s : SdState σ) :
  Ensures sdReadHeader s fun found s' => found = true →
    s.info.block 13 ∈ clusterSizes ∧
    s'.info = sdVolumeInfo { s.info with clusterSize := s.info.block 13 }
  := by
  have hfail (s₁ : SdState σ) : Ensures (return false : Program (SdState σ) Bool) s₁
      fun found s' => found = true → s.info.block 13 ∈ clusterSizes ∧
        s'.info = sdVolumeInfo { s.info with clusterSize := s.info.block 13 } := by
    apply Ensures.pure
    rintro ⟨⟩
  apply Ensures.get_bind
  dsimp only
  split_ifs with hsector hcluster hfats hroot htotal hmedia
  · apply hfail
  all_goals
    apply Ensures.bind (P := fun _ s₁ => s₁.info = { s.info with clusterSize := s.info.block 13 })
    · apply (Ends.modify rfl).ensures
    intro _ s₁ hs₁
  · apply hfail
  · apply hfail
  · apply hfail
  · apply hfail
  · apply hfail
  · apply Ensures.bind (P := fun _ s₂ => s₂.info = sdVolumeInfo s₁.info)
    · apply (Ends.modify rfl).ensures
    intro _ s₂ hs₂
    apply Ensures.pure
    intro _
    rw [hs₂, hs₁]
    refine ⟨?_, rfl⟩
    simpa using hcluster

/-- The fields are those of the header. -/
theorem records_sdVolumeInfo {info : SdInfoT} (hblock : info.block = h.pbr)
    (hoffset : info.partOffset = h.partOffset) (hsize : info.partSize = h.partSize)
    (hmem : info.block 13 ∈ clusterSizes) :
  Records h (sdVolumeInfo { info with clusterSize := info.block 13 })
  where
  partOffset := hoffset
  partSize := hsize
  fatSize := congrArg (long · 36) hblock
  clusterSize := congrFun hblock 13
  clusterSize_mem := by
    rw [Header.clusterSize, ← hblock]
    apply hmem
  clusterShift := by
    rw [Header.clusterSize, ← hblock]
    rfl
  fat1 := by
    rw [← hoffset, Header.reserved, ← hblock]
    rfl
  clusterOffset := by
    rw [← hoffset, Header.reserved, Header.fatSize, ← hblock]
    rfl
  clusterCount := by
    rw [← hsize, Header.reserved, Header.fatSize, ← hblock]
    rfl

/-- A volume is recorded from a header that was read. -/
theorem sdReadVolume_ensures (hoffset : s.info.partOffset = 0) :
  Ensures (sdReadVolume spi) s fun found s' => found = true →
    ∃ h, ReadsHeader spi s h ∧ Records h s'.info
  := by
  apply Ensures.bind (P := fun _ s₂ => ∃ s₁, spiReceiveBlock spi 18 s = some ((), s₁) ∧
    s₂ = { s₁ with info := { s₁.info with
      block := sdGetSizeScratch s₁.info.block, partSize := sdGetSize s₁.info.block } })
  · apply Ensures.bind_of_forall
    intro _ s₁ hcsd
    apply Ends.ensures
    exact ⟨_, _, rfl, s₁, hcsd, rfl⟩
  rintro read s₂ ⟨s₁, hcsd, hs₂⟩
  cases read with
  | false =>
      apply Ensures.pure
      rintro ⟨⟩
  | true =>
      have hoffset₂ : s₂.info.partOffset = 0 := by
        rw [hs₂, ← hoffset]
        apply congrArg (fun layout => layout.1.partOffset) ((keeps_spiReceiveBlock 18).of_eq hcsd)
      have hsize₂ : s₂.info.partSize = sdGetSize s₁.info.block := by rw [hs₂]
      apply Ensures.bind (sdReadPartition_ensures s₁.info.block hoffset₂ hsize₂)
      intro found s₃ hfound
      cases found with
      | false =>
          apply Ensures.pure
          rintro ⟨⟩
      | true =>
          obtain ⟨h, hcsd', hpartition, hblock, hoffset₃, hsize₃⟩ := hfound rfl
          apply (sdReadHeader_ensures s₃).mono
          intro valid s' hvalid hvalid'
          obtain ⟨hmem, hinfo⟩ := hvalid hvalid'
          refine ⟨h, ⟨s₁, hcsd, hcsd'.symm, ?_⟩, ?_⟩
          · rw [hcsd', ← hs₂]
            apply hpartition
          · rw [hinfo]
            apply records_sdVolumeInfo hblock hoffset₃ hsize₃ hmem

/-- A block with its signature. -/
theorem sdReadSigned_of_eq {blknum : Long} {s' : SdState σ}
    (h : sdRead spi blknum s = some (SD_R1_READY, s'))
    (hsigned : s'.info.block 510 = 0x55 ∧ s'.info.block 511 = 0xAA) :
  sdReadSigned spi blknum s = some (true, s')
  := by
  have hget : (get : Program (SdState σ) (SdState σ)) s' = some (s', s') := rfl
  rw [sdReadSigned, bind_eq h, bind_eq hget, decide_eq_true ⟨rfl, hsigned⟩]
  rfl

/-- A valid header is found. -/
theorem sdReadPartition_of_valid (hreads : ReadsPartition spi s h) (hvalid : h.Valid) :
  ∃ s', sdReadPartition spi s = some (true, s') ∧ s'.info.block = h.pbr
  := by
  obtain ⟨s₁, hread, hmbr, hpbr⟩ := hreads
  have hget : (get : Program (SdState σ) (SdState σ)) s₁ = some (s₁, s₁) := rfl
  have hsigned := sdReadSigned_of_eq hread (hmbr ▸ hvalid.mbrSignature)
  rw [sdReadPartition, bind_eq hsigned, if_pos rfl, bind_eq hget, hmbr]
  split_ifs at hpbr ⊢ with htype
  · obtain ⟨s₂, hread₂, hpbr⟩ := hpbr
    have hoffset : h.partOffset = long h.mbr 454 := if_pos htype
    have hsize : h.partSize = long h.mbr 458 := if_pos htype
    have hmodify : (modifyInfo fun info => { info with
        partOffset := long h.mbr 454, partSize := long h.mbr 458 } : Program (SdState σ) Unit) s₁ =
      some ((), { s₁ with info := { s₁.info with
        partOffset := long h.mbr 454, partSize := long h.mbr 458 } }) := rfl
    rw [hoffset, hsize] at hread₂
    refine ⟨s₂, ?_, hpbr⟩
    rw [bind_eq hmodify]
    apply sdReadSigned_of_eq hread₂ (hpbr ▸ hvalid.pbrSignature)
  · refine ⟨s₁, ?_, hmbr.trans hpbr⟩
    rw [decide_eq_true hvalid.partType]
    rfl

theorem sdReadHeader_of_valid (hblock : s.info.block = h.pbr) (hvalid : h.Valid) :
  ∃ s', sdReadHeader s = some (true, s')
  := by
  have hget : (get : Program (SdState σ) (SdState σ)) s = some (s, s) := rfl
  have hmem : clusterSizes.contains (h.pbr 13) = true := by
    rw [List.contains_iff_mem]
    apply hvalid.clusterSize
  have hmedia : ¬ (h.pbr 21 ≠ 0xF0 ∧ h.pbr 21 < 0xF8) := by
    rintro ⟨hne, hlt⟩
    apply absurd (hvalid.media.resolve_left hne) (BitVec.not_le.mpr hlt)
  rw [sdReadHeader, bind_eq hget, hblock, if_neg (by simpa using hvalid.blockSize), hmem,
    if_neg (by decide), if_neg (not_not.mpr hvalid.fats), if_neg (by simpa using hvalid.rootEntries),
    if_neg (by simpa using hvalid.blocks16), if_neg hmedia]
  exact ⟨_, rfl⟩

/-- A header that passes the checks is accepted. -/
theorem sdReadVolume_of_valid (hreads : ReadsHeader spi s h) (hvalid : h.Valid) :
  ∃ s', sdReadVolume spi s = some (true, s')
  := by
  obtain ⟨s₁, hcsd, hblock, hpartition⟩ := hreads
  have hread : sdReadCsd spi s = some (true, { s₁ with info := { s₁.info with
      block := sdGetSizeScratch h.csd, partSize := sdGetSize h.csd } }) := by
    have hget : (get : Program (SdState σ) (SdState σ)) s₁ = some (s₁, s₁) := rfl
    have hmodify : (modifyInfo fun info => { info with
        block := sdGetSizeScratch h.csd, partSize := sdGetSize h.csd } : Program (SdState σ) Unit) s₁ =
      some ((), { s₁ with info := { s₁.info with
        block := sdGetSizeScratch h.csd, partSize := sdGetSize h.csd } }) := rfl
    rw [sdReadCsd, bind_eq hcsd, bind_eq hget, hblock, bind_eq hmodify,
      decide_eq_true hvalid.size]
    rfl
  obtain ⟨s₂, hfound, hpbr⟩ := sdReadPartition_of_valid hpartition hvalid
  rw [sdReadVolume, bind_eq hread, if_pos rfl, bind_eq hfound, if_pos rfl]
  apply sdReadHeader_of_valid hpbr hvalid

/-- A detection from scratch that finds a card. -/
theorem sdDetectNew_ensures (fuel : ℕ) (s : SdState σ) :
  Ensures (sdDetectNew spi fuel) s fun r s' => r = SD_DETECT_NEW →
    ∃ s₁ version h, sdIdentify spi fuel { s with info := { s.info with
      detect := 0, sdhc := 0, partOffset := 0, partSize := 0 } } = some (some version, s₁) ∧
      ReadsHeader spi s₁ h ∧ Records h s'.info
  := by
  have hclear : (modifyInfo fun info => { info with
      detect := 0, sdhc := 0, partOffset := 0, partSize := 0 } : Program (SdState σ) Unit) s =
    some ((), { s with info := { s.info with
      detect := 0, sdhc := 0, partOffset := 0, partSize := 0 } }) := rfl
  have hfail (s₁ : SdState σ) {P : Byte → SdState σ → Prop} :
      Ensures (do spiSdcardRaiseCs spi; return SD_DETECT_NONE) s₁ fun r s' =>
        r = SD_DETECT_NEW → P r s' := by
    apply Ends.ensures
    refine ⟨_, _, rfl, ?_⟩
    intro hr
    cases hr
  apply Ensures.bind_of_eq hclear
  apply Ensures.bind_of_forall
  intro version s₁ hidentify
  cases version with
  | none => apply hfail
  | some version =>
      have hoffset : s₁.info.partOffset = 0 :=
        congrArg (fun known => known.1.partOffset) ((keeps_sdIdentify fuel).of_eq hidentify)
      apply Ensures.bind (sdReadVolume_ensures hoffset)
      intro found s₂ hfound
      cases found with
      | false => apply hfail
      | true =>
          obtain ⟨h, hreads, hrecords⟩ := hfound rfl
          apply Ends.ensures
          refine ⟨_, _, rfl, fun _ => ⟨s₁, version, h, hidentify, hreads, ?_⟩⟩
          exact ⟨hrecords.1, hrecords.2, hrecords.3, hrecords.4, hrecords.5, hrecords.6, hrecords.7,
            hrecords.8, hrecords.9⟩

/-- A detection that finds a new card has read a header, and records its values. -/
theorem sdDetect_records {fuel : ℕ} {s' : SdState σ}
    (h : sdDetect spi fuel s = some (SD_DETECT_NEW, s')) :
  ∃ s₁ header, Identifies spi fuel s s₁ ∧ ReadsHeader spi s₁ header ∧ Records header s'.info
  := by
  suffices hdetect : Ensures (sdDetect spi fuel) s fun r s' => r = SD_DETECT_NEW →
      ∃ s₁ header, Identifies spi fuel s s₁ ∧ ReadsHeader spi s₁ header ∧ Records header s'.info by
    apply hdetect.of_eq h rfl
  apply Ensures.get_bind
  split_ifs with hknown
  · apply Ensures.bind_of_forall
    intro accepted s₁ hquery
    cases accepted with
    | true =>
        apply Ensures.pure
        intro hr
        cases hr
    | false =>
        apply (sdDetectNew_ensures fuel s₁).mono
        intro r s' hnew hr
        obtain ⟨s₂, version, header, hidentify, hheader⟩ := hnew hr
        refine ⟨s₂, header, ⟨s₁, version, ?_, hidentify⟩, hheader⟩
        rw [if_neg hknown]
        apply hquery
  · apply (sdDetectNew_ensures fuel s).mono
    intro r s' hnew hr
    obtain ⟨s₂, version, header, hidentify, hheader⟩ := hnew hr
    refine ⟨s₂, header, ⟨s, version, ?_, hidentify⟩, hheader⟩
    rw [if_pos (not_not.mp hknown)]

end Driver

/-! ### Consistent volumes -/

/-- A driver that records the numbers of the blocks it reads. -/
def logged {σ : Type} (sd : SdDriver σ) : SdDriver (σ × List Long) where
  info t := sd.info t.1
  sdDetect t := ((sd.sdDetect t.1).1, (sd.sdDetect t.1).2, t.2)
  sdCacheRead blknum t := ((sd.sdCacheRead blknum t.1).1, (sd.sdCacheRead blknum t.1).2, blknum :: t.2)

/-- The blocks that `fat_get` reads. -/
def fatGetReads {σ : Type} (sd : SdDriver σ) (cluster : Long) (t : σ) : List Long :=
  (fatGet (logged sd) cluster (t, [])).2.2

/-- A block is one of `size` blocks from `start` on. -/
def Within (blknum start : Long) (size : ℕ) : Prop :=
  start.toNat ≤ blknum.toNat ∧ blknum.toNat < start.toNat + size

/-- The FATs and the clusters have their places in the volume, without overflow: every cluster is
in the data area, and the entry of every cluster is in the first FAT. -/
structure Consistent (reserved : ℕ) (info : SdInfoT) : Prop where
  fats : reserved + 2 * info.fatSize.toNat ≤ info.partSize.toNat
  data : info.clusterOffset.toNat + info.clusterCount.toNat * info.clusterSize.toNat ≤
    info.partOffset.toNat + info.partSize.toNat
  part : info.partOffset.toNat + info.partSize.toNat ≤ 2 ^ 32
  entries : info.clusterCount.toNat + 2 ≤ 128 * info.fatSize.toNat
  clusters : ∀ cluster, sdClusterToBlock info.toSdInfo cluster = 0 ∨
    Within (sdClusterToBlock info.toSdInfo cluster) info.clusterOffset
      (info.clusterCount.toNat * info.clusterSize.toNat)
  reads : ∀ {σ : Type} (sd : SdDriver σ) (cluster : Long) (t : σ), sd.info t = info.toSdInfo →
    ∀ blknum ∈ fatGetReads sd cluster t, Within blknum info.fat1 info.fatSize.toNat

section Records

variable {h : Header} {info : SdInfoT}

theorem toNat_eq_two_pow_clusterShift :
  ∀ clusterSize ∈ clusterSizes,
    clusterSize.toNat = 2 ^ (clusterShiftLoop clusterSize 8 1 0).toNat
  := by
  decide

variable (hr : Records h info)

include hr

theorem Records.toNat_clusterSize :
  info.clusterSize.toNat = 2 ^ info.clusterShift.toNat
  := by
  rw [hr.clusterSize, hr.clusterShift]
  apply toNat_eq_two_pow_clusterShift _ hr.clusterSize_mem

/-- The number of clusters, if the FATs are in the volume. -/
theorem Records.toNat_clusterCount (hfats : h.reserved.toNat + 2 * h.fatSize.toNat ≤ h.partSize.toNat) :
  info.clusterCount.toNat =
    (h.partSize.toNat - (h.reserved.toNat + 2 * h.fatSize.toNat)) / h.clusterSize.toNat
  := by
  rw [← hr.clusterSize, hr.toNat_clusterSize, hr.clusterCount, BitVec.toNat_ushiftRight,
    Nat.shiftRight_eq_div_pow]
  congr 1
  simp only [BitVec.toNat_sub, BitVec.toNat_add, BitVec.toNat_setWidth]
  have := h.partSize.isLt
  omega

/-- The blocks of the clusters are in the data area, unless that ends after block 2^32. -/
theorem Records.sdClusterToBlock_within
    (hdata : info.clusterOffset.toNat + info.clusterCount.toNat * info.clusterSize.toNat ≤ 2 ^ 32)
    (cluster : Long) :
  sdClusterToBlock info.toSdInfo cluster = 0 ∨
    Within (sdClusterToBlock info.toSdInfo cluster) info.clusterOffset
      (info.clusterCount.toNat * info.clusterSize.toNat)
  := by
  unfold sdClusterToBlock
  split_ifs with hlow hhigh
  · left
    rfl
  · left
    rfl
  · right
    have hlt : (cluster - 2).toNat < info.clusterCount.toNat := by
      rw [← BitVec.lt_def, ← BitVec.not_le]
      apply hhigh
    have hmul : ((cluster - 2).toNat + 1) * info.clusterSize.toNat ≤
        info.clusterCount.toNat * info.clusterSize.toNat :=
      Nat.mul_le_mul_right _ hlt
    have hpos : 0 < info.clusterSize.toNat := by
      rw [hr.toNat_clusterSize]
      apply Nat.two_pow_pos
    have hshift : ((cluster - 2) <<< info.clusterShift.toNat).toNat =
        (cluster - 2).toNat * info.clusterSize.toNat % 2 ^ 32 := by
      rw [BitVec.toNat_shiftLeft, Nat.shiftLeft_eq, hr.toNat_clusterSize]
    rw [Nat.succ_mul] at hmul
    unfold Within
    rw [BitVec.toNat_add, hshift]
    omega

omit hr in
theorem fatGetReads_eq {σ : Type} (sd : SdDriver σ) (cluster : Long) (t : σ) :
  fatGetReads sd cluster t =
    if cluster > (sd.info t).clusterCount + 1 then [] else [(sd.info t).fat1 + cluster >>> 7]
  := by
  change ((if cluster > (sd.info t).clusterCount + 1 then _ else _ :
    StateM (σ × List Long) (Option Long)) (t, [])).2.2 = _
  split_ifs
  · rfl
  · change ((if _ ≠ (0 : Byte) then _ else _ : StateM (σ × List Long) (Option Long)) _).2.2 = _
    split_ifs
    · rfl
    · rfl

omit hr in
/-- The entries of the FAT are in the first FAT, unless that ends after block 2^32. -/
theorem fatGetReads_within (hfat1 : info.fat1.toNat + info.fatSize.toNat ≤ 2 ^ 32)
    (hentries : info.clusterCount.toNat + 2 ≤ 128 * info.fatSize.toNat)
    {σ : Type} {sd : SdDriver σ} {t : σ} (hinfo : sd.info t = info.toSdInfo) (cluster : Long) :
  ∀ blknum ∈ fatGetReads sd cluster t, Within blknum info.fat1 info.fatSize.toNat
  := by
  intro blknum hblknum
  rw [fatGetReads_eq, hinfo] at hblknum
  split_ifs at hblknum with hlarge
  · cases hblknum
  · obtain rfl := List.mem_singleton.mp hblknum
    have hcluster : cluster.toNat ≤ info.clusterCount.toNat + 1 := by
      have hle : cluster ≤ info.clusterCount + 1 := BitVec.not_lt.mp hlarge
      rw [BitVec.le_def, BitVec.toNat_add] at hle
      apply hle.trans (Nat.mod_le _ _)
    unfold Within
    rw [BitVec.toNat_add, BitVec.toNat_ushiftRight, Nat.shiftRight_eq_div_pow]
    omega

theorem Records.toNat_fat1_le :
  info.fat1.toNat ≤ h.reserved.toNat + h.partOffset.toNat
  := by
  rw [hr.fat1, BitVec.toNat_add, BitVec.toNat_setWidth]
  omega

theorem Records.toNat_clusterOffset_le :
  info.clusterOffset.toNat ≤ h.reserved.toNat + 2 * h.fatSize.toNat + h.partOffset.toNat
  := by
  rw [hr.clusterOffset]
  simp only [BitVec.toNat_add, BitVec.toNat_setWidth]
  omega

/-- The volume that a detection records is consistent if the header fits. -/
theorem Records.consistent (hfits : h.Fits) :
  Consistent h.reserved.toNat info
  := by
  obtain ⟨hfats, hpart, hentries⟩ := hfits
  have hfat1 := hr.toNat_fat1_le
  have hoffset := hr.toNat_clusterOffset_le
  have hclusters : info.clusterCount.toNat * info.clusterSize.toNat ≤
      h.partSize.toNat - (h.reserved.toNat + 2 * h.fatSize.toNat) := by
    rw [hr.toNat_clusterCount hfats, hr.clusterSize]
    apply Nat.div_mul_le_self
  rw [← hr.toNat_clusterCount hfats] at hentries
  rw [← hr.fatSize, ← hr.partSize] at *
  rw [← hr.partOffset] at *
  exact {
    fats := hfats
    data := by omega
    part := hpart
    entries := hentries
    clusters := hr.sdClusterToBlock_within (by omega)
    reads := fun sd cluster t hinfo => fatGetReads_within (by omega) hentries hinfo cluster }

/-- The fields are consistent if the volume fits. -/
theorem Records.consistent_iff :
  Consistent h.reserved.toNat info ↔ h.Fits
  := by
  constructor
  · intro hc
    have hfats := hc.fats
    have hpart := hc.part
    have hentries := hc.entries
    rw [hr.fatSize, hr.partSize] at hfats
    rw [hr.partOffset, hr.partSize] at hpart
    rw [hr.toNat_clusterCount hfats, hr.fatSize] at hentries
    exact ⟨hfats, hpart, hentries⟩
  · apply hr.consistent

end Records

/-- The volume that `sd_detect` finds is consistent exactly if the header that it reads fits. -/
theorem sdDetect_consistent_iff {σ : Type} {spi : Spi σ} {fuel : ℕ} {s s' : SdState σ}
    (h : sdDetect spi fuel s = some (SD_DETECT_NEW, s')) :
  ∃ s₁ header, Identifies spi fuel s s₁ ∧ ReadsHeader spi s₁ header ∧ Records header s'.info ∧
    (Consistent header.reserved.toNat s'.info ↔ header.Fits)
  := by
  obtain ⟨s₁, header, hidentifies, hreads, hrecords⟩ := sdDetect_records h
  exact ⟨s₁, header, hidentifies, hreads, hrecords, hrecords.consistent_iff⟩

/-! ### Cards with and without a consistent volume -/

/-- The boot record of a volume with 32 reserved blocks, clusters of one block, and FATs of `low` +
256 * `high` blocks. -/
def bootRecord (low high : Byte) : List Byte :=
  List.replicate 11 0 ++ [0, 2, 1, 32, 0, 2, 0, 0, 0, 0, 0xF8] ++ List.replicate 14 0 ++ [low, high] ++
    List.replicate 472 0 ++ [0x55, 0xAA]

/-- The answers of a card of 1024 blocks without partitions. -/
def unpartitioned (boot : List Byte) : List Byte :=
  List.replicate 10 0xFF ++
    [0xFF, 0x01, 0xFF, 0x05, 0xFF, 0x01, 0xFF, 0x00, 0xFF, 0x00, 0xFE, 0x40] ++
    List.replicate 17 0 ++ [0xFF, 0x00, 0xFE] ++ boot ++ [0, 0]

/-- The start of the driver, with a card of 1024 blocks. -/
def cardStart (low high : Byte) : SdState (List Byte) where
  info := sdInfoInit
  bus := unpartitioned (bootRecord low high)

/-- The volume that is found on a card of 1024 blocks. -/
def cardFound (low high : Byte) : SdState (List Byte) :=
  (sdDetect scriptSpi 1).endState (cardStart low high)

/-- A volume with FATs of 8 blocks is consistent. -/
theorem sdDetect_consistent_8 :
  sdDetect scriptSpi 1 (cardStart 8 0) = some (SD_DETECT_NEW, cardFound 8 0) ∧
  Consistent 32 (cardFound 8 0).info
  := by
  have hdetect : sdDetect scriptSpi 1 (cardStart 8 0) = some (SD_DETECT_NEW, cardFound 8 0) :=
    eq_of_result (by decide +kernel)
  refine ⟨hdetect, ?_⟩
  obtain ⟨s₁, header, -, -, hr, hiff⟩ := sdDetect_consistent_iff hdetect
  have hpartOffset : header.partOffset = 0 := hr.partOffset.symm.trans (by decide +kernel)
  have hpartSize : header.partSize = 1024 := hr.partSize.symm.trans (by decide +kernel)
  have hfatSize : header.fatSize = 8 := hr.fatSize.symm.trans (by decide +kernel)
  have hclusterSize : header.clusterSize = 1 := hr.clusterSize.symm.trans (by decide +kernel)
  have hreserved : header.reserved.toNat = 32 := by
    have hfat1 : 32 = header.reserved.setWidth 32 + header.partOffset :=
      Eq.trans (by decide +kernel) hr.fat1
    have htoNat := congrArg BitVec.toNat hfat1
    rw [hpartOffset, BitVec.toNat_add, BitVec.toNat_setWidth] at htoNat
    have hlt := header.reserved.isLt
    change 32 = (header.reserved.toNat % 2 ^ 32 + 0) % 2 ^ 32 at htoNat
    omega
  rw [← hreserved]
  apply hiff.mpr
  unfold Header.Fits
  rw [hpartOffset, hpartSize, hfatSize, hclusterSize, hreserved]
  decide

/-- FATs of 1000 blocks do not fit on the card, but the volume is accepted. -/
theorem sdDetect_consistent_1000 :
  sdDetect scriptSpi 1 (cardStart 0xE8 3) = some (SD_DETECT_NEW, cardFound 0xE8 3) ∧
  ∀ reserved, ¬ Consistent reserved (cardFound 0xE8 3).info
  := by
  refine ⟨eq_of_result (by decide +kernel), ?_⟩
  intro reserved hc
  have hfats := hc.fats
  have hfatSize : (cardFound 0xE8 3).info.fatSize = 1000 := by decide +kernel
  have hpartSize : (cardFound 0xE8 3).info.partSize = 1024 := by decide +kernel
  rw [hfatSize, hpartSize] at hfats
  have hle : 2 * 1000 ≤ 1024 := (Nat.le_add_left _ _).trans hfats
  omega

end Mosnix.Sd
