import Mosnix.Fat.File
import Mosnix.Lib.Supply

/-!
# Whether `fatfs_file_read` stays in its buffer

`fatfs_file_read` clamps `size` to what is left of the file, but then it copies all bytes that are
left in the current block, and it advances neither in the block nor in the file.  So it copies the
same bytes in every round, and it stays in the buffer exactly if the rounds end when `size` bytes
were copied, or when a block cannot be read before that.
-/

namespace Mosnix.Fat

open Program Supply

section Driver

variable {σ : Type} (sd : SdDriver σ)

/-! ### Reading within bounds -/

/-- In the given number of rounds of the loop of `fatfs_file_read`, `size -= read_size` does not
wrap. -/
def SizeFits : ℕ → Word → FatFile → σ → Prop
  | 0, _, _, _ => True
  | rounds + 1, size, file, t =>
      let size := clampSize file size
      let r := fatfsInfoReadPrepare sd file.info t
      size ≠ 0 → 0 < r.1.1 → r.1.1 ≤ size.toNat ∧
        SizeFits rounds (size - BitVec.ofInt 16 r.1.1) { file with info := r.1.2 } r.2

/-- The number of bytes to be read: those that were asked for, and are left in the file. -/
def wanted (file : FatFile) (size : Word) : ℕ :=
  min size.toNat (file.info.size.toNat - file.posn.toNat)

/-- A call of `fatfs_file_read` ends, stores no bytes outside of the buffer, and returns an error
or not more than the number of bytes to be read; and its variable `size` never wraps. -/
def ReadInBounds (size : Word) (file : FatFile) (t : σ) : Prop :=
  (∃ fuel, Ends (fatfsFileRead sd fuel size file) t fun r _ =>
    r.1.2.length ≤ size.toNat ∧ (r.1.1 < 0 ∨ 0 ≤ r.1.1 ∧ r.1.1 ≤ wanted file size)) ∧
  ∀ rounds, SizeFits sd rounds size file t

/-- The number of bytes that are left in the current block. -/
def blockLeft (file : FatFile) : ℕ := SD_BLKSIZE - file.info.offset.toNat

/-- There is no current block, or it cannot be read after a number of reads. -/
def NoData (file : FatFile) (rounds : ℕ) (t : σ) : Prop :=
  file.info.block = 0 ∨
  (sd.sdCacheRead file.info.block (skip (sd.sdCacheRead file.info.block) rounds t)).1 ≠ 0

/-- After a number of rounds, which copy not more than the `n` bytes that are left and keep the
result in its type, all bytes are copied or there is no data. -/
def StopsWithin (file : FatFile) (n result : ℕ) (t : σ) : Prop :=
  ∃ rounds, rounds * blockLeft file ≤ n ∧
    ((result + rounds * blockLeft file : ℕ) : Int) ≤ SSIZE_MAX ∧
    (rounds * blockLeft file = n ∨ NoData sd file rounds t)

variable {sd} {file : FatFile} {t : σ}

/-! ### One round -/

/-- There is data left in the block. -/
theorem blockLeft_pos (file : FatFile) : 0 < blockLeft file := by
  have hlt := file.info.offset.isLt
  unfold blockLeft SD_BLKSIZE
  omega

theorem blockLeft_eq (file : FatFile) :
  (SD_BLKSIZE - file.info.offset.toNat : Int) = blockLeft file
  := by
  have hlt := file.info.offset.isLt
  unfold blockLeft SD_BLKSIZE
  omega

/-- The size is clamped to what is left of the file. -/
theorem toNat_clampSize (file : FatFile) (size : Word) :
  (clampSize file size).toNat = min size.toNat (file.info.size - file.posn).toNat
  := by
  have hlt := size.isLt
  have hsize : (size.setWidth 32).toNat = size.toNat := by
    rw [BitVec.toNat_setWidth]
    omega
  unfold clampSize
  dsimp only
  split_ifs with h
  · rw [BitVec.lt_def, hsize] at h
    rw [BitVec.toNat_setWidth]
    omega
  · rw [BitVec.lt_def, hsize] at h
    omega

theorem toNat_clampSize_eq_wanted (h : file.posn ≤ file.info.size) (size : Word) :
  (clampSize file size).toNat = wanted file size
  := by
  rw [toNat_clampSize, wanted, BitVec.toNat_sub_of_le h]

theorem clampSize_clampSize (file : FatFile) (size : Word) :
  clampSize file (clampSize file size) = clampSize file size
  := by
  apply BitVec.eq_of_toNat_eq
  rw [toNat_clampSize, toNat_clampSize]
  omega

/-- A round of the loop of `fatfs_file_read`. -/
theorem fatfsFileReadLoop_succ (fuel : ℕ) (size : Word) (result : Int) (data : List Byte) :
  fatfsFileReadLoop sd (fuel + 1) size result data file t =
    if clampSize file size = 0 then some (((result, data), file), t)
    else if file.info.block = 0 then some (((result, data), file), t)
    else if (sd.sdCacheRead file.info.block t).1 ≠ 0 then
      some (((- EIO, data), file), (sd.sdCacheRead file.info.block t).2)
    else if result + blockLeft file > SSIZE_MAX then none
    else fatfsFileReadLoop sd fuel (clampSize file size - BitVec.ofNat 16 (blockLeft file))
      (result + blockLeft file) (data ++ (List.range (blockLeft file)).map fun i =>
        (sd.info (sd.sdCacheRead file.info.block t).2).block (file.info.offset.toNat + i)) file
      (sd.sdCacheRead file.info.block t).2
  := by
  have hpos := blockLeft_pos file
  have hprepare : run (fatfsInfoReadPrepare sd file.info) t =
    some (fatfsInfoReadPrepare sd file.info t) := rfl
  rw [fatfsInfoReadPrepare_eq, blockLeft_eq] at hprepare
  have hclamp : size = 0 → clampSize file size = 0 := by
    rintro rfl
    apply BitVec.eq_of_toNat_eq
    rw [toNat_clampSize]
    apply Nat.zero_min
  rw [fatfsFileReadLoop]
  by_cases hsize : size = 0
  · rw [if_pos hsize, if_pos (hclamp hsize)]
    rfl
  rw [if_neg hsize]
  dsimp only
  split_ifs with hzero hblock hstatus hmax
  · rfl
  · rw [if_pos hblock] at hprepare
    apply (bind_eq hprepare).trans
    rfl
  · rw [if_neg hblock, if_pos hstatus] at hprepare
    apply (bind_eq hprepare).trans
    rfl
  all_goals
    rw [if_neg hblock, if_neg hstatus] at hprepare
    apply (bind_eq hprepare).trans
    dsimp only
    rw [if_neg (by omega), if_neg (by omega)]
    change (if result + blockLeft file > SSIZE_MAX then _ else _ :
      Program σ ((Int × List Byte) × FatFile)) (sd.sdCacheRead file.info.block t).2 = _
  · rw [if_pos hmax]
    rfl
  · rw [if_neg hmax, BitVec.ofInt_natCast, Int.toNat_natCast]

/-- The blocks fit the size in the first round and in the other ones. -/
theorem sizeFits_succ {rounds : ℕ} {size : Word} :
  SizeFits sd (rounds + 1) size file t ↔
    (clampSize file size ≠ 0 → ¬ NoData sd file 0 t → blockLeft file ≤ (clampSize file size).toNat ∧
      SizeFits sd rounds (clampSize file size - BitVec.ofNat 16 (blockLeft file)) file
        (sd.sdCacheRead file.info.block t).2)
  := by
  rw [SizeFits, fatfsInfoReadPrepare_eq, blockLeft_eq]
  apply imp_congr_right
  intro _
  split_ifs with hblock hstatus
  · apply iff_of_true
    · intro h
      apply absurd h (lt_irrefl 0)
    · intro h
      apply absurd (Or.inl hblock) h
  · apply iff_of_true
    · intro h
      apply absurd h (show ¬ 0 < - EIO by decide)
    · intro h
      apply absurd (Or.inr hstatus) h
  · have hdata : ¬ NoData sd file 0 t := by
      rintro (h | h)
      · apply hblock h
      · apply hstatus h
    have hpos : (0 : Int) < blockLeft file := Int.natCast_pos.mpr (blockLeft_pos file)
    rw [imp_iff_right hpos, imp_iff_right hdata, Int.ofNat_le, BitVec.ofInt_natCast]

/-! ### The loop -/

variable (sd file) in
/-- The loop of `fatfs_file_read` ends, and `size` never wraps. -/
def LoopEnds (size : Word) (result : ℕ) (data : List Byte) (t : σ) : Prop :=
  (∃ fuel, Ends (fatfsFileReadLoop sd fuel size result data file) t fun _ _ => True) ∧
  ∀ rounds, SizeFits sd rounds size file t

variable {size : Word} {result : ℕ} {data : List Byte}

/-- The loop ends if there are no bytes left, or no data. -/
theorem fatfsFileReadLoop_done (h : clampSize file size = 0 ∨ NoData sd file 0 t) (fuel : ℕ) :
  Ends (fatfsFileReadLoop sd (fuel + 1) size result data file) t fun r _ =>
    r.1.2 = data ∧ (r.1.1 < 0 ∨ r.1.1 = result)
  := by
  unfold Ends
  rw [fatfsFileReadLoop_succ]
  split_ifs with hzero hblock hstatus
  · exact ⟨_, _, rfl, rfl, Or.inr rfl⟩
  · exact ⟨_, _, rfl, rfl, Or.inr rfl⟩
  · exact ⟨_, _, rfl, rfl, Or.inl (show - EIO < 0 by decide)⟩
  · apply absurd h (not_or.mpr ⟨hzero, not_or.mpr ⟨hblock, hstatus⟩⟩)
  · apply absurd h (not_or.mpr ⟨hzero, not_or.mpr ⟨hblock, hstatus⟩⟩)

/-- A loop that ends in its first round. -/
theorem loopEnds_done (h : clampSize file size = 0 ∨ NoData sd file 0 t) :
  LoopEnds sd file size result data t
  := by
  constructor
  · refine ⟨1, (fatfsFileReadLoop_done h 0).mono ?_⟩
    intro r t' _
    trivial
  · intro rounds
    cases rounds with
    | zero => trivial
    | succ rounds =>
        rw [sizeFits_succ]
        intro hzero hdata
        apply absurd h (not_or.mpr ⟨hzero, hdata⟩)

variable (sd file t) in
/-- The bytes that are left in the current block. -/
def leftBytes : List Byte :=
  (List.range (blockLeft file)).map fun i =>
    (sd.info (sd.sdCacheRead file.info.block t).2).block (file.info.offset.toNat + i)

/-- A round copies the bytes that are left in the block. -/
theorem fatfsFileReadLoop_next (hzero : size ≠ 0) (hclamp : clampSize file size = size)
    (hdata : ¬ NoData sd file 0 t) (fuel : ℕ) :
  fatfsFileReadLoop sd (fuel + 1) size result data file t =
    if ((result + blockLeft file : ℕ) : Int) > SSIZE_MAX then none
    else fatfsFileReadLoop sd fuel (size - BitVec.ofNat 16 (blockLeft file))
      (result + blockLeft file : ℕ) (data ++ leftBytes sd file t) file
      (sd.sdCacheRead file.info.block t).2
  := by
  obtain ⟨hblock, hstatus⟩ := not_or.mp hdata
  rw [fatfsFileReadLoop_succ, hclamp, if_neg hzero, if_neg hblock, Nat.cast_add]
  apply if_neg hstatus

theorem toNat_sub_blockLeft (h : blockLeft file ≤ size.toNat) :
  (size - BitVec.ofNat 16 (blockLeft file)).toNat = size.toNat - blockLeft file
  := by
  have hlt := size.isLt
  have hleft : (BitVec.ofNat 16 (blockLeft file)).toNat = blockLeft file := by
    rw [BitVec.toNat_ofNat]
    omega
  rw [BitVec.toNat_sub_of_le (by rw [BitVec.le_def, hleft]; exact h), hleft]

theorem sizeFits_next_iff (hzero : size ≠ 0) (hclamp : clampSize file size = size)
    (hdata : ¬ NoData sd file 0 t) (rounds : ℕ) :
  SizeFits sd (rounds + 1) size file t ↔ blockLeft file ≤ size.toNat ∧
    SizeFits sd rounds (size - BitVec.ofNat 16 (blockLeft file)) file
      (sd.sdCacheRead file.info.block t).2
  := by
  rw [sizeFits_succ, hclamp, imp_iff_right hzero, imp_iff_right hdata]

/-- After a round the loop goes on with fewer bytes. -/
theorem loopEnds_next_iff (hzero : size ≠ 0) (hclamp : clampSize file size = size)
    (hdata : ¬ NoData sd file 0 t) :
  LoopEnds sd file size result data t ↔
    blockLeft file ≤ size.toNat ∧ ((result + blockLeft file : ℕ) : Int) ≤ SSIZE_MAX ∧
    LoopEnds sd file (size - BitVec.ofNat 16 (blockLeft file)) (result + blockLeft file)
      (data ++ leftBytes sd file t) (sd.sdCacheRead file.info.block t).2
  := by
  have hfits := sizeFits_next_iff hzero hclamp hdata
  constructor
  · rintro ⟨⟨fuel, hends⟩, hrounds⟩
    cases fuel with
    | zero =>
        obtain ⟨r, t', hr, -⟩ := hends
        cases hr
    | succ fuel =>
        unfold Ends at hends
        rw [fatfsFileReadLoop_next hzero hclamp hdata] at hends
        split_ifs at hends with hmax
        · obtain ⟨r, t', hr, -⟩ := hends
          cases hr
        · refine ⟨((hfits 0).mp (hrounds 1)).1, not_lt.mp hmax, ⟨fuel, hends⟩, ?_⟩
          intro rounds
          apply ((hfits rounds).mp (hrounds (rounds + 1))).2
  · rintro ⟨hle, hmax, ⟨fuel, hends⟩, hrounds⟩
    constructor
    · refine ⟨fuel + 1, ?_⟩
      unfold Ends
      rw [fatfsFileReadLoop_next hzero hclamp hdata, if_neg (not_lt.mpr hmax)]
      apply hends
    · intro rounds
      cases rounds with
      | zero => trivial
      | succ rounds => exact (hfits rounds).mpr ⟨hle, hrounds rounds⟩

theorem clampSize_sub_blockLeft (hclamp : clampSize file size = size)
    (h : blockLeft file ≤ size.toNat) :
  clampSize file (size - BitVec.ofNat 16 (blockLeft file)) =
    size - BitVec.ofNat 16 (blockLeft file)
  := by
  have hle := congrArg BitVec.toNat hclamp
  rw [toNat_clampSize] at hle
  apply BitVec.eq_of_toNat_eq
  rw [toNat_clampSize, toNat_sub_blockLeft h]
  omega

/-- As long as `size` does not wrap, the loop stores not more than the `size` bytes that are left,
and adds not more than these to its result. -/
theorem fatfsFileReadLoop_bounds (hclamp : clampSize file size = size) {fuel : ℕ}
    (hfits : SizeFits sd fuel size file t) :
  Ensures (fatfsFileReadLoop sd fuel size result data file) t fun r _ =>
    r.1.2.length ≤ data.length + size.toNat ∧
      (r.1.1 < 0 ∨ 0 ≤ r.1.1 ∧ r.1.1 ≤ result + size.toNat)
  := by
  induction fuel generalizing size result data t with
  | zero => apply Ensures.fault
  | succ fuel ih =>
      by_cases hdone : size = 0 ∨ NoData sd file 0 t
      · apply Ends.ensures
        apply (fatfsFileReadLoop_done (hclamp.symm ▸ hdone) fuel).mono
        rintro ⟨⟨r, _⟩, _⟩ t' ⟨rfl, hr⟩
        dsimp only at hr ⊢
        omega
      · obtain ⟨hzero, hdata⟩ := not_or.mp hdone
        obtain ⟨hle, hfits⟩ := (sizeFits_next_iff hzero hclamp hdata fuel).mp hfits
        unfold Ensures Ends
        rw [fatfsFileReadLoop_next hzero hclamp hdata]
        split_ifs
        · left
          rfl
        · apply Ensures.mono (ih (clampSize_sub_blockLeft hclamp hle) hfits)
          intro r t' hr
          rw [List.length_append, leftBytes, List.length_map, List.length_range,
            toNat_sub_blockLeft hle] at hr
          omega

/-- The reads stop at once. -/
theorem stopsWithin_done {n : ℕ} (hresult : (result : Int) ≤ SSIZE_MAX)
    (h : n = 0 ∨ NoData sd file 0 t) :
  StopsWithin sd file n result t
  := by
  refine ⟨0, ?_, ?_, ?_⟩
  · rw [Nat.zero_mul]
    apply Nat.zero_le
  · rw [Nat.zero_mul]
    apply hresult
  · rw [Nat.zero_mul]
    apply h.imp_left Eq.symm

/-- The reads stop after the next block. -/
theorem stopsWithin_next_iff {n : ℕ} (hzero : n ≠ 0) (hdata : ¬ NoData sd file 0 t) :
  StopsWithin sd file n result t ↔
    blockLeft file ≤ n ∧ ((result + blockLeft file : ℕ) : Int) ≤ SSIZE_MAX ∧
    StopsWithin sd file (n - blockLeft file) (result + blockLeft file)
      (sd.sdCacheRead file.info.block t).2
  := by
  constructor
  · rintro ⟨rounds, hle, hmax, hstop⟩
    cases rounds with
    | zero =>
        rw [Nat.zero_mul] at hstop
        obtain hstop | hstop := hstop
        · apply absurd hstop.symm hzero
        · apply absurd hstop hdata
    | succ rounds =>
        rw [Nat.succ_mul] at hle hmax hstop
        refine ⟨by omega, by omega, rounds, by omega, by omega, hstop.imp_left ?_⟩
        omega
  · rintro ⟨hleft, -, rounds, hle, hmax, hstop⟩
    refine ⟨rounds + 1, ?_, ?_, ?_⟩
    · rw [Nat.succ_mul]
      omega
    · rw [Nat.succ_mul]
      omega
    · apply hstop.imp_left
      rw [Nat.succ_mul]
      omega

/-- The loop ends, and `size` never wraps, if it stops after a number of rounds. -/
theorem loopEnds_iff (hclamp : clampSize file size = size)
    (hresult : (result : Int) ≤ SSIZE_MAX) :
  LoopEnds sd file size result data t ↔ StopsWithin sd file size.toNat result t
  := by
  induction hn : size.toNat using Nat.strong_induction_on generalizing size result data t with
  | _ n ih =>
      by_cases hdone : size = 0 ∨ NoData sd file 0 t
      · apply iff_of_true
        · apply loopEnds_done (hclamp.symm ▸ hdone)
        · apply stopsWithin_done hresult
          apply hdone.imp_left
          rintro rfl
          apply hn.symm
      · obtain ⟨hzero, hdata⟩ := not_or.mp hdone
        have hne : n ≠ 0 := by
          rintro rfl
          apply hzero (BitVec.eq_of_toNat_eq hn)
        rw [loopEnds_next_iff hzero hclamp hdata, stopsWithin_next_iff hne hdata, hn]
        apply and_congr_right
        intro hleft
        apply and_congr_right
        intro hmax
        rw [← hn] at hleft
        have hpos := blockLeft_pos file
        apply ih (n - blockLeft file) (by omega) (clampSize_sub_blockLeft hclamp hleft) hmax
        rw [toNat_sub_blockLeft hleft, hn]

/-! ### The call -/

/-- The loop may start with the clamped size. -/
theorem fatfsFileReadLoop_clampSize (fuel : ℕ) :
  fatfsFileReadLoop sd fuel size result data file t =
    fatfsFileReadLoop sd fuel (clampSize file size) result data file t
  := by
  cases fuel with
  | zero => rfl
  | succ fuel => rw [fatfsFileReadLoop_succ, fatfsFileReadLoop_succ, clampSize_clampSize]

theorem sizeFits_clampSize (rounds : ℕ) :
  SizeFits sd rounds size file t ↔ SizeFits sd rounds (clampSize file size) file t
  := by
  cases rounds with
  | zero => rfl
  | succ rounds => rw [sizeFits_succ, sizeFits_succ, clampSize_clampSize]

/-- `fatfs_file_read` stays in its buffer exactly if its rounds stop within the bytes to be read. -/
theorem fatfsFileRead_inBounds_iff (h : file.posn ≤ file.info.size) (size : Word) (t : σ) :
  ReadInBounds sd size file t ↔ StopsWithin sd file (wanted file size) 0 t
  := by
  have hclamp := clampSize_clampSize file size
  have hwanted := toNat_clampSize_eq_wanted h size
  have hle : wanted file size ≤ size.toNat := min_le_left _ _
  have hloop (fuel : ℕ) : fatfsFileRead sd fuel size file t =
      fatfsFileReadLoop sd fuel (clampSize file size) (0 : ℕ) [] file t :=
    fatfsFileReadLoop_clampSize fuel
  have hends : LoopEnds sd file (clampSize file size) 0 [] t ↔
    StopsWithin sd file (clampSize file size).toNat 0 t := loopEnds_iff hclamp (by decide)
  rw [← hwanted, ← hends]
  constructor
  · rintro ⟨⟨fuel, hends⟩, hrounds⟩
    constructor
    · refine ⟨fuel, ?_⟩
      unfold Ends
      rw [← hloop]
      apply hends.mono
      intro r t' _
      trivial
    · intro rounds
      apply (sizeFits_clampSize rounds).mp (hrounds rounds)
  · rintro ⟨⟨fuel, hends⟩, hrounds⟩
    constructor
    · refine ⟨fuel, ?_⟩
      unfold Ends
      rw [hloop]
      apply (hends.and (fatfsFileReadLoop_bounds hclamp (hrounds fuel))).mono
      rintro r t' ⟨-, hlength, hr⟩
      rw [hwanted, List.length_nil, Nat.zero_add] at hlength
      rw [hwanted, Nat.cast_zero, Int.zero_add] at hr
      exact ⟨hlength.trans hle, hr⟩
    · intro rounds
      apply (sizeFits_clampSize rounds).mpr (hrounds rounds)

end Driver

/-! ### A file in one block -/

/-- An open file of a given size, in a cluster of one block. -/
def oneBlockFile (size : Long) : FatFile where
  info :=
    { firstCluster := 2, size := size, cluster := 2, block := 2, offset := 0, blocksLeft := 1 }

/-- A file that fills its block is read within the bounds of a buffer of that size. -/
theorem fatfsFileRead_inBounds_512 :
  ReadInBounds (oneCluster fun _ => 0x41).driver 512 (oneBlockFile 512) fun _ => 0
  := by
  apply (fatfsFileRead_inBounds_iff (by decide) 512 _).mpr
  refine ⟨1, ?_, ?_, Or.inl ?_⟩
  · decide
  · decide
  · decide

/-- Reading a file with one byte writes 512 bytes. -/
theorem fatfsFileRead_inBounds_1 :
  (oneBlockFile 1).posn ≤ (oneBlockFile 1).info.size ∧
  ¬ ReadInBounds (oneCluster fun _ => 0x41).driver 1 (oneBlockFile 1) fun _ => 0
  := by
  refine ⟨by decide, ?_⟩
  rintro ⟨-, hrounds⟩
  have hdata : ¬ NoData (oneCluster fun _ => 0x41).driver (oneBlockFile 1) 0 fun _ => 0 := by
    rintro (h | h)
    · apply absurd h (by decide)
    · apply h rfl
  have hle : blockLeft (oneBlockFile 1) ≤ (clampSize (oneBlockFile 1) 1).toNat :=
    (sizeFits_succ.mp (hrounds 1) (by decide) hdata).1
  apply absurd hle (by decide)

end Mosnix.Fat
