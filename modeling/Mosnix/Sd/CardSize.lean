import Mosnix.Sd.Assembly
import Mosnix.Sd.Card

/-!
# The size of a card in assembly code

The routine `sd_get_size` of `sdasm.S`, which finds the size of a card from its card-specific data.
It takes the fields apart with rotations in place, so that it destroys the data.  It returns what
the C code in `sd_detect` that it replaces computes.
-/

namespace Mosnix.SdAsm

open Mos6502

/-! ### The C code -/

/-- The field `C_SIZE` of card-specific data of version 1. -/
def cSize1 (csd : ℕ → Byte) : Long :=
  (csd 6 &&& 0x03).setWidth 32 <<< 10 ||| (csd 7).setWidth 32 <<< 2 ||| (csd 8 >>> 6).setWidth 32

/-- The field `C_SIZE` of card-specific data of version 2. -/
def cSize2 (csd : ℕ → Byte) : Long :=
  (csd 7 ++ csd 8 ++ csd 9).setWidth 32

/-- The field `C_SIZE_MULT`. -/
def cSizeMult (csd : ℕ → Byte) : Byte :=
  if csd 10 &&& 0x80 ≠ 0 then (csd 9 &&& 0x03) <<< 1 + 1 else (csd 9 &&& 0x03) <<< 1

/-- The field `READ_BL_LEN`. -/
def readBlLen (csd : ℕ → Byte) : Byte :=
  csd 5 &&& 0x0F

/-- The size that the C code in `sd_detect` computes, and 0 where it fails.  A count of bits that is
negative has no meaning in C. -/
def sdPartSize (csd : ℕ → Byte) : Long :=
  if csd 0 &&& 0xC0 = 0x00 then
    if (cSizeMult csd).toNat + (readBlLen csd).toNat < 7 then 0
    else (cSize1 csd + 1) <<< ((cSizeMult csd).toNat + (readBlLen csd).toNat - 7)
  else if csd 0 &&& 0xC0 = 0x40 then
    let partSize : Long :=
      (csd 9).setWidth 32 <<< 8 ||| (csd 8).setWidth 32 <<< 16 ||| (csd 7).setWidth 32 <<< 24
    (partSize + 0x100) <<< 2
  else
    0

section CCode

variable (csd : ℕ → Byte)

/-- The size of a card of version 1 is in three bytes. -/
theorem cSize1_eq :
  cSize1 csd = ((csd 6).setWidth 2 ++ csd 7 ++ (csd 8 >>> 6).setWidth 2 : BitVec 12).setWidth 32
  := by
  apply BitVec.eq_of_getLsbD_eq
  intro i hi
  simp only [cSize1, BitVec.getLsbD_setWidth, BitVec.getLsbD_append, BitVec.getLsbD_or,
    BitVec.getLsbD_shiftLeft, BitVec.getLsbD_and, BitVec.getLsbD_ushiftRight]
  interval_cases i <;> simp

theorem cSize1_toNat :
  (cSize1 csd).toNat
    = (csd 6).toNat % 2 ^ 2 * 2 ^ 10 + (csd 7).toNat * 2 ^ 2 + (csd 8).toNat / 2 ^ 6
  := by
  rw [cSize1_eq, BitVec.toNat_setWidth, append_toNat, append_toNat]
  simp only [BitVec.toNat_setWidth, BitVec.toNat_ushiftRight, Nat.shiftRight_eq_div_pow]
  omega

/-- The multiplier is in two bytes. -/
theorem cSizeMult_eq : cSizeMult csd = (csd 9 <<< 1 ||| csd 10 >>> 7) &&& 0x07 := by
  have h : ∀ b : Byte, (b &&& 0x03) <<< 1 + 1 = (b <<< 1 ||| 1) &&& 0x07 := by decide +kernel
  have h' : ∀ b : Byte, (b &&& 0x03) <<< 1 = (b <<< 1 ||| 0) &&& 0x07 := by decide +kernel
  have hshift : ∀ b : Byte, b >>> 7 = if b &&& 0x80 ≠ 0 then 1 else 0 := by decide +kernel
  rw [cSizeMult, hshift]
  split_ifs
  · apply h
  · apply h'

theorem partSize2_eq :
  ((csd 9).setWidth 32 <<< 8 ||| (csd 8).setWidth 32 <<< 16 ||| (csd 7).setWidth 32 <<< 24 : Long)
    = csd 7 ++ csd 8 ++ csd 9 ++ (0 : Byte)
  := by
  apply BitVec.eq_of_getLsbD_eq
  intro i hi
  simp only [BitVec.getLsbD_setWidth, BitVec.getLsbD_append, BitVec.getLsbD_or,
    BitVec.getLsbD_shiftLeft]
  interval_cases i <;> simp

/-- The size of a card of version 2, from the field `C_SIZE`. -/
theorem partSize2_add :
  (csd 7 ++ csd 8 ++ csd 9 ++ (0 : Byte) + 0x100 : Long) <<< 2 = (cSize2 csd + 1) <<< 10
  := by
  have h : (csd 7 ++ csd 8 ++ csd 9 ++ (0 : Byte) : Long) = cSize2 csd <<< 8 := by
    apply BitVec.eq_of_getLsbD_eq
    intro i hi
    simp only [cSize2, BitVec.getLsbD_setWidth, BitVec.getLsbD_append, BitVec.getLsbD_shiftLeft]
    interval_cases i <;> simp
  have h₁ : (1 : Long).toNat = 1 := rfl
  have h₂ : (0x100 : Long).toNat = 0x100 := rfl
  rw [h]
  apply BitVec.eq_of_toNat_eq
  simp only [BitVec.toNat_shiftLeft, BitVec.toNat_add, Nat.shiftLeft_eq, h₁, h₂]
  omega

/-- The size of a card of version 2. -/
theorem sdPartSize_of_v2 {csd : ℕ → Byte} (hversion : csd 0 &&& 0xC0 = 0x40) :
  sdPartSize csd = (cSize2 csd + 1) <<< 10
  := by
  have hne : csd 0 &&& 0xC0 ≠ 0 := by
    rw [hversion]
    decide
  rw [sdPartSize, if_neg hne, if_pos hversion, partSize2_eq, ← partSize2_add]

/-- The count of bits that the routine shifts a size of version 1 by, in a byte. -/
def shiftCount : Byte :=
  cSizeMult csd + readBlLen csd - 7

theorem cSizeMult_le : (cSizeMult csd).toNat ≤ 7 := by
  have h : ∀ b : Byte, (b &&& 0x07).toNat ≤ 7 := by decide +kernel
  rw [cSizeMult_eq]
  apply h

theorem mask_toNat : ∀ b : Byte, (b &&& 0x0F).toNat = b.toNat % 2 ^ 4 := by
  decide +kernel

/-- The length of a block is in four bits. -/
theorem readBlLen_le : (readBlLen csd).toNat ≤ 15 := by
  rw [readBlLen, mask_toNat]
  omega

/-- A shift by a count that is negative in a byte leaves nothing. -/
theorem shiftLeft_shiftCount (size : Long) :
  size <<< (shiftCount csd).toNat
    = if (cSizeMult csd).toNat + (readBlLen csd).toNat < 7 then 0
      else size <<< ((cSizeMult csd).toNat + (readBlLen csd).toNat - 7)
  := by
  have hmult := cSizeMult_le csd
  have hlen := readBlLen_le csd
  split_ifs with h
  · have hcount : 32 ≤ (shiftCount csd).toNat := by
      rw [shiftCount]
      bv_omega
    apply BitVec.shiftLeft_eq_zero hcount
  · have hcount : (shiftCount csd).toNat = (cSizeMult csd).toNat + (readBlLen csd).toNat - 7 := by
      rw [shiftCount]
      bv_omega
    rw [hcount]

/-- The size in the model of the driver is that of the C code. -/
theorem sdGetSize_eq : Sd.sdGetSize csd = sdPartSize csd := by
  rw [Sd.sdGetSize, sdPartSize]
  dsimp only
  rw [← cSize1_eq, ← cSizeMult_eq, partSize2_eq, ← shiftLeft_shiftCount]
  rfl

end CCode

namespace Link

variable (k : Link) {m : Memory} {cpu : Cpu}

/-! ### The code -/

/-- A byte of the cached block as an operand. -/
def block (i : ℕ) : Mode := k.field (ofs_block + i)

/-- The test for the version of the data, and the return for an unknown version. -/
def getSizeVersion : List (Line Label) :=
  [ .op (.lda (k.block 0)),
    .op (.and (.imm 0xC0)),
    .branch .eq .getSizeV1,
    .op (.cmp (.imm 0x40)),
    .branch .eq .getSizeV2 ] ++ zeroOps.map .op ++ [.rts]

/-- The instructions for data of version 2. -/
def v2Ops : List Op :=
  [ .lda (k.block 9),
    .clc,
    .adc (.imm 1),
    .sta (reg 4),
    .lda (k.block 8),
    .adc (.imm 0),
    .sta (reg 2),
    .lda (k.block 7),
    .adc (.imm 0),
    .sta (reg 3),
    .asl (reg 4),
    .rol (reg 2),
    .rol (reg 3),
    .asl (reg 4),
    .rol (reg 2),
    .rol (reg 3),
    .lda (.imm 0),
    .ldx (reg 4) ]

/-- The size for data of version 2. -/
def getSizeV2 : List (Line Label) :=
  .label .getSizeV2 :: k.v2Ops.map .op ++ [.rts]

/-- The instructions that take `C_SIZE` of version 1 apart, in `rc4:rc5`. -/
def cSizeOps : List Op :=
  [ .sta (reg 2),
    .sta (reg 3),
    .asl (k.block 8),
    .rol (k.block 7),
    .rol (k.block 6),
    .asl (k.block 8),
    .lda (k.block 7),
    .rolA,
    .sta (reg 4),
    .lda (k.block 6),
    .rolA,
    .and (.imm 0x0F),
    .sta (reg 5) ]

/-- The instructions that add 1 to it. -/
def incOps : List Op :=
  [ .lda (reg 4),
    .clc,
    .adc (.imm 1),
    .sta (reg 4),
    .lda (reg 5),
    .adc (.imm 0),
    .sta (reg 5) ]

/-- The instructions that compute the count of bits, in `A`. -/
def countOps : List Op :=
  [ .lda (k.block 9),
    .asl (k.block 10),
    .rolA,
    .and (.imm 0x07),
    .sta (reg 6),
    .lda (k.block 5),
    .and (.imm 0x0F),
    .clc,
    .adc (reg 6),
    .sec,
    .sbc (.imm 7) ]

/-- The instructions before the test of the count. -/
def v1Ops : List Op :=
  k.cSizeOps ++ incOps ++ k.countOps

/-- The fields for data of version 1. -/
def getSizeV1 : List (Line Label) :=
  .label .getSizeV1 :: k.v1Ops.map .op

/-- The shift for data of version 1. -/
def getSizeShift : List (Line Label) :=
  [ .branch .eq .getSizeShiftDone,
    .op .tax,
    .label .getSizeShift,
    .op (.asl (reg 4)),
    .op (.rol (reg 5)),
    .op (.rol (reg 2)),
    .op (.rol (reg 3)),
    .op .dex,
    .branch .ne .getSizeShift,
    .label .getSizeShiftDone,
    .op (.lda (reg 4)),
    .op (.ldx (reg 5)),
    .rts ]

/-- `sd_get_size` -/
def sdGetSize : List (Line Label) :=
  k.getSizeVersion ++ k.getSizeV2 ++ k.getSizeV1 ++ getSizeShift

/-! ### Addresses -/

theorem addr_inj {i j : ℕ} (hi : i < SIZEOF_SD_INFO) (hj : j < SIZEOF_SD_INFO) :
  k.addr i = k.addr j ↔ i = j
  := by
  simp only [SIZEOF_SD_INFO] at hi hj
  simp only [addr]
  constructor
  · intro h
    bv_omega
  · rintro rfl
    rfl

/-! ### The fields of version 1 -/

/-- The bytes of `C_SIZE` as the rotations leave them. -/
def cSizeLow (csd : ℕ → Byte) : Byte :=
  rotate (rotate (csd 7) (csd 8).msb) (rotate (csd 8) false).msb

def cSizeHigh (csd : ℕ → Byte) : Byte :=
  rotate (rotate (csd 6) (csd 7).msb) (rotate (csd 7) (csd 8).msb).msb &&& 0x0F

/-- The memory after the size is shifted into place. -/
theorem cSizeOps_mem (cpu : Cpu) :
  (run k.cSizeOps cpu).mem
    = (((((((cpu.mem.store (rc 2) cpu.a).store (rc 3) cpu.a).store (k.addr (ofs_block + 8))
        (rotate ((k.info cpu.mem).block 8) false)).store (k.addr (ofs_block + 7))
        (rotate ((k.info cpu.mem).block 7) ((k.info cpu.mem).block 8).msb)).store
        (k.addr (ofs_block + 6))
        (rotate ((k.info cpu.mem).block 6) ((k.info cpu.mem).block 7).msb)).store
        (k.addr (ofs_block + 8)) (rotate (rotate ((k.info cpu.mem).block 8) false) false)).store
        (rc 4) (cSizeLow (k.info cpu.mem).block)).store (rc 5) (cSizeHigh (k.info cpu.mem).block)
  := by
  simp (disch := decide) [run, cSizeOps, Op.exec, Cpu.setNZ, Mode.read, Mode.addr, reg, block,
    field, info, cSizeLow, cSizeHigh, Memory.store, k.addr_inj, k.addr_ne_rc]

/-- The two bytes make up `C_SIZE`. -/
theorem cSize_toNat (csd : ℕ → Byte) :
  (cSizeHigh csd).toNat * 2 ^ 8 + (cSizeLow csd).toNat = (cSize1 csd).toNat
  := by
  have h₈ := rotate_toNat (csd 8) false
  have h₇ := rotate_toNat (csd 7) (csd 8).msb
  have h₆ := rotate_toNat (csd 6) (csd 7).msb
  have h₈' := rotate_toNat (rotate (csd 8) false) false
  have h₇' := rotate_toNat (rotate (csd 7) (csd 8).msb) (rotate (csd 8) false).msb
  have h₆' := rotate_toNat (rotate (csd 6) (csd 7).msb) (rotate (csd 7) (csd 8).msb).msb
  rw [cSize1_toNat, cSizeHigh, cSizeLow, mask_toNat]
  rw [Bool.toNat_false] at h₈ h₈'
  omega

/-- The two bytes with 1 added. -/
theorem cSize_inc (csd : ℕ → Byte) :
  Mos6502.long 0 0
      ((sum (cSizeHigh csd) 0 (sum (cSizeLow csd) 1 false).msb).setWidth 8)
      ((sum (cSizeLow csd) 1 false).setWidth 8)
    = cSize1 csd + 1
  := by
  have hhigh : (cSizeHigh csd).toNat < 2 ^ 4 := by
    rw [cSizeHigh, mask_toNat]
    apply Nat.mod_lt _ (by decide)
  have hsize := cSize_toNat csd
  have h₀ := sum_toNat (cSizeLow csd) 1 false
  have h₁ := sum_toNat (cSizeHigh csd) 0 (sum (cSizeLow csd) 1 false).msb
  have hlong := long_toNat 0 0 ((sum (cSizeHigh csd) 0 (sum (cSizeLow csd) 1 false).msb).setWidth 8)
    ((sum (cSizeLow csd) 1 false).setWidth 8)
  rw [Bool.toNat_false] at h₀
  bv_omega

theorem incOps_mem (cpu : Cpu) :
  (run incOps cpu).mem
    = (cpu.mem.store (rc 4) ((sum (cpu.mem (rc 4)) 1 false).setWidth 8)).store (rc 5)
      ((sum (cpu.mem (rc 5)) 0 (sum (cpu.mem (rc 4)) 1 false).msb).setWidth 8)
  :=
  rfl

theorem countOps_mem (cpu : Cpu) :
  (run k.countOps cpu).mem
    = (cpu.mem.store (k.addr (ofs_block + 10)) (rotate ((k.info cpu.mem).block 10) false)).store
      (rc 6) (rotate ((k.info cpu.mem).block 9) ((k.info cpu.mem).block 10).msb &&& 0x07)
  :=
  rfl

/-- A field of one bit rotated into another byte. -/
theorem rotate_msb (b b' : Byte) : rotate b b'.msb = b <<< 1 ||| b' >>> 7 := by
  have h : ∀ b : Byte, (BitVec.ofBool b.msb).setWidth 8 = b >>> 7 := by decide +kernel
  rw [rotate, h]

/-- The number of shifts. -/
theorem countOps_a (cpu : Cpu) : (run k.countOps cpu).a = shiftCount (k.info cpu.mem).block := by
  obtain ⟨b, b', h⟩ : ∃ b b', (run k.countOps cpu).a
      = (sum ((sum (((cpu.mem.store (k.addr (ofs_block + 10)) b).store (rc 6) b')
          (k.addr (ofs_block + 5)) &&& 0x0F) (rotate ((k.info cpu.mem).block 9)
            ((k.info cpu.mem).block 10).msb &&& 0x07) false).setWidth 8) (~~~ 7) true).setWidth 8 :=
    ⟨_, _, rfl⟩
  have hne : k.addr (ofs_block + 5) ≠ k.addr (ofs_block + 10) :=
    (k.addr_inj (by decide) (by decide)).not.mpr (by decide)
  rw [k.store_rc_addr (by decide) (by decide), Memory.store_of_ne hne, sum_sub, sum_add,
    rotate_msb, ← cSizeMult_eq, BitVec.add_comm] at h
  exact h

/-- The addresses that the routine stores to. -/
def sizeBytes : Set Word :=
  work.bytes ∪ {rc 6, k.addr (ofs_block + 6), k.addr (ofs_block + 7), k.addr (ofs_block + 8),
    k.addr (ofs_block + 10)}

/-- The instructions for version 1 in three parts. -/
theorem run_v1Ops (cpu : Cpu) :
  run k.v1Ops cpu = run k.countOps (run incOps (run k.cSizeOps cpu))
  := rfl

theorem rc_ne_addr {offset i : ℕ} (hoffset : offset < SIZEOF_SD_INFO) (hi : i < 0x20) :
  rc i ≠ k.addr offset
  :=
  (k.addr_ne_rc hoffset hi).symm

theorem countOps_get (cpu : Cpu) : work.get (run k.countOps cpu).mem = work.get cpu.mem := by
  simp (disch := decide) [countOps_mem, Place.get, work, Memory.store, rc_inj, k.rc_ne_addr]

theorem incOps_get (cpu : Cpu) :
  work.get (run incOps cpu).mem
    = Mos6502.long (cpu.mem (rc 3)) (cpu.mem (rc 2))
      ((sum (cpu.mem (rc 5)) 0 (sum (cpu.mem (rc 4)) 1 false).msb).setWidth 8)
      ((sum (cpu.mem (rc 4)) 1 false).setWidth 8)
  := rfl

/-- The number that is shifted. -/
theorem v1Ops_get (ha : cpu.a = 0) :
  work.get (run k.v1Ops cpu).mem = cSize1 (k.info cpu.mem).block + 1
  := by
  rw [run_v1Ops, countOps_get, incOps_get]
  simp (disch := decide) only [cSizeOps_mem, Memory.store, rc_inj, k.rc_ne_addr, ha]
  apply cSize_inc

theorem block_lt {i : ℕ} (hi : i < 512) : ofs_block + i < SIZEOF_SD_INFO := by
  simp only [ofs_block, SIZEOF_SD_INFO]
  omega

/-- A byte of the cached block after a store to another. -/
theorem info_block_store {i j : ℕ} {b : Byte} (hi : i < 512) (hj : j < 512) :
  (k.info (m.store (k.addr (ofs_block + j)) b)).block i = if i = j then b else (k.info m).block i
  := by
  simp only [info, Memory.store, k.addr_inj (block_lt hi) (block_lt hj), Nat.add_left_cancel_iff]

/-- A byte of the cached block after a store to an imaginary register. -/
theorem info_block_store_rc {i j : ℕ} {b : Byte} (hi : i < 512) (hj : j < 0x20) :
  (k.info (m.store (rc j) b)).block i = (k.info m).block i
  :=
  k.store_rc_addr (block_lt hi) hj

/-- The bytes of the block that are shifted. -/
theorem cSizeOps_block {i : ℕ} (hi : i < 512) :
  (k.info (run k.cSizeOps cpu).mem).block i
    = if i = 8 then rotate (rotate ((k.info cpu.mem).block 8) false) false
      else if i = 6 then rotate ((k.info cpu.mem).block 6) ((k.info cpu.mem).block 7).msb
      else if i = 7 then rotate ((k.info cpu.mem).block 7) ((k.info cpu.mem).block 8).msb
      else (k.info cpu.mem).block i
  := by
  rw [cSizeOps_mem]
  simp (disch := first | assumption | decide) only [k.info_block_store, k.info_block_store_rc]
  split_ifs <;> rfl

theorem incOps_block {i : ℕ} (hi : i < 512) :
  (k.info (run incOps cpu).mem).block i = (k.info cpu.mem).block i
  := by
  rw [incOps_mem, k.info_block_store_rc hi (by decide), k.info_block_store_rc hi (by decide)]

/-- The byte that the count shifts. -/
theorem countOps_block {i : ℕ} (hi : i < 512) :
  (k.info (run k.countOps cpu).mem).block i
    = if i = 10 then rotate ((k.info cpu.mem).block 10) false else (k.info cpu.mem).block i
  := by
  rw [countOps_mem, k.info_block_store_rc hi (by decide), k.info_block_store hi (by decide)]

/-- The bytes that are changed in the block. -/
theorem sdGetSizeScratch_eq {csd : ℕ → Byte} (hversion : csd 0 &&& 0xC0 = 0) (i : ℕ) :
  Sd.sdGetSizeScratch csd i
    = if i = 10 then rotate (csd 10) false
      else if i = 8 then rotate (rotate (csd 8) false) false
      else if i = 6 then rotate (csd 6) (csd 7).msb
      else if i = 7 then rotate (csd 7) (csd 8).msb
      else csd i
  := by
  have hfalse : ∀ b : Byte, rotate b false = b <<< 1 := by decide +kernel
  have hfalse' : ∀ b : Byte, b <<< 1 <<< 1 = b <<< 2 := by decide +kernel
  simp only [rotate_msb, hfalse, hfalse']
  unfold Sd.sdGetSizeScratch
  rw [if_pos hversion]
  split
  · rfl
  · rfl
  · rfl
  · rfl
  · rename_i h₆ h₇ h₈ h₁₀
    rw [if_neg h₁₀, if_neg h₈, if_neg h₆, if_neg h₇]

/-- The instructions leave the block as the model of the driver says. -/
theorem v1Ops_block {i : ℕ} (hi : i < 512) (hversion : (k.info cpu.mem).block 0 &&& 0xC0 = 0) :
  (k.info (run k.v1Ops cpu).mem).block i = Sd.sdGetSizeScratch (k.info cpu.mem).block i
  := by
  have h₁₀ : (10 : ℕ) < 512 := by decide
  rw [run_v1Ops, countOps_block _ hi, incOps_block _ hi, incOps_block _ h₁₀, cSizeOps_block _ hi,
    cSizeOps_block _ h₁₀, sdGetSizeScratch_eq hversion]
  rfl

theorem v1Ops_a (cpu : Cpu) : (run k.v1Ops cpu).a = shiftCount (k.info cpu.mem).block := by
  have h : ∀ i < 512, i ≠ 8 → i ≠ 6 → i ≠ 7 →
      (k.info (run incOps (run k.cSizeOps cpu)).mem).block i = (k.info cpu.mem).block i := by
    intro i hi h₈ h₆ h₇
    rw [incOps_block _ hi, cSizeOps_block _ hi, if_neg h₈, if_neg h₆, if_neg h₇]
  rw [run_v1Ops, countOps_a, shiftCount, shiftCount, cSizeMult, cSizeMult, readBlLen, readBlLen,
    h 5 (by decide) (by decide) (by decide) (by decide),
    h 9 (by decide) (by decide) (by decide) (by decide),
    h 10 (by decide) (by decide) (by decide) (by decide)]

theorem v1Ops_s (cpu : Cpu) : (run k.v1Ops cpu).s = cpu.s := by
  rw [run_v1Ops]
  simp only [run, cSizeOps, incOps, countOps, List.foldl_cons, List.foldl_nil, Op.exec, Cpu.setNZ]

/-- What the instructions leave as it was. -/
theorem v1Ops_eqOn (cpu : Cpu) : Set.EqOn (run k.v1Ops cpu).mem cpu.mem k.sizeBytesᶜ := by
  rw [run_v1Ops, countOps_mem, incOps_mem, cSizeOps_mem]
  repeat apply store_eqOn
  · apply Set.eqOn_refl
  all_goals simp [sizeBytes, work, Place.bytes]

/-! ### The size for version 2 -/

/-- The bytes that the instructions leave in `X:rc2:rc3`, for three bytes of the block. -/
def v2Value (a₃ a₂ a₁ : Byte) : Long :=
  let s₁ := sum a₁ 1 false
  let s₂ := sum a₂ 0 s₁.msb
  let s₃ := sum a₃ 0 s₂.msb
  let b₁ := rotate (s₁.setWidth 8) false
  let b₂ := rotate (s₂.setWidth 8) (s₁.setWidth 8).msb
  let b₃ := rotate (s₃.setWidth 8) (s₂.setWidth 8).msb
  Mos6502.long (rotate b₃ b₂.msb) (rotate b₂ b₁.msb) (rotate b₁ false) 0

/-- The size in blocks, from the size in units of 512 KiB. -/
theorem v2Value_eq (a₃ a₂ a₁ : Byte) :
  v2Value a₃ a₂ a₁ = (Mos6502.long a₃ a₂ a₁ 0 + 0x100) <<< 2
  := by
  have hsum : (sums a₃ a₂ a₁ 0 0 0 1 0 false).1 = _ := sums_add a₃ a₂ a₁ 0 0 0 1 0
  have hconst : Mos6502.long 0 0 1 0 = 0x100 := by decide
  have hshift : ∀ value : Long, value <<< 2 = value <<< 1 <<< 1 := by
    intro value
    rw [← BitVec.shiftLeft_add]
  rw [hshift, ← hconst, ← hsum, sums, ← long_rotate, ← long_rotate]
  rfl

theorem v2Ops_value (cpu : Cpu) :
  axValue (run k.v2Ops cpu) = v2Value ((k.info cpu.mem).block 7) ((k.info cpu.mem).block 8)
    ((k.info cpu.mem).block 9)
  := by
  obtain ⟨b, b', h⟩ : ∃ b b', axValue (run k.v2Ops cpu)
      = v2Value ((k.info ((cpu.mem.store (rc 4) b).store (rc 2) b')).block 7)
        ((k.info (cpu.mem.store (rc 4) b)).block 8) ((k.info cpu.mem).block 9) :=
    ⟨_, _, rfl⟩
  rw [h, k.info_block_store_rc (by decide) (by decide), k.info_block_store_rc (by decide) (by decide),
    k.info_block_store_rc (by decide) (by decide)]

theorem v2Ops_eqOn (cpu : Cpu) : Set.EqOn (run k.v2Ops cpu).mem cpu.mem work.bytesᶜ := by
  repeat apply store_eqOn
  · apply Set.eqOn_refl
  all_goals simp [work, Place.bytes, reg, Mode.addr]

/-! ### The routine -/

/-- The routine has returned, with a value in `A:X:rc2:rc3` and the stack pointer `s`.  The cached
block is as the model of the driver says for the memory `m`, and no other byte outside the imaginary
registers has changed. -/
structure SizeReturned (m : Memory) (s : Byte) (value : Long) (q : List (Line Label) × Cpu) :
    Prop where
  rts : q.1.head? = some .rts
  value_eq : axValue q.2 = value
  s_eq : q.2.s = s
  block_eq : ∀ i < 512, (k.info q.2.mem).block i = Sd.sdGetSizeScratch (k.info m).block i
  eqOn : Set.EqOn q.2.mem m k.sizeBytesᶜ

theorem work_subset_sizeBytes : work.bytes ⊆ k.sizeBytes :=
  Set.subset_union_left

/-- A return that stores to imaginary registers only. -/
theorem SizeReturned.of_eqOn {cpu : Cpu} {value : Long} {q : List (Line Label) × Cpu}
    (hrts : q.1.head? = some .rts) (hvalue : axValue q.2 = value) (hs : q.2.s = cpu.s)
    (hversion : (k.info cpu.mem).block 0 &&& 0xC0 ≠ 0)
    (hmem : Set.EqOn q.2.mem cpu.mem work.bytesᶜ) :
  k.SizeReturned cpu.mem cpu.s value q
  where
  rts := hrts
  value_eq := hvalue
  s_eq := hs
  block_eq i hi := by
    unfold Sd.sdGetSizeScratch
    rw [if_neg hversion]
    apply k.addr_of_eqOn hmem (block_lt hi)
  eqOn := hmem.mono (Set.compl_subset_compl.mpr k.work_subset_sizeBytes)

/-- The size of a card of version 2 is returned. -/
theorem v2_leads (hversion : (k.info cpu.mem).block 0 &&& 0xC0 = 0x40) :
  Leads k.sdGetSize (goto k.sdGetSize .getSizeV2, cpu)
    (k.SizeReturned cpu.mem cpu.s (sdPartSize (k.info cpu.mem).block))
  := by
  have hne : (k.info cpu.mem).block 0 &&& 0xC0 ≠ 0 := by
    rw [hversion]
    decide
  apply Leads.label
  apply Leads.ops k.v2Ops
  apply Leads.refl
  have hs : (run k.v2Ops cpu).s = cpu.s := rfl
  apply SizeReturned.of_eqOn k rfl _ hs hne (k.v2Ops_eqOn cpu)
  rw [v2Ops_value, v2Value_eq, sdPartSize, if_neg hne, if_pos hversion, partSize2_eq]
  rfl

/-- The value for data of version 1. -/
theorem sdPartSize_of_v1 {csd : ℕ → Byte} (hversion : csd 0 &&& 0xC0 = 0) :
  sdPartSize csd = (cSize1 csd + 1) <<< (shiftCount csd).toNat
  := by
  rw [sdPartSize, if_pos hversion, shiftLeft_shiftCount]

/-- The size of a card of version 1 is returned. -/
theorem v1_leads (ha : cpu.a = 0) (hversion : (k.info cpu.mem).block 0 &&& 0xC0 = 0) :
  Leads k.sdGetSize (goto k.sdGetSize .getSizeV1, cpu)
    (k.SizeReturned cpu.mem cpu.s (sdPartSize (k.info cpu.mem).block))
  := by
  apply Leads.label
  apply Leads.ops k.v1Ops
  have hz : (run k.v1Ops cpu).z = ((run k.v1Ops cpu).a == 0) := rfl
  have hs := k.v1Ops_s cpu
  have hcount := k.v1Ops_a cpu
  have hget := k.v1Ops_get ha
  have hblock := fun i hi => k.v1Ops_block (i := i) hi hversion
  have hframe := k.v1Ops_eqOn cpu
  generalize run k.v1Ops cpu = cpu₁ at *
  rw [hcount] at hz
  apply (work.shiftBy_leads [.tax] rfl rfl hz hcount rfl rfl).trans
  rintro ⟨_, cpu₂⟩ ⟨rfl, hs', hshifted⟩
  apply Leads.ops [.lda (reg 4), .ldx (reg 5)]
  apply Leads.refl
  refine ⟨rfl, ?_, hs'.trans hs, ?_, ?_⟩
  · rw [sdPartSize_of_v1 hversion, ← hget]
    apply hshifted.get_eq
  · intro i hi
    rw [← hblock i hi]
    apply k.addr_of_eqOn hshifted.eqOn (block_lt hi)
  · apply (hshifted.eqOn.mono (Set.compl_subset_compl.mpr k.work_subset_sizeBytes)).trans hframe

/-- Size 0 is returned for another version. -/
theorem unknown_leads (hversion : (k.info cpu.mem).block 0 &&& 0xC0 ≠ 0)
    (hversion' : (k.info cpu.mem).block 0 &&& 0xC0 ≠ 0x40) :
  Leads k.sdGetSize (k.getSizeVersion.drop 5 ++ k.getSizeV2 ++ k.getSizeV1 ++ getSizeShift, cpu)
    (k.SizeReturned cpu.mem cpu.s (sdPartSize (k.info cpu.mem).block))
  := by
  apply Leads.ops zeroOps
  apply Leads.refl
  apply SizeReturned.of_eqOn k rfl _ (zeroOps_s cpu) hversion (zeroOps_eqOn cpu)
  rw [zeroOps_value, sdPartSize, if_neg hversion, if_neg hversion']

/-- The routine returns the size that the C code computes. -/
theorem sdGetSize_leads (cpu : Cpu) :
  Leads k.sdGetSize (k.sdGetSize, cpu) (k.SizeReturned cpu.mem cpu.s (sdPartSize (k.info cpu.mem).block))
  := by
  apply Leads.op
  apply Leads.op
  by_cases h₁ : (k.info cpu.mem).block 0 &&& 0xC0 = 0
  · apply Leads.branch
    · exact beq_iff_eq.mpr h₁
    · apply k.v1_leads
      · exact h₁
      · exact h₁
  apply Leads.noBranch
  · exact beq_eq_false_iff_ne.mpr h₁
  apply Leads.op
  by_cases h₂ : (k.info cpu.mem).block 0 &&& 0xC0 = 0x40
  · apply Leads.branch
    · exact beq_iff_eq.mpr (sub_eq_zero.mpr h₂)
    · apply k.v2_leads
      exact h₂
  apply Leads.noBranch
  · exact beq_eq_false_iff_ne.mpr (sub_ne_zero.mpr h₂)
  apply k.unknown_leads
  · exact h₁
  · exact h₂

end Link

/-- `sd_detect` fails for a card without blocks. -/
theorem sdReadVolume_of_size_eq_zero {σ : Type} {spi : Sd.Spi σ} {s s' : Sd.SdState σ}
    (hreceive : Sd.spiReceiveBlock spi 18 s = some ((), s'))
    (hsize : sdPartSize s'.info.block = 0) :
  Program.Ends (Sd.sdReadVolume spi) s fun found _ => found = false
  := by
  have hcsd : Program.Ends (Sd.sdReadCsd spi) s fun found _ => found = false := by
    apply Program.Ends.bind_of_eq hreceive
    apply Program.Ends.bind_of_eq rfl
    apply Program.Ends.bind_of_eq rfl
    apply Program.Ends.pure
    rw [sdGetSize_eq, hsize]
    decide
  apply Program.Ends.bind hcsd
  rintro _ s'' rfl
  rw [if_neg Bool.false_ne_true]
  apply Program.Ends.pure
  rfl

/-- The routine returns the size that the C code computes, for every address of `sd_info` and all
card-specific data in its block.  For version 2 that is the size from the field `C_SIZE`.  The size
is the one in the model of the driver, which does not accept a card with the size 0. -/
theorem sdGetSize_returned (k : Link) (cpu : Cpu) :
  Leads k.sdGetSize (k.sdGetSize, cpu)
      (k.SizeReturned cpu.mem cpu.s (sdPartSize (k.info cpu.mem).block))
    ∧ (∀ csd : ℕ → Byte,
      csd 0 &&& 0xC0 = 0x40 → sdPartSize csd = (cSize2 csd + 1) <<< 10)
    ∧ (∀ csd : ℕ → Byte, Sd.sdGetSize csd = sdPartSize csd)
    ∧ ∀ {σ : Type} (spi : Sd.Spi σ) (s s' : Sd.SdState σ),
      Sd.spiReceiveBlock spi 18 s = some ((), s') → sdPartSize s'.info.block = 0 →
        Program.Ends (Sd.sdReadVolume spi) s fun found _ => found = false
  := by
  refine ⟨k.sdGetSize_leads cpu, ?_, sdGetSize_eq, ?_⟩
  · intro csd hversion
    apply sdPartSize_of_v2 hversion
  · intro σ spi s s' hreceive hsize
    apply sdReadVolume_of_size_eq_zero hreceive hsize

/-- Card-specific data of version 2, with `C_SIZE` 1. -/
def csdMemory : Memory := fun a =>
  if a = link0200.addr ofs_block then 0x40
  else if a = link0200.addr (ofs_block + 9) then 1
  else 0

/-- The card has 2048 blocks. -/
theorem sdGetSize_returned_2048 :
  Leads link0200.sdGetSize (link0200.sdGetSize, Cpu.ofMemory csdMemory) fun q =>
    q.1.head? = some .rts ∧ axValue q.2 = 2048
  := by
  apply (sdGetSize_returned link0200 _).1.trans
  intro q hq
  apply Leads.refl
  exact ⟨hq.rts, hq.value_eq.trans (by decide)⟩

end Mosnix.SdAsm
