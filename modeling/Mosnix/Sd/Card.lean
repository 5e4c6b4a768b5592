import Mosnix.Fat.Volume
import Mosnix.Lib.Program

/-!
# The driver of the SD card

The functions of `sdcard.c`, and `sd_get_size` of `sdasm.S`.  The SPI bus is a parameter, with
states `σ` and arbitrary answers: a card may be in any state, and fail at any command.

The detection of a card is cut into its stages, in the order of the source: a stage that takes the
exit `fail` of `sd_detect` has no result, or the result `false`.  Up to `sdIdentify` the stages only
talk to the card; those of `sdReadVolume` use the cached block as their buffer.
-/

namespace Mosnix.Sd

open Fat

/-! ### Constants -/

def SD_CMD0 : Byte := 0
def SD_CMD8 : Byte := 8
def SD_CMD9 : Byte := 9
def SD_CMD10 : Byte := 10
def SD_CMD17 : Byte := 17
def SD_CMD55 : Byte := 55
def SD_CMD58 : Byte := 58
def SD_ACMD41 : Byte := 41

def SD_R1_READY : Byte := 0x00
def SD_R1_IDLE : Byte := 0x01
def SD_R1_ILL : Byte := 0x04

def SD_C_EMPTY : Byte := 0
def SD_C_READ : Byte := 1

def SD_DETECT_NEW : Byte := 1
def SD_DETECT_EXISTING : Byte := 2

def SD_INIT_TIMEOUT : Word := 2 * 256

/-! ### The state of the driver -/

/-- `sd_info_t` -/
structure SdInfoT extends SdInfo where
  detect : Byte
  sdhc : Byte
  partOffset : Long
  partSize : Long
  fat2 : Long
  fatSize : Long
  cacheBlock : Long
  cacheBlock2 : Long
  cacheMode : Byte

/-- The value of `sd_info` when the system starts. -/
def sdInfoInit : SdInfoT where
  detect := 0
  sdhc := 0
  clusterSize := 0
  clusterShift := 0
  partOffset := 0
  partSize := 0
  fat1 := 0
  fat2 := 0
  fatSize := 0
  root := 0
  clusterOffset := 0
  clusterCount := 0
  cacheBlock := 0
  cacheBlock2 := 0
  cacheMode := SD_C_EMPTY
  block := fun _ => 0

/-- The SPI bus and the clock.  `card t` gives the blocks of the card that is in the slot in the
state `t`; the driver sends no command that writes a block. -/
structure Spi (σ : Type) where
  receiveByte : σ → Byte × σ
  send : List Byte → σ → σ
  lowerCs : σ → σ
  raiseCs : σ → σ
  sysClock : σ → Word × σ
  card : σ → Long → ℕ → Byte
  card_receiveByte : ∀ t, card (receiveByte t).2 = card t
  card_send : ∀ bytes t, card (send bytes t) = card t
  card_lowerCs : ∀ t, card (lowerCs t) = card t
  card_raiseCs : ∀ t, card (raiseCs t) = card t
  card_sysClock : ∀ t, card (sysClock t).2 = card t

/-- The variable `sd_info`, and the state of the bus. -/
structure SdState (σ : Type) where
  info : SdInfoT
  bus : σ

/-- `struct sd_card_command` -/
structure SdCardCommand where
  cmd : Byte
  argBytes : List Byte
  crc : Byte

def SdCardCommand.bytes (cmd : SdCardCommand) : List Byte :=
  cmd.cmd :: cmd.argBytes ++ [cmd.crc]

section Driver

variable {σ : Type} (spi : Spi σ)

def modifyInfo (g : SdInfoT → SdInfoT) : Program (SdState σ) Unit :=
  modifyThe (SdState σ) fun s => { s with info := g s.info }

/-- A program on the state of the bus. -/
def onBus {α : Type} (g : σ → α × σ) : Program (SdState σ) α :=
  Program.onPart SdState.bus (fun s t => { s with bus := t }) g

/-! ### The bus -/

def spiReceiveByte : Program (SdState σ) Byte := onBus spi.receiveByte

def spiSend (bytes : List Byte) : Program (SdState σ) Unit := onBus fun t => ((), spi.send bytes t)

def spiSdcardLowerCs : Program (SdState σ) Unit := onBus fun t => ((), spi.lowerCs t)

def spiSdcardRaiseCs : Program (SdState σ) Unit := onBus fun t => ((), spi.raiseCs t)

def sysClock : Program (SdState σ) Word := onBus spi.sysClock

/-- `spi_receive`: the bytes received. -/
def spiReceive : ℕ → Program (SdState σ) (List Byte)
  | 0 => return []
  | size + 1 => do
      let byte ← spiReceiveByte spi
      let bytes ← spiReceive size
      return byte :: bytes

/-- `spi_blank` -/
def spiBlank (size : ℕ) : Program (SdState σ) Unit := do
  let _ ← spiReceive spi size
  return ()

/-- A block with bytes stored at its start. -/
def store (bytes : List Byte) (block : ℕ → Byte) : ℕ → Byte := fun i => bytes.getD i (block i)

/-- `spi_receive` into the cached block. -/
def spiReceiveBlock (size : ℕ) : Program (SdState σ) Unit := do
  let bytes ← spiReceive spi size
  modifyInfo fun info => { info with block := store bytes info.block }

/-! ### Commands -/

/-- `sd_wakeup` -/
def sdWakeup : Program (SdState σ) Unit := do
  spiSdcardRaiseCs spi
  spiBlank spi 10

/-- A loop that receives bytes until one passes a test, at most `timeout` many: that byte. -/
def spiPoll (test : Byte → Bool) : ℕ → Program (SdState σ) (Option Byte)
  | 0 => return none
  | timeout + 1 => do
      let response ← spiReceiveByte spi
      if test response then return some response else spiPoll test timeout

/-- `sd_command` -/
def sdCommand (cmd : SdCardCommand) : Program (SdState σ) Byte := do
  match ← spiPoll spi (fun response => response = 0xFF) 255 with
  | none => return 0xFF
  | some _ =>
      spiSend spi cmd.bytes
      let response ← spiPoll spi (fun response => response &&& 0x80 = 0) 255
      return response.getD 0xFF

/-- A command without an argument. -/
def simpleCommand (cmd : Byte) : SdCardCommand where
  cmd := cmd
  argBytes := [0, 0, 0, 0]
  crc := 0

/-- `sd_simple_command` -/
def sdSimpleCommand (cmd : Byte) : Program (SdState σ) Byte := sdCommand spi (simpleCommand cmd)

/-- `sd_wait_for_start` -/
def sdWaitForStart : Program (SdState σ) Byte := do
  let response ← spiPoll spi (fun response => response ≠ 0xFF) 255
  return response.getD 0xFF

/-! ### Reading -/

/-- `sd_adjust_block_number` -/
def sdAdjustBlockNumber (info : SdInfoT) (blknum : Long) : Long :=
  if info.sdhc = 0 then blknum <<< 9 else blknum

/-- The command of `sd_read`. -/
def readCommand (info : SdInfoT) (blknum : Long) : SdCardCommand where
  cmd := SD_CMD17 ||| 0x40
  argBytes :=
    let blknum := sdAdjustBlockNumber info blknum
    [(blknum >>> 24).setWidth 8, (blknum >>> 16).setWidth 8, (blknum >>> 8).setWidth 8,
      blknum.setWidth 8]
  crc := 0

/-- `sd_read` -/
def sdRead (blknum : Long) : Program (SdState σ) Byte := do
  let cmd := readCommand (← get).info blknum
  spiSdcardLowerCs spi
  let response ← sdCommand spi cmd
  if response ≠ SD_R1_READY then
    spiSdcardRaiseCs spi
    return response
  else if (← sdWaitForStart spi) = 0 then
    spiSdcardRaiseCs spi
    return 0xFF
  else
    spiReceiveBlock spi SD_BLKSIZE
    spiBlank spi 2
    spiSdcardRaiseCs spi
    return SD_R1_READY

/-- `sd_cache_flush`: a stub of the source. -/
def sdCacheFlush : Program (SdState σ) Byte := return SD_R1_READY

/-- Record that nothing is cached. -/
def SdState.emptyCache (s : SdState σ) : SdState σ :=
  { s with info := { s.info with cacheBlock := 0, cacheBlock2 := 0, cacheMode := SD_C_EMPTY } }

/-- The part of `sd_cache_read` that reads a block that is not cached. -/
def sdCacheFill (blknum : Long) : Program (SdState σ) Byte := do
  let status ← sdRead spi blknum
  if status ≠ SD_R1_READY then
    return status
  else
    modifyInfo fun info => { info with
      cacheBlock := blknum, cacheBlock2 := 0, cacheMode := SD_C_READ }
    return SD_R1_READY

/-- `sd_cache_read` -/
def sdCacheRead (blknum : Long) : Program (SdState σ) Byte := do
  let info := (← get).info
  if blknum = info.cacheBlock ∧ info.cacheMode ≠ SD_C_EMPTY then
    return SD_R1_READY
  else if info.cacheMode ≠ SD_C_EMPTY then
    let status ← sdCacheFlush
    if status ≠ SD_R1_READY then
      return status
    else
      modifyThe (SdState σ) SdState.emptyCache
      sdCacheFill spi blknum
  else
    sdCacheFill spi blknum

/-! ### Identification of a card -/

/-- A loop of `sd_detect` that repeats an attempt until it succeeds or the time is over. -/
def sdRetry (attempt : Program (SdState σ) Bool) (timeoutBase : Word) :
    ℕ → Program (SdState σ) Bool
  | 0 => Program.fault
  | fuel + 1 => do
      if ← attempt then
        return true
      else if (← sysClock spi) - timeoutBase ≥ SD_INIT_TIMEOUT then
        return false
      else
        sdRetry attempt timeoutBase fuel

def resetCommand : SdCardCommand where
  cmd := SD_CMD0 + 0x40
  argBytes := [0, 0, 0, 0]
  crc := 0x95

def versionCommand : SdCardCommand where
  cmd := SD_CMD8 + 0x40
  argBytes := [0, 0, 0x01, 0xAA]
  crc := 0x87

def activateCommand (version : Byte) : SdCardCommand where
  cmd := SD_ACMD41 + 0x40
  argBytes := [if version = 2 then 0x40 else 0, 0, 0, 0]
  crc := 0

/-- Send CMD0 to the SD card to reset it. -/
def sdResetAttempt : Program (SdState σ) Bool := do
  let response ← sdCommand spi resetCommand
  return response = SD_R1_IDLE

/-- Send CMD8 to check the SD version. -/
def sdCheckVersion : Program (SdState σ) (Option Byte) := do
  let response ← sdCommand spi versionCommand
  if response &&& SD_R1_ILL = 0 then
    let argBytes ← spiReceive spi 4
    return if argBytes[3]? = some 0xAA then some 2 else none
  else
    return some 1

/-- Send CMD55/ACMD41 to initialize the SD card. -/
def sdActivateAttempt (version : Byte) : Program (SdState σ) Bool := do
  let _ ← sdSimpleCommand spi (SD_CMD55 + 0x40)
  let response ← sdCommand spi (activateCommand version)
  return response = SD_R1_READY

/-- Send CMD58 to check for SDHC support (version 2 cards only). -/
def sdCheckSdhc (version : Byte) : Program (SdState σ) Bool := do
  if version = 2 then
    let response ← sdSimpleCommand spi (SD_CMD58 + 0x40)
    if response ≠ SD_R1_READY then
      return false
    else
      let argBytes ← spiReceive spi 4
      if argBytes.headD 0 &&& 0xC0 = 0xC0 then
        modifyInfo fun info => { info with sdhc := 1 }
      return true
  else
    return true

/-- Send CMD9 to read the card-specific data. -/
def sdStartCsd : Program (SdState σ) Bool := do
  let response ← sdSimpleCommand spi (SD_CMD9 + 0x40)
  if response ≠ SD_R1_READY then
    return false
  else
    return (← sdWaitForStart spi) ≠ 0

/-- The part of `sd_detect` from the reset of the card to its card-specific data: the version of the
card. -/
def sdIdentify (fuel : ℕ) : Program (SdState σ) (Option Byte) := do
  sdWakeup spi
  spiSdcardLowerCs spi
  let timeoutBase ← sysClock spi
  if ← sdRetry spi (sdResetAttempt spi) timeoutBase fuel then
    match ← sdCheckVersion spi with
    | none => return none
    | some version =>
        let timeoutBase ← sysClock spi
        if ← sdRetry spi (sdActivateAttempt spi version) timeoutBase fuel then
          if ← sdCheckSdhc spi version then
            if ← sdStartCsd spi then
              return some version
            else
              return none
          else
            return none
        else
          return none
  else
    return none

/-! ### The volume on a card -/

/-- `sd_get_size`: the number of blocks of the card, from its card-specific data. -/
def sdGetSize (csd : ℕ → Byte) : Long :=
  if csd 0 &&& 0xC0 = 0 then
    let cSize : BitVec 12 := (csd 6).setWidth 2 ++ csd 7 ++ (csd 8 >>> 6).setWidth 2
    let cSizeMult : Byte := (csd 9 <<< 1 ||| csd 10 >>> 7) &&& 0x07
    (cSize.setWidth 32 + 1) <<< (cSizeMult + (csd 5 &&& 0x0F) - 7).toNat
  else if csd 0 &&& 0xC0 = 0x40 then
    let cSize : Long := csd 7 ++ csd 8 ++ csd 9 ++ (0 : Byte)
    (cSize + 0x100) <<< 2
  else
    0

/-- The card-specific data after `sd_get_size`, which shifts some of its bytes in place. -/
def sdGetSizeScratch (csd : ℕ → Byte) : ℕ → Byte := fun i =>
  if csd 0 &&& 0xC0 = 0 then
    match i with
    | 6 => csd 6 <<< 1 ||| csd 7 >>> 7
    | 7 => csd 7 <<< 1 ||| csd 8 >>> 7
    | 8 => csd 8 <<< 2
    | 10 => csd 10 <<< 1
    | i => csd i
  else
    csd i

/-- Receive the card-specific data, and find the size of the card. -/
def sdReadCsd : Program (SdState σ) Bool := do
  spiReceiveBlock spi 18
  let csd := (← get).info.block
  modifyInfo fun info => { info with block := sdGetSizeScratch csd, partSize := sdGetSize csd }
  return sdGetSize csd ≠ 0

/-- Read a block whose last two bytes should be 0x55, 0xAA. -/
def sdReadSigned (blknum : Long) : Program (SdState σ) Bool := do
  let response ← sdRead spi blknum
  let block := (← get).info.block
  return response = SD_R1_READY ∧ block 510 = 0x55 ∧ block 511 = 0xAA

/-- Find the partition, and read its first block. -/
def sdReadPartition : Program (SdState σ) Bool := do
  if ← sdReadSigned spi 0 then
    let block := (← get).info.block
    if block 450 = 0x0C then
      modifyInfo fun info => { info with partOffset := long block 454, partSize := long block 458 }
      sdReadSigned spi (long block 454)
    else
      return block 450 ≠ 0x0E
  else
    return false

/-- The valid cluster size values for FAT. -/
def clusterSizes : List Byte := [1, 2, 4, 8, 16, 32, 64, 128]

/-- The loop that turns the cluster size into a shift count. -/
def clusterShiftLoop (clusterSize : Byte) : ℕ → Byte → Byte → Byte
  | 0, _, shift => shift
  | n + 1, status, shift =>
      if status < clusterSize then clusterShiftLoop clusterSize n (status <<< 1) (shift + 1)
      else shift

/-- The members of `sd_info` for a volume with the header in the cached block. -/
def sdVolumeInfo (info : SdInfoT) : SdInfoT :=
  let clusterShift := clusterShiftLoop info.clusterSize 8 1 0
  let fatSize := long info.block 36
  let fat1 := (word info.block 14).setWidth 32
  let fat2 := fat1 + fatSize
  let clusterOffset := fat2 + fatSize
  { info with
    clusterShift := clusterShift
    fatSize := fatSize
    root := long info.block 44
    clusterCount := (info.partSize - clusterOffset) >>> clusterShift.toNat
    fat1 := fat1 + info.partOffset
    fat2 := fat2 + info.partOffset
    clusterOffset := clusterOffset + info.partOffset }

/-- Check the header of a FAT32 partition. -/
def sdReadHeader : Program (SdState σ) Bool := do
  let block := (← get).info.block
  if block 11 ≠ 0 ∨ block 12 ≠ 2 then
    return false
  else
    modifyInfo fun info => { info with clusterSize := block 13 }
    if !clusterSizes.contains (block 13) then
      return false
    else if block 16 ≠ 2 then
      return false
    else if block 17 ≠ 0 ∨ block 18 ≠ 0 then
      return false
    else if block 19 ≠ 0 ∨ block 20 ≠ 0 then
      return false
    else if block 21 ≠ 0xF0 ∧ block 21 < 0xF8 then
      return false
    else
      modifyInfo sdVolumeInfo
      return true

/-- The part of `sd_detect` from the card-specific data to the header of the volume. -/
def sdReadVolume : Program (SdState σ) Bool := do
  if ← sdReadCsd spi then
    if ← sdReadPartition spi then
      sdReadHeader
    else
      return false
  else
    return false

/-! ### Detection -/

/-- The part of `sd_detect` that detects a card from scratch. -/
def sdDetectNew (fuel : ℕ) : Program (SdState σ) Byte := do
  modifyInfo fun info => { info with detect := 0, sdhc := 0, partOffset := 0, partSize := 0 }
  match ← sdIdentify spi fuel with
  | none =>
      spiSdcardRaiseCs spi
      return SD_DETECT_NONE
  | some version =>
      if ← sdReadVolume spi then
        modifyThe (SdState σ) SdState.emptyCache
        spiSdcardRaiseCs spi
        modifyInfo fun info => { info with detect := version }
        return SD_DETECT_NEW
      else
        spiSdcardRaiseCs spi
        return SD_DETECT_NONE

/-- The query of `sd_detect` whether the card of the last detection is still there. -/
def sdQueryCid : Program (SdState σ) Bool := do
  spiSdcardLowerCs spi
  let status ← sdSimpleCommand spi (SD_CMD10 + 0x40)
  if status ≠ SD_R1_READY then
    spiSdcardRaiseCs spi
    return false
  else if (← sdWaitForStart spi) = 0 then
    spiSdcardRaiseCs spi
    return false
  else
    spiBlank spi 18
    spiSdcardRaiseCs spi
    return true

/-- `sd_detect` -/
def sdDetect (fuel : ℕ) : Program (SdState σ) Byte := do
  if (← get).info.detect ≠ 0 then
    if ← sdQueryCid spi then
      return SD_DETECT_EXISTING
    else
      sdDetectNew spi fuel
  else
    sdDetectNew spi fuel

/-- `sd_redetect` -/
def sdRedetect (fuel : ℕ) : Program (SdState σ) Byte := do
  modifyInfo fun info => { info with detect := 0 }
  sdDetect spi fuel

end Driver

end Mosnix.Sd
