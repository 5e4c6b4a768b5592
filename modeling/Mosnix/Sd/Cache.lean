import Mosnix.Sd.Geometry
import Mosnix.Lib.System

/-!
# Coherence of the block cache of the SD card

The block in `sd_info` is the cache of `sd_cache_read`, and the buffer of `sd_detect`.  On its exit
`fail`, `sd_detect` keeps the number and the mode of the cached block, though the card may have been
exchanged, or the block been written over.  The cache is coherent as long as every detection with a
cached block finds the card as it was, or gets no answer from it before its card-specific data, or
finds a volume (`Harmless`).
-/

namespace Mosnix.Sd

open Fat Program

variable {blknum : Long}

section Driver

variable {σ : Type} (spi : Spi σ)

/-! ### What a detection does -/

/-- The state in which a detection from scratch starts: the card has refused the query of its
identification, if it was asked. -/
def scratch (s : SdState σ) : SdState σ where
  info := { s.info with detect := 0, sdhc := 0, partOffset := 0, partSize := 0 }
  bus := if s.info.detect = 0 then s.bus else (cidQuery spi s.bus).2

/-- The card sends its card-specific data. -/
def SendsData (s : SdState σ) : Prop := ∃ version sdhc t, SendsCsd spi s.bus version sdhc t

/-- The card sends its card-specific data, and then a header that passes the checks. -/
def SendsVolume (s : SdState σ) : Prop :=
  ∃ version sdhc t h, SendsCsd spi s.bus version sdhc t ∧
    ReadsHeader spi ⟨{ s.info with sdhc := sdhc }, t⟩ h ∧ h.Valid

/-- What a detection does with the cached block, by the answers of the card. -/
inductive Detects (s s' : SdState σ) : Prop where
  | known : AcceptsCid spi s → cached spi s' = cached spi s → Detects s s'
  | found : s'.info.cacheMode = SD_C_EMPTY → Detects s s'
  | silent : ¬ AcceptsCid spi s → ¬ SendsData spi (scratch spi s) →
      cached spi s' = cached spi s → Detects s s'
  | refused : ¬ AcceptsCid spi s → SendsData spi (scratch spi s) →
      ¬ SendsVolume spi (scratch spi s) → tag spi s' = tag spi s → Detects s s'

variable {spi}

variable {s : SdState σ}

/-- A card that is not identified sends no data. -/
theorem not_sendsData (fuel : ℕ) {s' : SdState σ}
    (h : sdIdentify spi fuel (scratch spi s) = some (none, s')) :
  ¬ SendsData spi (scratch spi s)
  := by
  rintro ⟨version, sdhc, t, hcsd⟩
  cases (((sdIdentify_sendsCsd fuel rfl).of_eq h version sdhc t).mp hcsd).1

/-- A detection from scratch that starts in the state `s₀`. -/
theorem sdDetectNew_detects (fuel : ℕ) {s₀ : SdState σ} (hcid : ¬ AcceptsCid spi s₀)
    (hcached : cached spi s = cached spi s₀)
    (hscratch : { s with info := { s.info with
      detect := 0, sdhc := 0, partOffset := 0, partSize := 0 } } = scratch spi s₀) :
  Ensures (sdDetectNew spi fuel) s fun _ s' => Detects spi s₀ s'
  := by
  have hclear : (modifyInfo fun info => { info with
      detect := 0, sdhc := 0, partOffset := 0, partSize := 0 } : Program (SdState σ) Unit) s =
    some ((), scratch spi s₀) := by
    rw [← hscratch]
    rfl
  have hkept : cached spi (scratch spi s₀) = cached spi s₀ := by
    rw [← hscratch, ← hcached]
    rfl
  apply Ensures.bind_of_eq hclear
  apply Ensures.bind_of_forall
  intro version s₁ hidentify
  have hcached₁ := ((keeps_cached (keeps_sdIdentify fuel)).of_eq hidentify).trans hkept
  cases version with
  | none =>
      apply Ensures.bind (keeps_cached keeps_spiSdcardRaiseCs s₁)
      intro _ s₂ hs₂
      apply Ensures.pure
      apply Detects.silent hcid (not_sendsData fuel hidentify) (hs₂.trans hcached₁)
  | some version =>
      apply Ensures.bind_of_forall
      intro found s₂ hvolume
      cases found with
      | false =>
          have hsends := (sdIdentify_sendsCsd fuel rfl).of_eq hidentify
          have htag₂ : tag spi s₂ = tag spi s₀ :=
            (keeps_sdReadVolume.of_eq hvolume).trans (congrArg Prod.snd hcached₁)
          apply Ensures.bind (keeps_tag (keeps_layout keeps_spiSdcardRaiseCs) s₂)
          intro _ s₃ hs₃
          apply Ensures.pure
          apply Detects.refused hcid
          · exact ⟨version, s₁.info.sdhc, s₁.bus, (hsends _ _ _).mpr ⟨rfl, rfl, rfl⟩⟩
          · rintro ⟨version', sdhc, t, h, hcsd, hheader, hvalid⟩
            obtain ⟨-, rfl, rfl⟩ := (hsends version' sdhc t).mp hcsd
            have hknown := congrArg Prod.fst ((keeps_sdIdentify fuel).of_eq hidentify)
            have hinfo : s₁ = ⟨{ (scratch spi s₀).info with sdhc := s₁.info.sdhc }, s₁.bus⟩ := by
              change SdState.mk { (known spi s₁).1 with sdhc := s₁.info.sdhc } s₁.bus = _
              rw [hknown]
              rfl
            rw [← hinfo] at hheader
            obtain ⟨s₂', hfound⟩ := sdReadVolume_of_valid hheader hvalid
            rw [hvolume] at hfound
            cases hfound
          · apply hs₃.trans htag₂
      | true =>
          apply Ends.ensures
          exact ⟨_, _, rfl, Detects.found rfl⟩

/-- A detection keeps the cached block if the card answers the query of its identification, or
answers no identification; else it empties the cache or finds no volume. -/
theorem sdDetect_detects (fuel : ℕ) (s : SdState σ) :
  Ensures (sdDetect spi fuel) s fun _ s' => Detects spi s s'
  := by
  apply Ensures.get_bind
  split_ifs with hdetect
  · apply Ensures.bind_of_eq (sdQueryCid_eq s)
    have hcached : cached spi { s with bus := (cidQuery spi s.bus).2 } = cached spi s :=
      (keeps_cached keeps_sdQueryCid).of_eq (sdQueryCid_eq s)
    cases hquery : (cidQuery spi s.bus).1 with
    | true =>
        apply Ensures.pure
        apply Detects.known ⟨hdetect, hquery⟩ hcached
    | false =>
        apply sdDetectNew_detects fuel _ hcached
        · rw [scratch, if_neg hdetect]
        · rintro ⟨-, hquery'⟩
          rw [hquery] at hquery'
          cases hquery'
  · rw [not_not] at hdetect
    apply sdDetectNew_detects fuel _ rfl
    · rw [scratch, if_pos hdetect]
    · rintro ⟨hne, -⟩
      apply hne hdetect

theorem sdRedetect_eq (fuel : ℕ) (s : SdState σ) :
  sdRedetect spi fuel s = sdDetect spi fuel { s with info := { s.info with detect := 0 } }
  := by
  unfold sdRedetect
  generalize sdDetect spi fuel = m
  rfl

/-! ### Coherence -/

/-- The cached block is a block of the card. -/
def Coherent (spi : Spi σ) (s : SdState σ) : Prop :=
  s.info.cacheMode ≠ SD_C_EMPTY →
    ∀ i < SD_BLKSIZE, s.info.block i = spi.card s.bus s.info.cacheBlock i

/-- If `sd_read` succeeds then it reads the block from the card. -/
def ReadsCard (spi : Spi σ) (blknum : Long) (s : SdState σ) : Prop :=
  ∀ s', sdRead spi blknum s = some (SD_R1_READY, s') →
    ∀ i < SD_BLKSIZE, s'.info.block i = spi.card s'.bus blknum i

/-- The result of `sd_cache_read`: if it succeeds then the cached block is the block of the card. -/
def CacheReads (spi : Spi σ) (blknum : Long) (r : Byte) (s : SdState σ) : Prop :=
  r = SD_R1_READY → ∀ i < SD_BLKSIZE, s.info.block i = spi.card s.bus blknum i

theorem coherent_of_empty (h : s.info.cacheMode = SD_C_EMPTY) : Coherent spi s :=
  fun hmode => absurd h hmode

/-- The cache stays coherent if it is not changed. -/
theorem Coherent.of_cached {s' : SdState σ} (h : Coherent spi s) (heq : cached spi s' = cached spi s) :
  Coherent spi s'
  := by
  unfold Coherent
  rw [show s'.info.cacheMode = s.info.cacheMode from congrArg (fun c => c.2.2.1) heq,
    show s'.info.cacheBlock = s.info.cacheBlock from congrArg (fun c => c.2.1) heq,
    show s'.info.block = s.info.block from congrArg (fun c => c.1) heq,
    show spi.card s'.bus = spi.card s.bus from congrArg (fun c => c.2.2.2) heq]
  apply h

/-- `sd_cache_fill` reads the block into the cache, or empties it. -/
theorem sdCacheFill_coherent (hempty : s.info.cacheMode = SD_C_EMPTY) (hread : ReadsCard spi blknum s) :
  Ensures (sdCacheFill spi blknum) s fun r s' => Coherent spi s' ∧ CacheReads spi blknum r s'
  := by
  apply Ensures.bind_of_forall
  intro status s₁ hs₁
  split_ifs with hstatus
  · apply Ensures.pure
    constructor
    · apply coherent_of_empty
      rw [← hempty]
      apply congrArg (fun layout => layout.1.cacheMode) ((keeps_sdRead blknum).of_eq hs₁)
    · intro hready
      apply absurd hready hstatus
  · have hblock := hread s₁ (by rw [hs₁, not_not.mp hstatus])
    apply Ensures.bind (P := fun _ s₂ => Coherent spi s₂ ∧ CacheReads spi blknum SD_R1_READY s₂)
    · apply Ends.ensures
      apply Ends.modify
      exact ⟨fun _ => hblock, fun _ => hblock⟩
    intro _ s₂ hs₂
    apply Ensures.pure
    apply hs₂

/-- A block that is cached is not read again. -/
theorem sdCacheRead_hit (h : blknum = s.info.cacheBlock) (hmode : s.info.cacheMode ≠ SD_C_EMPTY) :
  sdCacheRead spi blknum s = some (SD_R1_READY, s)
  := by
  change (if blknum = s.info.cacheBlock ∧ s.info.cacheMode ≠ SD_C_EMPTY then _ else _ :
    Program (SdState σ) Byte) s = _
  rw [if_pos ⟨h, hmode⟩]
  rfl

/-- `sd_cache_read` keeps the cache coherent, and reads a block of the card. -/
theorem sdCacheRead_coherent (h : Coherent spi s) (hread : ReadsCard spi blknum s)
    (hread' : ReadsCard spi blknum s.emptyCache) :
  Ensures (sdCacheRead spi blknum) s fun r s' => Coherent spi s' ∧ CacheReads spi blknum r s'
  := by
  apply Ensures.get_bind
  dsimp only
  split_ifs with hhit hmode
  · apply Ensures.pure
    refine ⟨h, fun _ => ?_⟩
    rw [hhit.1]
    apply h hhit.2
  · have hflush : (sdCacheFlush : Program (SdState σ) Byte) s = some (SD_R1_READY, s) := rfl
    apply Ensures.bind_of_eq hflush
    rw [if_neg (not_not.mpr rfl)]
    have hempty : (modifyThe (SdState σ) SdState.emptyCache : Program (SdState σ) Unit) s =
        some ((), s.emptyCache) := rfl
    apply Ensures.bind_of_eq hempty
    apply sdCacheFill_coherent rfl hread'
  · apply sdCacheFill_coherent (not_not.mp hmode) hread

end Driver

/-! ### Runs of the driver -/

/-- The driver, and whether the card was exchanged since its last call. -/
structure Slot (σ : Type) where
  state : SdState σ
  swapped : Bool

/-- The calls of the driver, and the exchange of the card.  The loops of a detection end within
`fuel` rounds. -/
inductive SlotAction (σ : Type) where
  | detect (fuel : ℕ)
  | redetect (fuel : ℕ)
  | cacheRead (blknum : Long)
  | swap (bus : σ)

section Runs

variable {σ : Type} (spi : Spi σ)

/-- The first call after an exchange of the card is `sd_detect`, and the new card does not answer the
query of its identification. -/
inductive Slot.Step : Slot σ → SlotAction σ → Slot σ → Prop where
  | detect {s s' : SdState σ} {swapped : Bool} {fuel : ℕ} {r : Byte} :
      (swapped = true → ¬ AcceptsCid spi s) → sdDetect spi fuel s = some (r, s') →
      Step ⟨s, swapped⟩ (.detect fuel) ⟨s', false⟩
  | redetect {s s' : SdState σ} {fuel : ℕ} {r : Byte} :
      sdRedetect spi fuel s = some (r, s') → Step ⟨s, false⟩ (.redetect fuel) ⟨s', false⟩
  | cacheRead {s s' : SdState σ} {blknum : Long} {r : Byte} :
      ReadsCard spi blknum s → ReadsCard spi blknum s.emptyCache →
      sdCacheRead spi blknum s = some (r, s') → Step ⟨s, false⟩ (.cacheRead blknum) ⟨s', false⟩
  | swap {s : SdState σ} {swapped : Bool} {bus : σ} :
      Step ⟨s, swapped⟩ (.swap bus) ⟨{ s with bus := bus }, true⟩

/-- The runs of the driver, from the start of the system on. -/
def slots : System (Slot σ) (SlotAction σ) where
  start slot := slot.state.info = sdInfoInit
  step := Slot.Step spi

/-- The states of the driver and the answers of the card with which a detection leaves a coherent
cache: nothing is cached; or the card answers the query of its identification; or it is the card of the
last call and does not get to its card-specific data; or it has a volume. -/
inductive Harmless (swapped : Bool) (s : SdState σ) : Prop where
  | empty : s.info.cacheMode = SD_C_EMPTY → Harmless swapped s
  | known : AcceptsCid spi s → Harmless swapped s
  | silent : swapped = false → ¬ SendsData spi (scratch spi s) → Harmless swapped s
  | volume : SendsVolume spi (scratch spi s) → Harmless swapped s

/-- The detections of a run are harmless; `sd_redetect` first forgets the card. -/
def Undisturbed (slot : Slot σ) : SlotAction σ → Prop
  | .detect _ => Harmless spi slot.swapped slot.state
  | .redetect _ => Harmless spi slot.swapped
      { slot.state with info := { slot.state.info with detect := 0 } }
  | .cacheRead _ => True
  | .swap _ => True

variable {spi}

/-- A harmless detection leaves a coherent cache. -/
theorem sdDetect_coherent {fuel : ℕ} {s s' : SdState σ} {r : Byte} {swapped : Bool}
    (h : swapped = false → Coherent spi s) (hcid : swapped = true → ¬ AcceptsCid spi s)
    (heq : sdDetect spi fuel s = some (r, s')) (hok : Harmless spi swapped s) :
  Coherent spi s'
  := by
  have hsame (haccepts : AcceptsCid spi s) : swapped = false := by
    rw [← Bool.not_eq_true]
    intro hswapped
    apply hcid hswapped haccepts
  cases (sdDetect_detects fuel s).of_eq heq with
  | known haccepts hcached => apply (h (hsame haccepts)).of_cached hcached
  | found hempty => apply coherent_of_empty hempty
  | silent hrefuses hsilent hcached =>
      cases hok with
      | empty hempty => apply (coherent_of_empty hempty).of_cached hcached
      | known haccepts => apply absurd haccepts hrefuses
      | silent hswapped _ => apply (h hswapped).of_cached hcached
      | volume hvolume =>
          obtain ⟨version, sdhc, t, _, hcsd, -⟩ := hvolume
          apply absurd ⟨version, sdhc, t, hcsd⟩ hsilent
  | refused hrefuses hdata hvolume htag =>
      cases hok with
      | empty hempty =>
          apply coherent_of_empty
          rw [← hempty]
          apply congrArg (fun t => t.2.1) htag
      | known haccepts => apply absurd haccepts hrefuses
      | silent _ hsilent => apply absurd hdata hsilent
      | volume hvolume' => apply absurd hvolume' hvolume

/-- The invariant of the runs. -/
theorem coherent_of_undisturbed {slot : Slot σ}
    (h : (slots spi).Reachable (Undisturbed spi) slot) :
  slot.swapped = false → Coherent spi slot.state
  := by
  apply h.invariant
  · intro slot hstart _
    apply coherent_of_empty
    rw [show slot.state.info = sdInfoInit from hstart]
    rfl
  · intro slot a slot' ih hok hstep
    cases hstep with
    | detect hcid hr =>
        intro _
        apply sdDetect_coherent ih hcid hr hok
    | redetect hr =>
        intro _
        rw [sdRedetect_eq] at hr
        refine sdDetect_coherent ?_ ?_ hr hok
        · intro _
          apply (ih rfl).of_cached rfl
        · rintro ⟨⟩
    | cacheRead hread hread' hr =>
        intro _
        apply ((sdCacheRead_coherent (ih rfl) hread hread').of_eq hr).1
    | swap =>
        intro hswapped
        cases hswapped

/-- In a run of harmless detections, `sd_cache_read` gives blocks of the card that is in the
slot. -/
theorem cacheRead_of_reachable {s s' : SdState σ} {blknum : Long}
    (h : (slots spi).Reachable (Undisturbed spi) ⟨s, false⟩)
    (hread : ReadsCard spi blknum s) (hread' : ReadsCard spi blknum s.emptyCache)
    (hready : sdCacheRead spi blknum s = some (SD_R1_READY, s')) :
  ∀ i < SD_BLKSIZE, s'.info.block i = spi.card s'.bus blknum i
  := by
  have hcoherent : Coherent spi s := coherent_of_undisturbed h rfl
  apply ((sdCacheRead_coherent hcoherent hread hread').of_eq hready).2 rfl

end Runs

/-! ### Runs on a bus with given answers -/

section Script

variable (info : SdInfoT) (rest : List Byte)

theorem readsCard_zeroBlock (blknum : Long) : ReadsCard scriptSpi blknum ⟨info, zeroBlock rest⟩ := by
  intro s' hs' i hi
  rw [zeroBlock, sdRead_script info rest List.length_replicate blknum] at hs'
  cases hs'
  change (List.replicate SD_BLKSIZE 0).getD i (info.block i) = 0
  rw [List.getD_eq_getElem?_getD, List.getElem?_replicate, if_pos hi]
  rfl

end Script

/-- The answers of a card with a version of the card-specific data that the driver does not know. -/
def badCsd : List Byte :=
  List.replicate 10 0xFF ++
    [0xFF, 0x01, 0xFF, 0x05, 0xFF, 0x01, 0xFF, 0x00, 0xFF, 0x00, 0xFE, 0xC0] ++ List.replicate 17 0

/-- The answers of a card that does not return the check pattern of CMD8. -/
def badPattern : List Byte :=
  List.replicate 10 0xFF ++ [0xFF, 0x01, 0xFF, 0x01, 0, 0, 0, 0]

/-- The start of the driver, with a card from which a block of zeros is read, and its later
answers. -/
def scriptStart (rest : List Byte) : SdState (List Byte) where
  info := sdInfoInit
  bus := zeroBlock rest

/-- The state after a block of the card was read. -/
def scriptRead (rest : List Byte) : SdState (List Byte) :=
  (sdCacheRead scriptSpi 1).endState (scriptStart rest)

/-- The state after the card was detected again. -/
def scriptFailed (rest : List Byte) : SdState (List Byte) :=
  (sdRedetect scriptSpi 1).endState (scriptRead rest)

theorem scriptRead_reachable {ok : Slot (List Byte) → SlotAction (List Byte) → Prop}
    {rest : List Byte} (hok : ok ⟨scriptStart rest, false⟩ (.cacheRead 1)) :
  (slots scriptSpi).Reachable ok ⟨scriptRead rest, false⟩
  := by
  have hread : sdCacheRead scriptSpi 1 (scriptStart rest) = some (SD_R1_READY, scriptRead rest) := by
    apply eq_of_result
    have hfill : sdCacheRead scriptSpi 1 (scriptStart rest) =
        sdCacheFill scriptSpi 1 (scriptStart rest) := rfl
    rw [hfill, sdCacheFill, scriptStart, zeroBlock,
      bind_eq (sdRead_script sdInfoInit rest List.length_replicate 1)]
    rfl
  apply System.Reachable.step (System.Reachable.start rfl) hok
  apply Slot.Step.cacheRead (readsCard_zeroBlock _ _ 1) (readsCard_zeroBlock _ _ 1) hread

/-- A card that does not answer reads nothing. -/
theorem readsCard_of_ne {s : SdState (List Byte)}
    (h : (sdRead scriptSpi 1 s).map Prod.fst ≠ some SD_R1_READY) :
  ReadsCard scriptSpi 1 s
  := by
  intro s' hs'
  rw [hs'] at h
  apply absurd rfl h

/-- A block of a card of zeros is cached, and then the detection of the card fails: the cached block
now starts with the card-specific data. -/
theorem cacheRead_of_failed :
  ∃ s, (slots scriptSpi).Reachable (fun _ _ => True) ⟨s, false⟩ ∧
    ReadsCard scriptSpi 1 s ∧ ReadsCard scriptSpi 1 s.emptyCache ∧
    sdCacheRead scriptSpi 1 s = some (SD_R1_READY, s) ∧
    s.info.block 0 = 0xC0 ∧ scriptSpi.card s.bus 1 0 = 0
  := by
  have hfailed : sdRedetect scriptSpi 1 (scriptRead badCsd) =
      some (SD_DETECT_NONE, scriptFailed badCsd) :=
    eq_of_result (by decide +kernel)
  refine ⟨scriptFailed badCsd, ?_, ?_, ?_, ?_, ?_, rfl⟩
  · apply System.Reachable.step (scriptRead_reachable trivial) trivial
    apply Slot.Step.redetect hfailed
  · apply readsCard_of_ne
    decide +kernel
  · apply readsCard_of_ne
    decide +kernel
  · apply sdCacheRead_hit
    · decide +kernel
    · decide +kernel
  · decide +kernel

/-- A block is cached, the detection of the card fails before the card-specific data, and the block
is read again. -/
theorem cacheRead_of_reachable_hit :
  sdRedetect scriptSpi 1 (scriptRead badPattern) =
      some (SD_DETECT_NONE, scriptFailed badPattern) ∧
    sdCacheRead scriptSpi 1 (scriptFailed badPattern) =
      some (SD_R1_READY, scriptFailed badPattern) ∧
    ∀ i < SD_BLKSIZE, (scriptFailed badPattern).info.block i =
      scriptSpi.card (scriptFailed badPattern).bus 1 i
  := by
  have hfailed : sdRedetect scriptSpi 1 (scriptRead badPattern) =
      some (SD_DETECT_NONE, scriptFailed badPattern) :=
    eq_of_result (by decide +kernel)
  have hhit : sdCacheRead scriptSpi 1 (scriptFailed badPattern) =
      some (SD_R1_READY, scriptFailed badPattern) := by
    apply sdCacheRead_hit
    · decide +kernel
    · decide +kernel
  have hreach : (slots scriptSpi).Reachable (Undisturbed scriptSpi)
      ⟨scriptFailed badPattern, false⟩ := by
    refine System.Reachable.step (scriptRead_reachable trivial) ?_ (Slot.Step.redetect hfailed)
    apply Harmless.silent rfl
    apply not_sendsData 1
    apply eq_of_result
    decide +kernel
  refine ⟨hfailed, hhit, cacheRead_of_reachable hreach ?_ ?_ hhit⟩
  · apply readsCard_of_ne
    decide +kernel
  · apply readsCard_of_ne
    decide +kernel

end Mosnix.Sd
