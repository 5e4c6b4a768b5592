import Mosnix.Sd.Phases
import Mosnix.Sd.Read

/-!
# The stages of a detection

What the stages of `sd_detect` keep, and which answers of the card lead to the next stage.  The
identification of a card only reads from the bus: `SendsCsd` says that the card answers its commands
in time, up to the start of the card-specific data, and `sdIdentify` succeeds exactly then.  Until
there the cached block is kept; the stages after it use it as their buffer.
-/

namespace Mosnix.Sd

open Fat Program Supply

section Driver

variable {σ : Type} (spi : Spi σ)

/-! ### What the stages of the detection keep -/

/-- The number and the mode of the cached block, and the card. -/
def tag (s : SdState σ) : Long × Byte × (Long → ℕ → Byte) :=
  (s.info.cacheBlock, s.info.cacheMode, spi.card s.bus)

/-- The cached block with its number and mode, and the card. -/
def cached (s : SdState σ) : (ℕ → Byte) × Long × Byte × (Long → ℕ → Byte) :=
  (s.info.block, tag spi s)

/-- The variable `sd_info` but for the type of the card, and the card. -/
def known (s : SdState σ) : SdInfoT × (Long → ℕ → Byte) :=
  ({ s.info with sdhc := 0 }, spi.card s.bus)

/-- The variable `sd_info` but for the type of the card and the cached block, and the card. -/
def layout (s : SdState σ) : SdInfoT × (Long → ℕ → Byte) :=
  ({ s.info with sdhc := 0, block := fun _ => 0 }, spi.card s.bus)

variable {spi}

/-- What keeps everything that is known keeps the cache. -/
theorem keeps_cached {α : Type} {m : Program (SdState σ) α} (h : Keeps (known spi) m) :
  Keeps (cached spi) m
  := h.comp fun known => (known.1.block, known.1.cacheBlock, known.1.cacheMode, known.2)

theorem keeps_layout {α : Type} {m : Program (SdState σ) α} (h : Keeps (known spi) m) :
  Keeps (layout spi) m
  := h.comp fun known => ({ known.1 with block := fun _ => 0 }, known.2)

theorem keeps_tag {α : Type} {m : Program (SdState σ) α} (h : Keeps (layout spi) m) :
  Keeps (tag spi) m
  := h.comp fun layout => (layout.1.cacheBlock, layout.1.cacheMode, layout.2)

/-- What is read off the state is kept in all phases, if it does not change with the bus. -/
theorem phases_eq {γ : Type*} {f : SdState σ → γ}
    (hbus : ∀ s t, spi.card t = spi.card s.bus → f { s with bus := t } = f s) (c : γ) :
  Phases spi (fun g => ∀ s, f { s with info := g s.info } = f s) (f · = c) (f · = c) (f · = c)
  where
  receiveByte s hs := (hbus s _ (spi.card_receiveByte s.bus)).trans hs
  send bytes s hs := (hbus s _ (spi.card_send bytes s.bus)).trans hs
  of_low _ hs := hs
  of_high _ hs := hs
  blank s hs := (hbus s _ (spi.card_receiveByte s.bus)).trans hs
  lowerCs s hs := (hbus s _ (spi.card_lowerCs s.bus)).trans hs
  raiseCs s hs := (hbus s _ (spi.card_raiseCs s.bus)).trans hs
  sysClock s hs := (hbus s _ (spi.card_sysClock s.bus)).trans hs
  allows _ hg s hs := (hg s).trans hs
  allows_low _ hg s hs := (hg s).trans hs
  allows_high _ hg s hs := (hg s).trans hs

theorem known_bus (s : SdState σ) (t : σ) (h : spi.card t = spi.card s.bus) :
  known spi { s with bus := t } = known spi s
  := congrArg (Prod.mk _) h

theorem layout_bus (s : SdState σ) (t : σ) (h : spi.card t = spi.card s.bus) :
  layout spi { s with bus := t } = layout spi s
  := congrArg (Prod.mk _) h

theorem tag_bus (s : SdState σ) (t : σ) (h : spi.card t = spi.card s.bus) :
  tag spi { s with bus := t } = tag spi s
  := congrArg (fun card => (_, _, card)) h

theorem keeps_spiSdcardRaiseCs : Keeps (known spi) (spiSdcardRaiseCs spi) :=
  .of_leads fun c => (phases_eq known_bus c).spiSdcardRaiseCs_leads

/-- The identification of a card leaves the cached block alone. -/
theorem keeps_sdIdentify (fuel : ℕ) : Keeps (known spi) (sdIdentify spi fuel) :=
  .of_leads fun c => ((phases_eq known_bus c).sdIdentify_leads (fun _ => rfl) fuel).weaken

/-- `sd_query_cid` changes the bus only. -/
theorem keeps_sdQueryCid : Keeps (known spi) (sdQueryCid spi) :=
  .of_leads fun c => (phases_eq known_bus c).sdQueryCid_leads

theorem keeps_spiReceiveBlock (size : ℕ) : Keeps (layout spi) (spiReceiveBlock spi size) :=
  .of_leads fun c => (phases_eq layout_bus c).spiReceiveBlock_leads size fun _ _ => rfl

/-- `sd_read` changes the block only. -/
theorem keeps_sdRead (blknum : Long) : Keeps (layout spi) (sdRead spi blknum) :=
  .of_leads fun c => (phases_eq layout_bus c).sdRead_leads blknum fun _ _ => rfl

/-- The search for a volume writes over the cached block, but keeps its number and mode. -/
theorem keeps_sdReadVolume : Keeps (tag spi) (sdReadVolume spi) := by
  apply Keeps.of_leads
  intro c
  apply (phases_eq tag_bus c).sdReadVolume_leads
  intro g hg s
  obtain ⟨hblock, hmode⟩ := hg s.info
  simp only [tag, hblock, hmode]

/-! ### The answers during the identification -/

section Answers

variable (spi)

/-- The answer to the query of the identification of the card, and the bus after the query. -/
def cidQuery (t : σ) : Bool × σ :=
  let status := response spi (simpleCommand (SD_CMD10 + 0x40)) (spi.lowerCs t)
  let start := startToken spi status.2
  if status.1 ≠ SD_R1_READY then (false, spi.raiseCs status.2)
  else if start.1 = 0 then (false, spi.raiseCs start.2)
  else (true, spi.raiseCs (skip spi.receiveByte 18 start.2))

/-- The driver asks for the identification of the card, and the card answers. -/
def AcceptsCid (s : SdState σ) : Prop := s.info.detect ≠ 0 ∧ (cidQuery spi s.bus).1 = true

/-- The answer to the reset. -/
def resets (t : σ) : Bool × σ :=
  let answer := response spi resetCommand t
  (answer.1 = SD_R1_IDLE, answer.2)

/-- The answer to the request to initialize. -/
def activates (version : Byte) (t : σ) : Bool × σ :=
  let answer := response spi (activateCommand version)
    (response spi (simpleCommand (SD_CMD55 + 0x40)) t).2
  (answer.1 = SD_R1_READY, answer.2)

/-- A request that is repeated until it succeeds does so before the time-out. -/
inductive InTime (request : σ → Bool × σ) (timeoutBase : Word) : σ → σ → Prop where
  | now {t : σ} : (request t).1 = true → InTime request timeoutBase t (request t).2
  | later {t t' : σ} : (request t).1 = false →
      (spi.sysClock (request t).2).1 - timeoutBase < SD_INIT_TIMEOUT →
      InTime request timeoutBase (spi.sysClock (request t).2).2 t' → InTime request timeoutBase t t'

/-- A request succeeds within the time that starts now. -/
def Succeeds (request : σ → Bool × σ) (t t' : σ) : Prop :=
  InTime spi request (spi.sysClock t).1 (spi.sysClock t).2 t'

/-- The card refuses CMD8 and has version 1, or returns the check pattern and has version 2. -/
def SendsVersion (t : σ) (version : Byte) (t' : σ) : Prop :=
  let answer := response spi versionCommand t
  if answer.1 &&& SD_R1_ILL = 0 then
    (items spi.receiveByte 4 answer.2)[3]? = some 0xAA ∧ version = 2 ∧
      t' = skip spi.receiveByte 4 answer.2
  else version = 1 ∧ t' = answer.2

/-- A card of version 2 sends its operating conditions, which say whether it is SDHC. -/
def SendsConditions (version : Byte) (t : σ) (sdhc : Byte) (t' : σ) : Prop :=
  let answer := response spi (simpleCommand (SD_CMD58 + 0x40)) t
  if version = 2 then
    answer.1 = SD_R1_READY ∧ t' = skip spi.receiveByte 4 answer.2 ∧
      sdhc = if (items spi.receiveByte 4 answer.2).headD 0 &&& 0xC0 = 0xC0 then 1 else 0
  else sdhc = 0 ∧ t' = t

/-- The card accepts CMD9, and no token of zero precedes its data. -/
def StartsCsd (t t' : σ) : Prop :=
  let answer := response spi (simpleCommand (SD_CMD9 + 0x40)) t
  answer.1 = SD_R1_READY ∧ (startToken spi answer.2).1 ≠ 0 ∧ t' = (startToken spi answer.2).2

/-- The bus after `sd_wakeup`, with the card selected. -/
def awake (t : σ) : σ := spi.lowerCs (skip spi.receiveByte 10 (spi.raiseCs t))

/-- The card answers all commands of the identification in time, and then sends its card-specific
data. -/
def SendsCsd (t : σ) (version sdhc : Byte) (t' : σ) : Prop :=
  ∃ t₁ t₂ t₃ t₄, Succeeds spi (resets spi) (awake spi t) t₁ ∧ SendsVersion spi t₁ version t₂ ∧
    Succeeds spi (activates spi version) t₂ t₃ ∧ SendsConditions spi version t₃ sdhc t₄ ∧
    StartsCsd spi t₄ t'

end Answers

/-- What `sd_query_cid` returns. -/
theorem sdQueryCid_eq (s : SdState σ) :
  sdQueryCid spi s = some ((cidQuery spi s.bus).1, { s with bus := (cidQuery spi s.bus).2 })
  := by
  have hlower : spiSdcardLowerCs spi s = some ((), { s with bus := spi.lowerCs s.bus }) := rfl
  unfold cidQuery
  rw [sdQueryCid, bind_eq hlower, sdSimpleCommand, bind_eq (sdCommand_eq _ _)]
  dsimp only
  split_ifs with hstatus hstart
  · rfl
  · rw [bind_eq (sdWaitForStart_eq _), if_pos hstart]
    rfl
  · rw [bind_eq (sdWaitForStart_eq _), if_neg hstart, bind_eq (spiBlank_eq 18 _)]
    rfl

/-- What an attempt to reset the card returns. -/
theorem sdResetAttempt_eq (s : SdState σ) :
  sdResetAttempt spi s = some ((resets spi s.bus).1, { s with bus := (resets spi s.bus).2 })
  := by
  rw [sdResetAttempt, bind_eq (sdCommand_eq _ s)]
  rfl

/-- What an attempt to activate the card returns. -/
theorem sdActivateAttempt_eq (version : Byte) (s : SdState σ) :
  sdActivateAttempt spi version s =
    some ((activates spi version s.bus).1, { s with bus := (activates spi version s.bus).2 })
  := by
  rw [sdActivateAttempt, sdSimpleCommand, bind_eq (sdCommand_eq _ s), bind_eq (sdCommand_eq _ _)]
  rfl

/-- A loop of attempts succeeds exactly if the request succeeds in time. -/
theorem sdRetry_inTime {attempt : Program (SdState σ) Bool} {request : σ → Bool × σ}
    (h : ∀ s, attempt s = some ((request s.bus).1, { s with bus := (request s.bus).2 }))
    (timeoutBase : Word) (fuel : ℕ) (s : SdState σ) :
  Ensures (sdRetry spi attempt timeoutBase fuel) s fun done s' => s'.info = s.info ∧
    ∀ t, InTime spi request timeoutBase s.bus t ↔ done = true ∧ s'.bus = t
  := by
  induction fuel generalizing s with
  | zero => apply Ensures.fault
  | succ fuel ih =>
      apply Ensures.bind_of_eq (h s)
      cases hrequest : (request s.bus).1 with
      | true =>
          apply Ensures.pure
          refine ⟨rfl, ?_⟩
          intro t
          constructor
          · intro hin
            cases hin with
            | now _ => exact ⟨rfl, rfl⟩
            | later hfalse =>
                rw [hrequest] at hfalse
                cases hfalse
          · rintro ⟨-, rfl⟩
            apply InTime.now hrequest
      | false =>
          have hclock (s : SdState σ) : sysClock spi s =
              some ((spi.sysClock s.bus).1, { s with bus := (spi.sysClock s.bus).2 }) := rfl
          have hlater (t : σ) : InTime spi request timeoutBase s.bus t ↔
              (spi.sysClock (request s.bus).2).1 - timeoutBase < SD_INIT_TIMEOUT ∧
                InTime spi request timeoutBase (spi.sysClock (request s.bus).2).2 t := by
            constructor
            · intro hin
              cases hin with
              | now htrue =>
                  rw [hrequest] at htrue
                  cases htrue
              | later _ htime hin => exact ⟨htime, hin⟩
            · rintro ⟨htime, hin⟩
              apply InTime.later hrequest htime hin
          apply Ensures.bind_of_eq (hclock _)
          dsimp only
          split_ifs with hlate
          · apply Ensures.pure
            refine ⟨rfl, ?_⟩
            intro t
            rw [hlater]
            apply iff_of_false
            · rintro ⟨htime, -⟩
              apply absurd hlate (BitVec.not_le.mpr htime)
            · rintro ⟨⟨⟩, -⟩
          · apply (ih _).mono
            rintro done s' ⟨hinfo, hdone⟩
            refine ⟨hinfo, ?_⟩
            intro t
            rw [hlater, and_iff_right (BitVec.not_le.mp hlate)]
            apply hdone

/-- The version that the card sends. -/
theorem sdCheckVersion_ends (s : SdState σ) :
  Ends (sdCheckVersion spi) s fun r s' => s'.info = s.info ∧
    ∀ version t, SendsVersion spi s.bus version t ↔ r = some version ∧ s'.bus = t
  := by
  apply Ends.bind_of_eq (sdCommand_eq _ s)
  unfold SendsVersion
  dsimp only
  split_ifs with hill
  · apply Ends.bind_of_eq (spiReceive_eq 4 _)
    apply Ends.pure
    refine ⟨rfl, ?_⟩
    intro version t
    dsimp only
    split_ifs with hpattern
    · constructor
      · rintro ⟨-, rfl, rfl⟩
        exact ⟨rfl, rfl⟩
      · rintro ⟨hversion, rfl⟩
        exact ⟨hpattern, (Option.some.inj hversion).symm, rfl⟩
    · apply iff_of_false
      · rintro ⟨hpattern', -⟩
        apply hpattern hpattern'
      · rintro ⟨⟨⟩, -⟩
  · apply Ends.pure
    refine ⟨rfl, ?_⟩
    intro version t
    rw [Option.some.injEq, eq_comm (a := version), eq_comm (a := t)]

/-- The conditions that the card sends. -/
theorem sdCheckSdhc_ends (version : Byte) {s : SdState σ} (hsdhc : s.info.sdhc = 0) :
  Ends (sdCheckSdhc spi version) s fun ok s' => ∀ sdhc t,
    SendsConditions spi version s.bus sdhc t ↔ ok = true ∧ s'.info.sdhc = sdhc ∧ s'.bus = t
  := by
  unfold SendsConditions
  by_cases hversion : version = 2
  · rw [sdCheckSdhc, if_pos hversion, sdSimpleCommand]
    simp only [if_pos hversion]
    apply Ends.bind_of_eq (sdCommand_eq _ s)
    by_cases hready : (response spi (simpleCommand (SD_CMD58 + 0x40)) s.bus).1 = SD_R1_READY
    · rw [if_neg (not_not.mpr hready)]
      apply Ends.bind_of_eq (spiReceive_eq 4 _)
      dsimp only
      split_ifs with htype
      · refine ⟨true, _, rfl, ?_⟩
        intro sdhc t
        rw [and_iff_right hready, and_iff_right rfl, and_comm, eq_comm (a := sdhc), eq_comm (a := t)]
      · refine ⟨true, _, rfl, ?_⟩
        intro sdhc t
        rw [and_iff_right hready, and_iff_right rfl, and_comm, eq_comm (a := sdhc), eq_comm (a := t),
          hsdhc]
    · rw [if_pos hready]
      apply Ends.pure
      intro sdhc t
      apply iff_of_false
      · rintro ⟨hready', -⟩
        apply hready hready'
      · rintro ⟨⟨⟩, -⟩
  · rw [sdCheckSdhc, if_neg hversion]
    simp only [if_neg hversion]
    apply Ends.pure
    intro sdhc t
    rw [and_iff_right rfl, hsdhc, eq_comm (a := sdhc), eq_comm (a := t)]

/-- The card starts to send its data. -/
theorem sdStartCsd_ends (s : SdState σ) :
  Ends (sdStartCsd spi) s fun ok s' => s'.info = s.info ∧
    ∀ t, StartsCsd spi s.bus t ↔ ok = true ∧ s'.bus = t
  := by
  unfold StartsCsd
  apply Ends.bind_of_eq (sdCommand_eq _ s)
  dsimp only
  split_ifs with hready
  · apply Ends.pure
    refine ⟨rfl, ?_⟩
    intro t
    apply iff_of_false
    · rintro ⟨hready', -⟩
      apply hready hready'
    · rintro ⟨⟨⟩, -⟩
  · apply Ends.bind_of_eq (sdWaitForStart_eq _)
    apply Ends.pure
    refine ⟨rfl, ?_⟩
    intro t
    rw [and_iff_right (not_not.mp hready), decide_eq_true_iff, eq_comm (a := t)]

/-- The identification of a card succeeds exactly if the card sends its card-specific data. -/
theorem sdIdentify_sendsCsd (fuel : ℕ) {s : SdState σ} (hsdhc : s.info.sdhc = 0) :
  Ensures (sdIdentify spi fuel) s fun r s' => ∀ version sdhc t,
    SendsCsd spi s.bus version sdhc t ↔ r = some version ∧ s'.info.sdhc = sdhc ∧ s'.bus = t
  := by
  have hclock (s : SdState σ) : sysClock spi s =
      some ((spi.sysClock s.bus).1, { s with bus := (spi.sysClock s.bus).2 }) := rfl
  have hlower (s : SdState σ) : spiSdcardLowerCs spi s =
      some ((), { s with bus := spi.lowerCs s.bus }) := rfl
  have hraise : spiSdcardRaiseCs spi s = some ((), { s with bus := spi.raiseCs s.bus }) := rfl
  have hwakeup : sdWakeup spi s =
      some ((), { s with bus := skip spi.receiveByte 10 (spi.raiseCs s.bus) }) := by
    rw [sdWakeup, bind_eq hraise, spiBlank_eq]
  apply Ensures.bind_of_eq hwakeup
  apply Ensures.bind_of_eq (hlower _)
  apply Ensures.bind_of_eq (hclock _)
  apply Ensures.bind (sdRetry_inTime sdResetAttempt_eq _ fuel _)
  rintro reset s₁ ⟨hinfo₁, hreset⟩
  change ∀ t, Succeeds spi (resets spi) (awake spi s.bus) t ↔ _ at hreset
  cases reset with
  | false =>
      apply Ensures.pure
      simp [SendsCsd, hreset]
  | true =>
      apply Ensures.bind (sdCheckVersion_ends s₁).ensures
      rintro version s₂ ⟨hinfo₂, hversion⟩
      cases version with
      | none =>
          apply Ensures.pure
          simp [SendsCsd, hreset, hversion]
      | some version =>
          have hrest (version' sdhc : Byte) (t : σ) : SendsCsd spi s.bus version' sdhc t ↔
              version = version' ∧ ∃ t₃ t₄, Succeeds spi (activates spi version) s₂.bus t₃ ∧
                SendsConditions spi version t₃ sdhc t₄ ∧ StartsCsd spi t₄ t := by
            constructor
            · rintro ⟨t₁, t₂, t₃, t₄, h₁, h₂, hrest⟩
              obtain ⟨-, rfl⟩ := (hreset t₁).mp h₁
              obtain ⟨⟨⟩, rfl⟩ := (hversion version' t₂).mp h₂
              exact ⟨rfl, t₃, t₄, hrest⟩
            · rintro ⟨rfl, t₃, t₄, hrest⟩
              exact ⟨s₁.bus, s₂.bus, t₃, t₄, (hreset _).mpr ⟨rfl, rfl⟩, (hversion _ _).mpr ⟨rfl, rfl⟩,
                hrest⟩
          apply Ensures.bind_of_eq (hclock s₂)
          apply Ensures.bind (sdRetry_inTime (sdActivateAttempt_eq version) _ fuel _)
          rintro active s₃ ⟨hinfo₃, hactive⟩
          change ∀ t, Succeeds spi (activates spi version) s₂.bus t ↔ _ at hactive
          cases active with
          | false =>
              apply Ensures.pure
              simp [hrest, hactive]
          | true =>
              have hsdhc₃ : s₃.info.sdhc = 0 := by rw [hinfo₃, hinfo₂, hinfo₁, hsdhc]
              apply Ensures.bind (sdCheckSdhc_ends version hsdhc₃).ensures
              intro checked s₄ hchecked
              cases checked with
              | false =>
                  apply Ensures.pure
                  simp [hrest, hactive, hchecked]
              | true =>
                  apply Ensures.bind (sdStartCsd_ends s₄).ensures
                  rintro started s₅ ⟨hinfo₅, hstarted⟩
                  cases started with
                  | false =>
                      apply Ensures.pure
                      simp [hrest, hactive, hchecked, hstarted]
                  | true =>
                      apply Ensures.pure
                      simp [hrest, hactive, hchecked, hstarted, hinfo₅]

end Driver

end Mosnix.Sd
