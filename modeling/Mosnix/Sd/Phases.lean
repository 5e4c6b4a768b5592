import Mosnix.Sd.Card

/-!
# The phases of a call of the driver

Properties of the state that the operations of the bus keep are kept by the functions of the driver.
`Phases spi Free S L H` has three such properties: `L` holds while the chip select is low, `H` while
it is high, and `S` at either level.  They are also kept by the changes `Free` of `sd_info`.  Each
function of the driver leads from one of them to another.
-/

namespace Mosnix.Sd

open Fat Program

variable {σ : Type} {spi : Spi σ} {stuck : Prop} {J : SdState σ → Prop}

/-! ### Programs that only talk to the card -/

/-- The property `J` is kept when bytes are received or sent. -/
structure Quiet (spi : Spi σ) (J : SdState σ → Prop) : Prop where
  receiveByte : ∀ s, J s → J { s with bus := (spi.receiveByte s.bus).2 }
  send : ∀ bytes s, J s → J { s with bus := spi.send bytes s.bus }

/-- A function of the card. -/
theorem leads_onBus {α : Type} {A B : SdState σ → Prop} {g : σ → α × σ}
    (h : ∀ s, A s → B { s with bus := (g s.bus).2 }) :
  Leads stuck A (onBus g) B
  := by
  intro s hs
  left
  exact ⟨_, _, rfl, h s hs⟩

/-- Bytes are received. -/
theorem leads_spiReceive (h : ∀ s, J s → J { s with bus := (spi.receiveByte s.bus).2 }) (size : ℕ) :
  Leads stuck J (spiReceive spi size) J
  := by
  induction size with
  | zero => apply Leads.pure
  | succ size ih =>
      apply Leads.bind (leads_onBus h)
      intro byte
      apply Leads.bind ih
      intro bytes
      apply Leads.pure

/-- Bytes that are ignored keep the property. -/
theorem leads_spiBlank (h : ∀ s, J s → J { s with bus := (spi.receiveByte s.bus).2 }) (size : ℕ) :
  Leads stuck J (spiBlank spi size) J
  := by
  apply Leads.bind (leads_spiReceive h size)
  intro bytes
  apply Leads.pure

namespace Quiet

variable (h : Quiet spi J)

include h

/-- Waiting for a byte keeps the property. -/
theorem spiPoll_leads (test : Byte → Bool) (timeout : ℕ) :
  Leads stuck J (spiPoll spi test timeout) J
  := by
  induction timeout with
  | zero => apply Leads.pure
  | succ timeout ih =>
      apply Leads.bind (leads_onBus h.receiveByte)
      intro response
      apply Leads.ite Leads.pure ih

theorem sdWaitForStart_leads : Leads stuck J (sdWaitForStart spi) J := by
  apply Leads.bind (h.spiPoll_leads _ 255)
  intro response
  apply Leads.pure

/-- A command is sent, and its answer is received. -/
theorem sdCommand_leads (cmd : SdCardCommand) : Leads stuck J (sdCommand spi cmd) J := by
  apply Leads.bind (h.spiPoll_leads _ 255)
  intro ready
  cases ready with
  | none => apply Leads.pure
  | some _ =>
      apply Leads.bind (leads_onBus (h.send cmd.bytes))
      intro _
      apply Leads.bind (h.spiPoll_leads _ 255)
      intro response
      apply Leads.pure

/-- An attempt to reset the card keeps the property. -/
theorem sdResetAttempt_leads : Leads stuck J (sdResetAttempt spi) J := by
  apply Leads.bind (h.sdCommand_leads _)
  intro response
  apply Leads.pure

theorem sdActivateAttempt_leads (version : Byte) : Leads stuck J (sdActivateAttempt spi version) J := by
  apply Leads.bind (h.sdCommand_leads _)
  intro _
  apply Leads.bind (h.sdCommand_leads _)
  intro response
  apply Leads.pure

/-- The check of the version keeps the property. -/
theorem sdCheckVersion_leads : Leads stuck J (sdCheckVersion spi) J := by
  apply Leads.bind (h.sdCommand_leads _)
  intro response
  refine Leads.ite ?_ Leads.pure
  apply Leads.bind (leads_spiReceive h.receiveByte 4)
  intro argBytes
  apply Leads.pure

theorem sdStartCsd_leads : Leads stuck J (sdStartCsd spi) J := by
  apply Leads.bind (h.sdCommand_leads _)
  intro response
  apply Leads.ite Leads.pure
  apply Leads.bind h.sdWaitForStart_leads
  intro start
  apply Leads.pure

end Quiet

/-! ### The clock -/

/-- The clock reaches every timeout within `limit` readings; `left base t` bounds the readings that
are still before the timeout that starts at `base`.  The clock may advance while bytes are sent or
received. -/
structure Timely (spi : Spi σ) (limit : ℕ) where
  left : Word → σ → ℕ
  left_le : ∀ base t, left base t ≤ limit
  left_receiveByte : ∀ base t, left base (spi.receiveByte t).2 ≤ left base t
  left_send : ∀ base bytes t, left base (spi.send bytes t) ≤ left base t
  left_sysClock : ∀ base t, (spi.sysClock t).1 - base < SD_INIT_TIMEOUT →
    left base (spi.sysClock t).2 < left base t

/-- The loops of a detection may make `fuel` attempts without a timeout. -/
def Hangs (spi : Spi σ) (fuel : ℕ) : Prop :=
  ∀ limit < fuel, IsEmpty (Timely spi limit)

section Retry

variable {attempt : Program (SdState σ) Bool}

/-- The attempts of a loop keep what talking to the card keeps. -/
def Talks (spi : Spi σ) (attempt : Program (SdState σ) Bool) : Prop :=
  ∀ J, Quiet spi J → Leads False J attempt J

variable (h : Quiet spi J) (hclock : ∀ s, J s → J { s with bus := (spi.sysClock s.bus).2 })
  (hattempt : Talks spi attempt) (timeoutBase : Word) (fuel : ℕ)

include h hclock hattempt

/-- A loop keeps what its attempts keep, if it ends. -/
theorem sdRetry_ensures : Leads True J (sdRetry spi attempt timeoutBase fuel) J := by
  induction fuel with
  | zero =>
      intro s _
      right
      exact ⟨trivial, rfl⟩
  | succ fuel ih =>
      apply Leads.bind (hattempt J h).of_total
      intro done
      apply Leads.ite Leads.pure
      apply Leads.bind (leads_onBus hclock)
      intro clock
      apply Leads.ite Leads.pure ih

/-- A loop whose clock reaches the timeout ends. -/
theorem sdRetry_ends {limit : ℕ} (timely : Timely spi limit) {s : SdState σ} (hs : J s)
    (hfuel : timely.left timeoutBase s.bus < fuel) :
  Ends (sdRetry spi attempt timeoutBase fuel) s fun _ s' => J s'
  := by
  induction fuel generalizing s with
  | zero => exact absurd hfuel (Nat.not_lt_zero _)
  | succ fuel ih =>
      have hquiet : Quiet spi fun s₁ =>
          J s₁ ∧ timely.left timeoutBase s₁.bus ≤ timely.left timeoutBase s.bus := by
        constructor
        · rintro s₁ ⟨hJ, hleft⟩
          exact ⟨h.receiveByte s₁ hJ, (timely.left_receiveByte timeoutBase _).trans hleft⟩
        · rintro bytes s₁ ⟨hJ, hleft⟩
          exact ⟨h.send bytes s₁ hJ, (timely.left_send timeoutBase bytes _).trans hleft⟩
      apply Ends.bind ((hattempt _ hquiet).ends not_false ⟨hs, le_rfl⟩)
      rintro done s₁ ⟨hJ, hleft⟩
      split_ifs
      · apply Ends.pure hJ
      · have hread : sysClock spi s₁ =
            some ((spi.sysClock s₁.bus).1, { s₁ with bus := (spi.sysClock s₁.bus).2 }) := rfl
        apply Ends.bind_of_eq hread
        split_ifs with hlate
        · apply Ends.pure (hclock s₁ hJ)
        · have hlt := timely.left_sysClock timeoutBase s₁.bus (BitVec.not_le.mp hlate)
          exact ih (hclock s₁ hJ) ((hlt.trans_le hleft).trans_le (Nat.lt_succ_iff.mp hfuel))

/-- A loop keeps what its attempts keep, and ends unless the clock does not reach the timeout. -/
theorem leads_sdRetry : Leads (Hangs spi fuel) J (sdRetry spi attempt timeoutBase fuel) J := by
  intro s hs
  obtain hends | ⟨-, hnone⟩ := sdRetry_ensures h hclock hattempt timeoutBase fuel s hs
  · left
    apply hends
  · right
    refine ⟨?_, hnone⟩
    intro limit hlimit
    constructor
    intro timely
    obtain ⟨_, _, hsome, -⟩ := sdRetry_ends h hclock hattempt timeoutBase fuel timely hs
      ((timely.left_le timeoutBase s.bus).trans_lt hlimit)
    rw [hnone] at hsome
    cases hsome

end Retry

/-! ### The chip select -/

/-- The changes `Free` of `sd_info` keep the property `J`. -/
def Allows (Free : (SdInfoT → SdInfoT) → Prop) (J : SdState σ → Prop) : Prop :=
  ∀ g, Free g → ∀ s, J s → J { s with info := g s.info }

/-- The properties `L` and `H` hold while the chip select is low and while it is high, and `S` holds at
either level. -/
structure Phases (spi : Spi σ) (Free : (SdInfoT → SdInfoT) → Prop) (S L H : SdState σ → Prop) : Prop
    extends Quiet spi L where
  of_low : ∀ s, L s → S s
  of_high : ∀ s, H s → S s
  blank : ∀ s, S s → S { s with bus := (spi.receiveByte s.bus).2 }
  lowerCs : ∀ s, S s → L { s with bus := spi.lowerCs s.bus }
  raiseCs : ∀ s, S s → H { s with bus := spi.raiseCs s.bus }
  sysClock : ∀ s, L s → L { s with bus := (spi.sysClock s.bus).2 }
  allows : Allows Free S
  allows_low : Allows Free L
  allows_high : Allows Free H

namespace Phases

variable {Free : (SdInfoT → SdInfoT) → Prop} {S L H : SdState σ → Prop} (p : Phases spi Free S L H)
  {g : SdInfoT → SdInfoT}

/-- A change of `sd_info` leaves the number and the mode of the cached block alone. -/
def KeepsTag (g : SdInfoT → SdInfoT) : Prop :=
  ∀ info, (g info).cacheBlock = info.cacheBlock ∧ (g info).cacheMode = info.cacheMode

include p

/-- A change of the information that is free. -/
theorem modifyInfo_leads (hg : Free g) : Leads stuck S (modifyInfo g) S :=
  Leads.modify (p.allows g hg)

theorem modifyInfo_leads_low (hg : Free g) : Leads stuck L (modifyInfo g) L :=
  Leads.modify (p.allows_low g hg)

theorem modifyInfo_leads_high (hg : Free g) : Leads stuck H (modifyInfo g) H :=
  Leads.modify (p.allows_high g hg)

/-- The card is selected. -/
theorem spiSdcardLowerCs_leads : Leads stuck S (spiSdcardLowerCs spi) L :=
  leads_onBus p.lowerCs

/-- The card is deselected. -/
theorem spiSdcardRaiseCs_leads : Leads stuck S (spiSdcardRaiseCs spi) H :=
  leads_onBus p.raiseCs

/-- A program that raises the chip select and returns. -/
theorem raise_leads {α : Type} (r : α) : Leads stuck S (do spiSdcardRaiseCs spi; return r) H := by
  apply Leads.bind p.spiSdcardRaiseCs_leads
  intro _
  apply Leads.pure

theorem raise_leads_low {α : Type} (r : α) : Leads stuck L (do spiSdcardRaiseCs spi; return r) H :=
  (p.raise_leads r).mono p.of_low fun _ h => h

/-- Bytes are received during the wakeup, while the chip select is high. -/
theorem sdWakeup_leads : Leads stuck S (sdWakeup spi) S := by
  apply Leads.bind (p.spiSdcardRaiseCs_leads.mono (fun _ h => h) p.of_high)
  intro _
  apply leads_spiBlank p.blank

/-- The bytes of a block are stored. -/
theorem spiReceiveBlock_leads (size : ℕ)
    (hblock : ∀ f : (ℕ → Byte) → ℕ → Byte, Free fun info => { info with block := f info.block }) :
  Leads stuck L (spiReceiveBlock spi size) L
  := by
  apply Leads.bind (leads_spiReceive p.receiveByte size)
  intro bytes
  apply p.modifyInfo_leads_low (hblock (store bytes))

/-- `sd_read` stores to the block only. -/
theorem sdRead_leads (blknum : Long)
    (hblock : ∀ f : (ℕ → Byte) → ℕ → Byte, Free fun info => { info with block := f info.block }) :
  Leads stuck S (sdRead spi blknum) H
  := by
  apply Leads.get_bind
  intro s
  apply Leads.bind p.spiSdcardLowerCs_leads
  intro _
  apply Leads.bind (p.sdCommand_leads _)
  intro response
  apply Leads.ite (p.raise_leads_low response)
  apply Leads.bind p.sdWaitForStart_leads
  intro start
  apply Leads.ite (p.raise_leads_low 0xFF)
  apply Leads.bind (p.spiReceiveBlock_leads _ hblock)
  intro _
  apply Leads.bind (leads_spiBlank p.receiveByte 2)
  intro _
  apply p.raise_leads_low SD_R1_READY

theorem sdCheckSdhc_leads (hsdhc : Free fun info => { info with sdhc := 1 }) (version : Byte) :
  Leads stuck L (sdCheckSdhc spi version) L
  := by
  refine Leads.ite ?_ Leads.pure
  apply Leads.bind (p.sdCommand_leads _)
  intro response
  apply Leads.ite Leads.pure
  apply Leads.bind (leads_spiReceive p.receiveByte 4)
  intro argBytes
  refine Leads.ite ?_ Leads.pure
  apply Leads.bind (p.modifyInfo_leads_low hsdhc)
  intro _
  apply Leads.pure

/-- The identification of a card leaves the chip select low, and sets only the type of the card. -/
theorem sdIdentify_leads (hsdhc : Free fun info => { info with sdhc := 1 }) (fuel : ℕ) :
  Leads (Hangs spi fuel) S (sdIdentify spi fuel) L
  := by
  apply Leads.bind p.sdWakeup_leads
  intro _
  apply Leads.bind p.spiSdcardLowerCs_leads
  intro _
  apply Leads.bind (leads_onBus p.sysClock)
  intro timeoutBase
  apply Leads.bind (leads_sdRetry p.toQuiet p.sysClock (fun _ h => h.sdResetAttempt_leads) _ _)
  intro reset
  refine Leads.ite ?_ Leads.pure
  apply Leads.bind p.sdCheckVersion_leads
  intro version
  cases version with
  | none => apply Leads.pure
  | some version =>
      apply Leads.bind (leads_onBus p.sysClock)
      intro timeoutBase
      apply Leads.bind
        (leads_sdRetry p.toQuiet p.sysClock (fun _ h => h.sdActivateAttempt_leads version) _ _)
      intro activated
      refine Leads.ite ?_ Leads.pure
      apply Leads.bind (p.sdCheckSdhc_leads hsdhc version)
      intro checked
      refine Leads.ite ?_ Leads.pure
      apply Leads.bind p.sdStartCsd_leads
      intro started
      apply Leads.ite Leads.pure Leads.pure

/-- `sd_query_cid` ends with the card deselected. -/
theorem sdQueryCid_leads : Leads stuck S (sdQueryCid spi) H := by
  apply Leads.bind p.spiSdcardLowerCs_leads
  intro _
  apply Leads.bind (p.sdCommand_leads _)
  intro status
  apply Leads.ite (p.raise_leads_low false)
  apply Leads.bind p.sdWaitForStart_leads
  intro start
  apply Leads.ite (p.raise_leads_low false)
  apply Leads.bind (leads_spiBlank p.receiveByte 18)
  intro _
  apply p.raise_leads_low true

section Volume

variable (hfree : ∀ g, KeepsTag g → Free g)

include hfree

/-- Reading the data of the card keeps it selected. -/
theorem sdReadCsd_leads : Leads stuck L (sdReadCsd spi) L := by
  apply Leads.bind (p.spiReceiveBlock_leads 18 fun _ => hfree _ fun _ => ⟨rfl, rfl⟩)
  intro _
  apply Leads.get_bind
  intro s
  refine Leads.bind (p.modifyInfo_leads_low (hfree _ fun _ => ⟨rfl, rfl⟩)) ?_
  intro _
  apply Leads.pure

theorem sdReadSigned_leads (blknum : Long) : Leads stuck S (sdReadSigned spi blknum) S := by
  have hread : Leads stuck S (sdRead spi blknum) H :=
    p.sdRead_leads blknum fun _ => hfree _ fun _ => ⟨rfl, rfl⟩
  apply Leads.bind (hread.mono (fun _ h => h) p.of_high)
  intro response
  apply Leads.get_bind
  intro s
  apply Leads.pure

theorem sdReadPartition_leads : Leads stuck S (sdReadPartition spi) S := by
  apply Leads.bind (p.sdReadSigned_leads hfree 0)
  intro signed
  refine Leads.ite ?_ Leads.pure
  apply Leads.get_bind
  intro s
  refine Leads.ite ?_ Leads.pure
  refine Leads.bind (p.modifyInfo_leads (hfree _ fun _ => ⟨rfl, rfl⟩)) ?_
  intro _
  apply p.sdReadSigned_leads hfree

/-- Reading the header keeps the property. -/
theorem sdReadHeader_leads : Leads stuck S (sdReadHeader : Program (SdState σ) Bool) S := by
  apply Leads.get_bind
  intro s
  apply Leads.ite Leads.pure
  refine Leads.bind (p.modifyInfo_leads (hfree _ fun _ => ⟨rfl, rfl⟩)) ?_
  intro _
  apply Leads.ite Leads.pure
  apply Leads.ite Leads.pure
  apply Leads.ite Leads.pure
  apply Leads.ite Leads.pure
  apply Leads.ite Leads.pure
  refine Leads.bind (p.modifyInfo_leads (hfree _ fun _ => ⟨rfl, rfl⟩)) ?_
  intro _
  apply Leads.pure

/-- The search for a volume leaves the chip select at either level.  It writes over the cached block,
but keeps its number and mode. -/
theorem sdReadVolume_leads : Leads stuck L (sdReadVolume spi) S := by
  apply Leads.bind ((p.sdReadCsd_leads hfree).mono (fun _ h => h) p.of_low)
  intro read
  refine Leads.ite ?_ Leads.pure
  apply Leads.bind (p.sdReadPartition_leads hfree)
  intro found
  apply Leads.ite (p.sdReadHeader_leads hfree) Leads.pure

end Volume

end Phases

end Mosnix.Sd
