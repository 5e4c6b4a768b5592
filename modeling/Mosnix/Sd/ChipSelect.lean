import Mosnix.Sd.Phases
import Mosnix.Sd.Read
import Mosnix.Lib.System

/-!
# The chip select of the SD card

A command is sent to the SD card while its chip select is low, and between the calls of the driver
the chip select is high.  The lines of the bus are observed by functions on its states; every bus has
an extension on which they are (`watched`).
-/

namespace Mosnix.Sd

open Fat Program

variable {σ : Type}

/-! ### The clock -/

/-- A bus whose clock advances by one tick with every reading. -/
def tickingSpi : Spi (List Byte × Word) where
  receiveByte t := ((scriptSpi.receiveByte t.1).1, (scriptSpi.receiveByte t.1).2, t.2)
  send _ t := t
  lowerCs t := t
  raiseCs t := t
  sysClock t := (t.2, t.1, t.2 + 1)
  card _ _ _ := 0
  card_receiveByte _ := rfl
  card_send _ _ := rfl
  card_lowerCs _ := rfl
  card_raiseCs _ := rfl
  card_sysClock _ := rfl

/-- Such a clock reaches every timeout. -/
def tickingSpi_timely : Timely tickingSpi SD_INIT_TIMEOUT.toNat where
  left base t := SD_INIT_TIMEOUT.toNat - (t.2 - base).toNat
  left_le base t := Nat.sub_le _ _
  left_receiveByte _ _ := le_rfl
  left_send _ _ _ := le_rfl
  left_sysClock base t h := by
    change t.2 - base < SD_INIT_TIMEOUT at h
    change SD_INIT_TIMEOUT.toNat - (t.2 + 1 - base).toNat < SD_INIT_TIMEOUT.toNat - (t.2 - base).toNat
    have hlt : (t.2 - base).toNat < SD_INIT_TIMEOUT.toNat := h
    have hbound : SD_INIT_TIMEOUT.toNat = 512 := rfl
    have hnext : (t.2 + 1 - base).toNat = (t.2 - base).toNat + 1 := by bv_omega
    omega

/-! ### The lines of the bus -/

/-- The lines of a bus: whether the chip select is low, and the packets that were sent, the last one
first, each with the level that the chip select had. -/
structure Lines (spi : Spi σ) where
  csLow : σ → Bool
  sent : σ → List (List Byte × Bool)
  csLow_receiveByte : ∀ t, csLow (spi.receiveByte t).2 = csLow t
  csLow_send : ∀ bytes t, csLow (spi.send bytes t) = csLow t
  csLow_lowerCs : ∀ t, csLow (spi.lowerCs t) = true
  csLow_raiseCs : ∀ t, csLow (spi.raiseCs t) = false
  csLow_sysClock : ∀ t, csLow (spi.sysClock t).2 = csLow t
  sent_receiveByte : ∀ t, sent (spi.receiveByte t).2 = sent t
  sent_send : ∀ bytes t, sent (spi.send bytes t) = (bytes, csLow t) :: sent t
  sent_lowerCs : ∀ t, sent (spi.lowerCs t) = sent t
  sent_raiseCs : ∀ t, sent (spi.raiseCs t) = sent t
  sent_sysClock : ∀ t, sent (spi.sysClock t).2 = sent t

/-- A bus with a record of its lines. -/
structure Watched (σ : Type) where
  bus : σ
  csLow : Bool
  sent : List (List Byte × Bool)

/-- The extension of a bus by a record of its lines. -/
def watched (spi : Spi σ) : Spi (Watched σ) where
  receiveByte t := ((spi.receiveByte t.bus).1, { t with bus := (spi.receiveByte t.bus).2 })
  send bytes t := { t with bus := spi.send bytes t.bus, sent := (bytes, t.csLow) :: t.sent }
  lowerCs t := { t with bus := spi.lowerCs t.bus, csLow := true }
  raiseCs t := { t with bus := spi.raiseCs t.bus, csLow := false }
  sysClock t := ((spi.sysClock t.bus).1, { t with bus := (spi.sysClock t.bus).2 })
  card t := spi.card t.bus
  card_receiveByte t := spi.card_receiveByte t.bus
  card_send bytes t := spi.card_send bytes t.bus
  card_lowerCs t := spi.card_lowerCs t.bus
  card_raiseCs t := spi.card_raiseCs t.bus
  card_sysClock t := spi.card_sysClock t.bus

/-- The lines that are recorded. -/
def watchedLines (spi : Spi σ) : Lines (watched spi) where
  csLow := Watched.csLow
  sent := Watched.sent
  csLow_receiveByte _ := rfl
  csLow_send _ _ := rfl
  csLow_lowerCs _ := rfl
  csLow_raiseCs _ := rfl
  csLow_sysClock _ := rfl
  sent_receiveByte _ := rfl
  sent_send _ _ := rfl
  sent_lowerCs _ := rfl
  sent_raiseCs _ := rfl
  sent_sysClock _ := rfl

section Lines

variable {spi : Spi σ} (lines : Lines spi) {stuck : Prop}

/-- Every packet was sent while the chip select was low. -/
def Selected (s : SdState σ) : Prop := ∀ packet ∈ lines.sent s.bus, packet.2 = true

/-- The chip select is low. -/
def Low (s : SdState σ) : Prop := lines.csLow s.bus = true ∧ Selected lines s

/-- The chip select is high. -/
def High (s : SdState σ) : Prop := lines.csLow s.bus = false ∧ Selected lines s

theorem selected_of_sent_eq {s s' : SdState σ} (heq : lines.sent s'.bus = lines.sent s.bus)
    (h : Selected lines s) :
  Selected lines s'
  := by
  unfold Selected
  rw [heq]
  apply h

/-- The chip select is low in the phases in which commands are sent. -/
theorem phases_lines : Phases spi (fun _ => True) (Selected lines) (Low lines) (High lines) where
  receiveByte s hs :=
    ⟨(lines.csLow_receiveByte s.bus).trans hs.1,
      selected_of_sent_eq lines (lines.sent_receiveByte s.bus) hs.2⟩
  send bytes s hs := by
    refine ⟨(lines.csLow_send bytes s.bus).trans hs.1, ?_⟩
    intro packet hpacket
    rw [lines.sent_send, List.mem_cons] at hpacket
    obtain rfl | hpacket := hpacket
    · apply hs.1
    · apply hs.2 packet hpacket
  of_low _ hs := hs.2
  of_high _ hs := hs.2
  blank s hs := selected_of_sent_eq lines (lines.sent_receiveByte s.bus) hs
  lowerCs s hs := ⟨lines.csLow_lowerCs s.bus, selected_of_sent_eq lines (lines.sent_lowerCs s.bus) hs⟩
  raiseCs s hs := ⟨lines.csLow_raiseCs s.bus, selected_of_sent_eq lines (lines.sent_raiseCs s.bus) hs⟩
  sysClock s hs :=
    ⟨(lines.csLow_sysClock s.bus).trans hs.1,
      selected_of_sent_eq lines (lines.sent_sysClock s.bus) hs.2⟩
  allows _ _ _ hs := hs
  allows_low _ _ _ hs := hs
  allows_high _ _ _ hs := hs

/-! ### The calls of the driver -/

/-- `sd_read` leaves the card deselected. -/
theorem leads_sdRead (blknum : Long) : Leads stuck (High lines) (sdRead spi blknum) (High lines) :=
  ((phases_lines lines).sdRead_leads blknum fun _ => trivial).mono (phases_lines lines).of_high
    fun _ h => h

theorem leads_sdCacheFill (blknum : Long) :
  Leads stuck (High lines) (sdCacheFill spi blknum) (High lines)
  := by
  apply Leads.bind (leads_sdRead lines blknum)
  intro status
  apply Leads.ite Leads.pure
  apply Leads.bind ((phases_lines lines).modifyInfo_leads_high trivial)
  intro _
  apply Leads.pure

/-- `sd_cache_read` leaves the card deselected. -/
theorem leads_sdCacheRead (blknum : Long) :
  Leads stuck (High lines) (sdCacheRead spi blknum) (High lines)
  := by
  apply Leads.get_bind
  intro s
  apply Leads.ite Leads.pure
  refine Leads.ite ?_ (leads_sdCacheFill lines blknum)
  apply Leads.bind Leads.pure
  intro status
  apply Leads.ite Leads.pure
  apply Leads.bind (B := High lines)
  · apply Leads.modify
    intro s hs
    apply hs
  intro _
  apply leads_sdCacheFill lines blknum

/-- A detection raises the chip select at each of its ends. -/
theorem leads_sdDetectNew (fuel : ℕ) :
  Leads (Hangs spi fuel) (High lines) (sdDetectNew spi fuel) (High lines)
  := by
  have hphases := phases_lines lines
  apply Leads.bind (hphases.modifyInfo_leads_high trivial)
  intro _
  apply Leads.bind ((hphases.sdIdentify_leads trivial fuel).mono hphases.of_high fun _ h => h)
  intro version
  cases version with
  | none => apply hphases.raise_leads_low SD_DETECT_NONE
  | some version =>
      apply Leads.bind (hphases.sdReadVolume_leads fun _ _ => trivial)
      intro found
      apply Leads.ite
      · apply Leads.bind (B := Selected lines)
        · apply Leads.modify
          intro s hs
          apply hs
        intro _
        apply Leads.bind hphases.spiSdcardRaiseCs_leads
        intro _
        apply Leads.bind (hphases.modifyInfo_leads_high trivial)
        intro _
        apply Leads.pure
      · apply hphases.raise_leads SD_DETECT_NONE

/-- `sd_detect` leaves the card deselected. -/
theorem leads_sdDetect (fuel : ℕ) :
  Leads (Hangs spi fuel) (High lines) (sdDetect spi fuel) (High lines)
  := by
  have hphases := phases_lines lines
  apply Leads.get_bind
  intro s
  refine Leads.ite ?_ (leads_sdDetectNew lines fuel)
  apply Leads.bind (hphases.sdQueryCid_leads.mono hphases.of_high fun _ h => h)
  intro accepted
  apply Leads.ite Leads.pure (leads_sdDetectNew lines fuel)

theorem leads_sdRedetect (fuel : ℕ) :
  Leads (Hangs spi fuel) (High lines) (sdRedetect spi fuel) (High lines)
  := by
  apply Leads.bind ((phases_lines lines).modifyInfo_leads_high trivial)
  intro _
  apply leads_sdDetect lines fuel

end Lines

/-! ### Runs -/

/-- The calls of the driver.  The loops of a detection make at most `fuel` attempts. -/
inductive SdCall where
  | detect (fuel : ℕ)
  | redetect (fuel : ℕ)
  | read (blknum : Long)
  | cacheRead (blknum : Long)

def SdCall.run (spi : Spi σ) : SdCall → Program (SdState σ) Byte
  | .detect fuel => sdDetect spi fuel
  | .redetect fuel => sdRedetect spi fuel
  | .read blknum => sdRead spi blknum
  | .cacheRead blknum => sdCacheRead spi blknum

/-- The attempts of a call may end without a timeout. -/
def SdCall.Hangs (spi : Spi σ) : SdCall → Prop
  | .detect fuel => Sd.Hangs spi fuel
  | .redetect fuel => Sd.Hangs spi fuel
  | .read _ => False
  | .cacheRead _ => False

/-- Every call is made with the chip select high, and returns with the chip select high. -/
theorem SdCall.leads_run {spi : Spi σ} (lines : Lines spi) (call : SdCall) :
  Leads (call.Hangs spi) (High lines) (call.run spi) (High lines)
  := by
  cases call with
  | detect fuel => apply leads_sdDetect
  | redetect fuel => apply leads_sdRedetect
  | read blknum => apply leads_sdRead
  | cacheRead blknum => apply leads_sdCacheRead

/-- The sequences of calls that return, from a high chip select on. -/
def sdCalls {spi : Spi σ} (lines : Lines spi) : System (SdState σ) SdCall where
  start s := lines.csLow s.bus = false ∧ lines.sent s.bus = []
  step s call s' := ∃ r, call.run spi s = some (r, s')

/-- After every sequence of calls the chip select is high, and every packet was sent while it was
low; and a call returns, unless it is a detection whose clock does not reach the timeout. -/
theorem chipSelect_of_reachable {spi : Spi σ} (lines : Lines spi) {s : SdState σ}
    (h : (sdCalls lines).Reachable (fun _ _ => True) s) :
  lines.csLow s.bus = false
    ∧ (∀ packet ∈ lines.sent s.bus, packet.2 = true)
    ∧ ∀ call : SdCall, ¬ call.Hangs spi → ∃ r s', call.run spi s = some (r, s')
  := by
  have hhigh : High lines s := by
    apply h.invariant (I := High lines)
    · rintro s ⟨hlow, hsent⟩
      refine ⟨hlow, ?_⟩
      intro packet hpacket
      rw [hsent] at hpacket
      cases hpacket
    · rintro s call s' hs - ⟨r, hr⟩
      apply ((call.leads_run lines).ensures hs).of_eq hr
  refine ⟨hhigh.1, hhigh.2, ?_⟩
  intro call hcall
  obtain ⟨r, s', hr, -⟩ := (call.leads_run lines).ends hcall hhigh
  exact ⟨r, s', hr⟩

/-- The end of a call of `sd_read` for block 0, to which the card answers with an error. -/
def refusedRead : SdState (Watched (List Byte)) :=
  ⟨sdInfoInit, ⟨[], false, [([0x51, 0, 0, 0, 0, 0], true)]⟩⟩

/-- The chip select after the refused command. -/
theorem chipSelect_refusedRead :
  (sdCalls (watchedLines scriptSpi)).Reachable (fun _ _ => True) refusedRead
    ∧ refusedRead.bus.csLow = false ∧ ∀ packet ∈ refusedRead.bus.sent, packet.2 = true
  := by
  have hread : SdCall.run (watched scriptSpi) (.read 0) ⟨sdInfoInit, ⟨[0xFF, 0x05], false, []⟩⟩ =
      some (0x05, refusedRead) := rfl
  have hreach : (sdCalls (watchedLines scriptSpi)).Reachable (fun _ _ => True) refusedRead :=
    .step (.start ⟨rfl, rfl⟩) trivial ⟨0x05, hread⟩
  obtain ⟨hhigh, hsent, -⟩ := chipSelect_of_reachable (watchedLines scriptSpi) hreach
  exact ⟨hreach, hhigh, hsent⟩

end Mosnix.Sd
