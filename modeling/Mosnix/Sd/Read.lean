import Mosnix.Sd.Card
import Mosnix.Lib.Supply

/-!
# The data that `sd_read` accepts

The bytes on the SPI bus are a supply, and `sd_read` is described by what it finds among them: an
answer to its command, a token, and the data.  It should succeed only if the token is `SD_START`.
But it tests only that the value of `sd_wait_for_start` is not zero, and so it takes the bytes that
follow an error token, or a time-out, for data as well.
-/

namespace Mosnix.Sd

open Fat Program Supply

/-- Start data block. -/
def SD_START : Byte := 0xFE

section Driver

variable {σ : Type} (spi : Spi σ)

/-! ### Answers and tokens -/

/-- A command is sent once the card is not busy, and the first byte after it without its highest bit
is the response, all within the time-outs.  After the response the bus is in the state `t'`. -/
def Answers (cmd : SdCardCommand) (t : σ) (response : Byte) (t' : σ) : Prop :=
  ∃ byte t₁, Finds spi.receiveByte (fun byte => byte = 0xFF) 255 t byte t₁ ∧
    Finds spi.receiveByte (fun byte => byte &&& 0x80 = 0) 255 (spi.send cmd.bytes t₁) response t'

/-- The response to a command, which is 0xFF if there is none in time, and the bus after it. -/
def response (cmd : SdCardCommand) (t : σ) : Byte × σ :=
  match poll spi.receiveByte (fun byte => byte = 0xFF) 255 t with
  | (none, t₁) => (0xFF, t₁)
  | (some _, t₁) =>
      let answer := poll spi.receiveByte (fun byte => byte &&& 0x80 = 0) 255 (spi.send cmd.bytes t₁)
      (answer.1.getD 0xFF, answer.2)

/-- The command of `sd_read` is answered with zero. -/
def AnswersRead (blknum : Long) (s : SdState σ) (t : σ) : Prop :=
  Answers spi (readCommand s.info blknum) (spi.lowerCs s.bus) SD_R1_READY t

/-- The first byte within the time-out other than 0xFF. -/
def Token (t : σ) (token : Byte) (t' : σ) : Prop :=
  Finds spi.receiveByte (fun byte => byte ≠ 0xFF) 255 t token t'

/-- The token before data, which is 0xFF if there is none in time, and the bus after it. -/
def startToken (t : σ) : Byte × σ :=
  let token := poll spi.receiveByte (fun byte => byte ≠ 0xFF) 255 t
  (token.1.getD 0xFF, token.2)

/-- The block was received: after a response of zero, the token was `SD_START`, and the cached block
holds the bytes that followed it. -/
def Received (blknum : Long) (s s' : SdState σ) : Prop :=
  ∃ t t', AnswersRead spi blknum s t ∧ Token spi t SD_START t' ∧
    (List.range SD_BLKSIZE).map s'.info.block = items spi.receiveByte SD_BLKSIZE t'

/-- After a response of zero a token arrives in time, which is `SD_START` or zero. -/
def KnownToken (blknum : Long) (s : SdState σ) : Prop :=
  ∀ t, AnswersRead spi blknum s t →
    ∃ token t', Token spi t token t' ∧ (token = SD_START ∨ token = 0)

variable {spi}

/-! ### What is found on the bus -/

/-- The bytes that are received. -/
theorem spiReceive_eq (n : ℕ) (s : SdState σ) :
  spiReceive spi n s =
    some (items spi.receiveByte n s.bus, { s with bus := skip spi.receiveByte n s.bus })
  := by
  induction n generalizing s with
  | zero => rfl
  | succ n ih =>
      have hbyte : spiReceiveByte spi s =
          some ((spi.receiveByte s.bus).1, { s with bus := (spi.receiveByte s.bus).2 }) := rfl
      rw [spiReceive, bind_eq hbyte, bind_eq (ih _)]
      rfl

theorem spiBlank_eq (n : ℕ) (s : SdState σ) :
  spiBlank spi n s = some ((), { s with bus := skip spi.receiveByte n s.bus })
  := by
  rw [spiBlank, bind_eq (spiReceive_eq n s)]
  rfl

/-- The bytes that are received are stored. -/
theorem spiReceiveBlock_eq (n : ℕ) (s : SdState σ) :
  spiReceiveBlock spi n s = some ((),
    { info := { s.info with block := store (items spi.receiveByte n s.bus) s.info.block }
      bus := skip spi.receiveByte n s.bus })
  := by
  rw [spiReceiveBlock, bind_eq (spiReceive_eq n s)]
  rfl

/-- The poll finds the first byte that passes the test. -/
theorem spiPoll_eq (test : Byte → Bool) (n : ℕ) (s : SdState σ) :
  spiPoll spi test n s =
    some ((poll spi.receiveByte test n s.bus).1,
      { s with bus := (poll spi.receiveByte test n s.bus).2 })
  := by
  induction n generalizing s with
  | zero => rfl
  | succ n ih =>
      have hbyte : spiReceiveByte spi s =
          some ((spi.receiveByte s.bus).1, { s with bus := (spi.receiveByte s.bus).2 }) := rfl
      rw [spiPoll, bind_eq hbyte, poll]
      split_ifs
      · rfl
      · apply ih

/-- The response to a command. -/
theorem sdCommand_eq (cmd : SdCardCommand) (s : SdState σ) :
  sdCommand spi cmd s =
    some ((response spi cmd s.bus).1, { s with bus := (response spi cmd s.bus).2 })
  := by
  rw [sdCommand, bind_eq (spiPoll_eq _ 255 s), response]
  obtain ⟨ready, t₁⟩ := poll spi.receiveByte (fun byte => byte = 0xFF) 255 s.bus
  cases ready with
  | none => rfl
  | some _ =>
      have hsend : spiSend spi cmd.bytes { s with bus := t₁ } =
          some ((), { s with bus := spi.send cmd.bytes t₁ }) := rfl
      dsimp only
      rw [bind_eq hsend, bind_eq (spiPoll_eq _ 255 _)]
      rfl

/-- A command is answered, or there is no answer in time. -/
theorem response_cases (cmd : SdCardCommand) (t : σ) :
  Answers spi cmd t (response spi cmd t).1 (response spi cmd t).2 ∨
    (response spi cmd t).1 = 0xFF ∧ ∀ r t', ¬ Answers spi cmd t r t'
  := by
  have hready := poll_cases spi.receiveByte (fun byte => byte = 0xFF) 255 t
  unfold response
  generalize poll spi.receiveByte (fun byte => byte = 0xFF) 255 t = ready at hready ⊢
  obtain ⟨ready, t₁⟩ := ready
  obtain ⟨byte, hbyte, hfinds⟩ | ⟨hnone, hbusy⟩ := hready
  · cases hbyte
    obtain ⟨r, hr, hfinds'⟩ | ⟨hnone, htimeout⟩ := poll_cases spi.receiveByte
      (fun byte => byte &&& 0x80 = 0) 255 (spi.send cmd.bytes t₁)
    · left
      dsimp only
      rw [hr]
      exact ⟨byte, t₁, hfinds, hfinds'⟩
    · right
      dsimp only
      rw [hnone]
      refine ⟨rfl, ?_⟩
      rintro r t' ⟨byte', t₁', hfinds'', hanswer⟩
      obtain ⟨-, rfl⟩ := hfinds.unique hfinds''
      apply htimeout r t' hanswer
  · cases hnone
    right
    refine ⟨rfl, ?_⟩
    rintro r t' ⟨byte, t₁', hfinds, -⟩
    apply hbusy byte t₁' hfinds

/-- The card answers, or `sd_command` returns 0xFF. -/
theorem sdCommand_ends (cmd : SdCardCommand) (s : SdState σ) :
  Ends (sdCommand spi cmd) s fun r s' => s'.info = s.info ∧
    (Answers spi cmd s.bus r s'.bus ∨ r = 0xFF ∧ ∀ response t, ¬ Answers spi cmd s.bus response t)
  :=
  ⟨_, _, sdCommand_eq cmd s, rfl, response_cases cmd s.bus⟩

/-- The response is unique. -/
theorem Answers.unique {cmd : SdCardCommand} {t t' t'' : σ} {r r' : Byte}
    (h : Answers spi cmd t r t') (h' : Answers spi cmd t r' t'') :
  r = r' ∧ t' = t''
  := by
  obtain ⟨byte, t₁, hbyte, hresponse⟩ := h
  obtain ⟨byte', t₁', hbyte', hresponse'⟩ := h'
  obtain ⟨-, rfl⟩ := hbyte.unique hbyte'
  apply hresponse.unique hresponse'

theorem sdWaitForStart_eq (s : SdState σ) :
  sdWaitForStart spi s =
    some ((startToken spi s.bus).1, { s with bus := (startToken spi s.bus).2 })
  := by
  rw [sdWaitForStart, bind_eq (spiPoll_eq _ 255 s)]
  rfl

/-- A token arrives, or there is none in time. -/
theorem startToken_cases (t : σ) :
  Token spi t (startToken spi t).1 (startToken spi t).2 ∨
    (startToken spi t).1 = 0xFF ∧ ∀ token t', ¬ Token spi t token t'
  := by
  unfold startToken
  obtain ⟨token, htoken, hfinds⟩ | ⟨hnone, htimeout⟩ := poll_cases spi.receiveByte
    (fun byte => byte ≠ 0xFF) 255 t
  · left
    dsimp only
    rw [htoken]
    apply hfinds
  · right
    dsimp only
    rw [hnone]
    exact ⟨rfl, htimeout⟩

/-- The card sends a token, or `sd_wait_for_start` returns 0xFF. -/
theorem sdWaitForStart_ends (s : SdState σ) :
  Ends (sdWaitForStart spi) s fun r s' => s'.info = s.info ∧
    (Token spi s.bus r s'.bus ∨ r = 0xFF ∧ ∀ token t, ¬ Token spi s.bus token t)
  :=
  ⟨_, _, sdWaitForStart_eq s, rfl, startToken_cases s.bus⟩

/-! ### Reading a block -/

theorem map_store (bytes : List Byte) (block : ℕ → Byte) :
  (List.range bytes.length).map (store bytes block) = bytes
  := by
  apply List.ext_getElem
  · rw [List.length_map, List.length_range]
  · intro i hi hi'
    rw [List.getElem_map, List.getElem_range, store, List.getD_eq_getElem?_getD,
      List.getElem?_eq_getElem hi', Option.getD_some]

/-- The part of `sd_read` that receives the data. -/
theorem receiveData_ends (s : SdState σ) :
  Ends (do
    spiReceiveBlock spi SD_BLKSIZE
    spiBlank spi 2
    spiSdcardRaiseCs spi
    return SD_R1_READY) s fun r s' => r = SD_R1_READY ∧
      (List.range SD_BLKSIZE).map s'.info.block = items spi.receiveByte SD_BLKSIZE s.bus
  := by
  apply Ends.bind_of_eq (spiReceiveBlock_eq SD_BLKSIZE s)
  refine ⟨SD_R1_READY, _, rfl, rfl, ?_⟩
  have hmap := map_store (items spi.receiveByte SD_BLKSIZE s.bus) s.info.block
  rw [length_items] at hmap
  apply hmap

/-- `sd_read` fails, or it receives the data after any token but zero, or after a time-out. -/
theorem sdRead_ends (blknum : Long) (s : SdState σ) :
  Ends (sdRead spi blknum) s fun r s' =>
    (r ≠ SD_R1_READY ∧ ∀ t, AnswersRead spi blknum s t → ∃ t', Token spi t 0 t') ∨
    (r = SD_R1_READY ∧ ∃ t t', AnswersRead spi blknum s t ∧
      ((∃ token, token ≠ 0 ∧ Token spi t token t') ∨ ∀ token t'', ¬ Token spi t token t'') ∧
      (List.range SD_BLKSIZE).map s'.info.block = items spi.receiveByte SD_BLKSIZE t')
  := by
  have hget : (get : Program (SdState σ) (SdState σ)) s = some (s, s) := rfl
  have hlower : spiSdcardLowerCs spi s = some ((), { s with bus := spi.lowerCs s.bus }) := rfl
  have hfail (r : Byte) (s' : SdState σ) :
      (do spiSdcardRaiseCs spi; return r : Program (SdState σ) Byte) s' =
        some (r, { s' with bus := spi.raiseCs s'.bus }) := rfl
  apply Ends.bind_of_eq hget
  apply Ends.bind_of_eq hlower
  apply Ends.bind (sdCommand_ends (readCommand s.info blknum) _)
  rintro r s₁ ⟨-, hanswer⟩
  split_ifs with hr
  · refine ⟨_, _, hfail r s₁, Or.inl ⟨hr, ?_⟩⟩
    intro t ht
    obtain hanswer | ⟨-, hnone⟩ := hanswer
    · apply absurd (hanswer.unique ht).1 hr
    · apply absurd ht (hnone SD_R1_READY t)
  · obtain rfl := not_not.mp hr
    have hanswer : AnswersRead spi blknum s s₁.bus := by
      obtain hanswer | ⟨hr', -⟩ := hanswer
      · apply hanswer
      · cases hr'
    apply Ends.bind (sdWaitForStart_ends s₁)
    rintro token s₂ ⟨-, htoken⟩
    split_ifs with hzero
    · refine ⟨_, _, hfail 0xFF s₂, Or.inl ⟨by decide, ?_⟩⟩
      intro t ht
      obtain ⟨-, rfl⟩ := hanswer.unique ht
      refine ⟨s₂.bus, ?_⟩
      obtain htoken | ⟨htoken, -⟩ := htoken
      · apply hzero ▸ htoken
      · rw [hzero] at htoken
        cases htoken
    · apply (receiveData_ends s₂).mono
      rintro r s' ⟨rfl, hdata⟩
      refine Or.inr ⟨rfl, s₁.bus, s₂.bus, hanswer, ?_, hdata⟩
      apply htoken.imp
      · intro htoken
        exact ⟨token, hzero, htoken⟩
      · intro htoken
        apply htoken.2

/-- `sd_read` ends, and it succeeds only on data that follows `SD_START` exactly if the card answers
with no other token than that or zero, and in time. -/
theorem sdRead_received_iff (spi : Spi σ) (blknum : Long) (s : SdState σ) :
  (∃ r s', sdRead spi blknum s = some (r, s')) ∧
  ((∀ s', sdRead spi blknum s = some (SD_R1_READY, s') → Received spi blknum s s') ↔
    KnownToken spi blknum s)
  := by
  obtain ⟨r, s', hread, hends⟩ : Ends (sdRead spi blknum) s _ := sdRead_ends blknum s
  refine ⟨⟨r, s', hread⟩, ?_⟩
  obtain ⟨hr, hzero⟩ | ⟨rfl, t, t', hanswer, htoken, hdata⟩ := hends
  · apply iff_of_true
    · intro s'' hread'
      rw [hread] at hread'
      cases hread'
      apply absurd rfl hr
    · intro t ht
      obtain ⟨t', ht'⟩ := hzero t ht
      exact ⟨0, t', ht', Or.inr rfl⟩
  · constructor
    · intro hreal t₁ hanswer₁
      obtain ⟨t₂, t₂', hanswer₂, hstart, -⟩ := hreal s' hread
      obtain ⟨-, rfl⟩ := hanswer₁.unique hanswer₂
      exact ⟨SD_START, t₂', hstart, Or.inl rfl⟩
    · intro hknown s'' hread'
      rw [hread] at hread'
      cases hread'
      obtain ⟨token, t₁, htoken₁, hvalue⟩ := hknown t hanswer
      obtain ⟨token', hne, htoken'⟩ | hnone := htoken
      · obtain ⟨rfl, rfl⟩ := htoken₁.unique htoken'
        obtain rfl := hvalue.resolve_right hne
        exact ⟨t, t₁, hanswer, htoken', hdata⟩
      · apply absurd htoken₁ (hnone token t₁)

end Driver

/-! ### A bus with given answers -/

/-- A bus on which the bytes to be received are given in advance, with a card of zeros. -/
def scriptSpi : Spi (List Byte) where
  receiveByte bytes := (bytes.headD 0xFF, bytes.tail)
  send _ bytes := bytes
  lowerCs bytes := bytes
  raiseCs bytes := bytes
  sysClock bytes := (0, bytes)
  card _ _ _ := 0
  card_receiveByte _ := rfl
  card_send _ _ := rfl
  card_lowerCs _ := rfl
  card_raiseCs _ := rfl
  card_sysClock _ := rfl

section Script

variable (info : SdInfoT) (rest : List Byte)

theorem spiReceive_script (data : List Byte) :
  spiReceive scriptSpi data.length ⟨info, data ++ rest⟩ = some (data, ⟨info, rest⟩)
  := by
  induction data with
  | nil => rfl
  | cons byte data ih =>
      have hbyte : spiReceiveByte scriptSpi ⟨info, byte :: data ++ rest⟩ =
          some (byte, ⟨info, data ++ rest⟩) := rfl
      rw [List.length_cons, spiReceive, bind_eq hbyte, bind_eq ih]
      rfl

theorem spiPoll_script {test : Byte → Bool} {byte : Byte} (h : test byte = true) (timeout : ℕ) :
  spiPoll scriptSpi test (timeout + 1) ⟨info, byte :: rest⟩ = some (some byte, ⟨info, rest⟩)
  := by
  have hbyte : spiReceiveByte scriptSpi ⟨info, byte :: rest⟩ = some (byte, ⟨info, rest⟩) := rfl
  rw [spiPoll, bind_eq hbyte, if_pos h]
  rfl

/-- A command to which the script answers. -/
theorem sdCommand_script (cmd : SdCardCommand) {response : Byte} (h : response &&& 0x80 = 0) :
  sdCommand scriptSpi cmd ⟨info, 0xFF :: response :: rest⟩ = some (response, ⟨info, rest⟩)
  := by
  have hsend : spiSend scriptSpi cmd.bytes ⟨info, response :: rest⟩ =
      some ((), ⟨info, response :: rest⟩) := rfl
  rw [sdCommand, bind_eq (spiPoll_script info (response :: rest) rfl 254)]
  dsimp only
  rw [bind_eq hsend, bind_eq (spiPoll_script info rest (decide_eq_true h) 254)]
  rfl

/-- A card that answers with the bytes `data`. -/
theorem sdRead_script {data : List Byte} (hdata : data.length = SD_BLKSIZE) (blknum : Long) :
  sdRead scriptSpi blknum ⟨info, 0xFF :: 0x00 :: 0xFE :: (data ++ 0 :: 0 :: rest)⟩ =
    some (SD_R1_READY, ⟨{ info with block := store data info.block }, rest⟩)
  := by
  have hget (s : SdState (List Byte)) : (get : Program _ _) s = some (s, s) := rfl
  have hlower (s : SdState (List Byte)) : spiSdcardLowerCs scriptSpi s = some ((), s) := rfl
  have hstart : sdWaitForStart scriptSpi ⟨info, 0xFE :: (data ++ 0 :: 0 :: rest)⟩ =
      some (0xFE, ⟨info, data ++ 0 :: 0 :: rest⟩) := rfl
  have hblock : spiReceiveBlock scriptSpi data.length ⟨info, data ++ 0 :: 0 :: rest⟩ =
      some ((), ⟨{ info with block := store data info.block }, 0 :: 0 :: rest⟩) := by
    rw [spiReceiveBlock, bind_eq (spiReceive_script info _ data)]
    rfl
  rw [sdRead, bind_eq (hget _), bind_eq (hlower _), bind_eq (sdCommand_script info _ _ rfl),
    if_neg (by decide), bind_eq hstart, if_neg (by decide), ← hdata, bind_eq hblock]
  rfl

/-- The answers of a card from which a block of zeros is read. -/
def zeroBlock (rest : List Byte) : List Byte :=
  0xFF :: 0x00 :: 0xFE :: (List.replicate SD_BLKSIZE 0 ++ 0 :: 0 :: rest)

end Script

/-! ### Cards that answer with a token -/

section Script

variable (info : SdInfoT) (blknum : Long)

theorem finds_script {test : Byte → Bool} {byte : Byte} (h : test byte = true) (n : ℕ)
    (rest : List Byte) :
  Finds scriptSpi.receiveByte test (n + 1) (byte :: rest) byte rest
  :=
  finds_succ.mpr (Or.inl ⟨h, rfl, rfl⟩)

theorem answersRead_script (rest : List Byte) :
  AnswersRead scriptSpi blknum ⟨info, 0xFF :: 0x00 :: rest⟩ rest
  :=
  ⟨0xFF, 0x00 :: rest, finds_script rfl 254 _, finds_script rfl 254 rest⟩

theorem token_script {token : Byte} (h : token ≠ 0xFF) (rest : List Byte) :
  Token scriptSpi (token :: rest) token rest
  :=
  finds_script (decide_eq_true h) 254 rest

end Script

/-- A block of zeros after `SD_START` is received. -/
theorem sdRead_received_zeroBlock :
  ∃ s', sdRead scriptSpi 1 ⟨sdInfoInit, zeroBlock []⟩ = some (SD_R1_READY, s') ∧
    Received scriptSpi 1 ⟨sdInfoInit, zeroBlock []⟩ s'
  := by
  have hread := sdRead_script sdInfoInit [] (List.length_replicate (a := (0 : Byte))) 1
  refine ⟨_, hread, (sdRead_received_iff scriptSpi 1 ⟨sdInfoInit, zeroBlock []⟩).2.mpr ?_ _ hread⟩
  intro t ht
  obtain ⟨-, rfl⟩ := ht.unique (answersRead_script sdInfoInit 1 _)
  exact ⟨SD_START, _, token_script (by decide) _, Or.inl rfl⟩

/-- The token 0x01 reports an error, but `sd_read` succeeds. -/
theorem sdRead_received_error :
  ∃ s', sdRead scriptSpi 1 ⟨sdInfoInit, [0xFF, 0x00, 0x01]⟩ = some (SD_R1_READY, s') ∧
    ¬ Received scriptSpi 1 ⟨sdInfoInit, [0xFF, 0x00, 0x01]⟩ s'
  := by
  refine ⟨_, eq_of_result (by decide +kernel), ?_⟩
  rintro ⟨t, t', hanswer, hstart, -⟩
  obtain ⟨-, rfl⟩ := hanswer.unique (answersRead_script sdInfoInit 1 [0x01])
  obtain ⟨htoken, -⟩ := hstart.unique (token_script (by decide) [])
  apply absurd htoken (by decide)

end Mosnix.Sd
