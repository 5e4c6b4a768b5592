import Mosnix.Lib.Mos6502Long
import Mosnix.Lib.Ring
import Mosnix.Machine

/-!
# The serial port

The routines of `serial.S` that receive characters.  `__serial_isr` puts a byte that has arrived into a
ring of 256 slots, and stops the sender when the ring is above the high water mark.  `__chrin` and
`__chrin_no_wait` take a character from the ring, and start the sender again when the ring is below
the low water mark.
-/

namespace Mosnix.Serial

open Mos6502

/-! ### The code -/

def ACIA_DATA : Word := 0x5000

def ACIA_STATUS : Word := 0x5001

def ACIA_CMD : Word := 0x5002

def RX_HIGH : Byte := 240

def RX_LOW : Byte := 224

/-- The addresses of the variables, which the linker assigns. -/
structure Link where
  serialRxIn : Word
  serialRxOut : Word
  serialRxBuffer : Word
  rxIn_ne_rxOut : serialRxIn ≠ serialRxOut
  buffer_ne (x : Byte) : serialRxBuffer + x.setWidth 16 ∉ [serialRxIn, serialRxOut]
  acia : ∀ a ∈ [ACIA_DATA, ACIA_STATUS, ACIA_CMD],
    a ∉ [serialRxIn, serialRxOut] ∧ ∀ x : Byte, a ≠ serialRxBuffer + x.setWidth 16

/-- The labels of the routines. -/
inductive Label where
  | serialIsr
  | serialIsrEnd
  | chrin
  | chrinHaveChar
  | chrinNoWait
  | chrinNoWaitHaveChar
  | chrinNoChar
  deriving DecidableEq

namespace Link

variable (k : Link)

/-- `__serial_isr` -/
def serialIsr : List (Line Label) :=
  [ .label .serialIsr,
    .op (.lda (.abs ACIA_STATUS)),
    .branch .pl .serialIsrEnd,
    .op (.and (.imm 0x08)),
    .branch .eq .serialIsrEnd,
    .op (.lda (.abs ACIA_DATA)),
    .op (.ldx (.abs k.serialRxIn)),
    .op (.sta (.absX k.serialRxBuffer)),
    .op (.inc (.abs k.serialRxIn)),
    .op (.lda (.abs k.serialRxIn)),
    .op .sec,
    .op (.sbc (.abs k.serialRxOut)),
    .op (.cmp (.imm RX_HIGH)),
    .branch .cc .serialIsrEnd,
    .op (.lda (.imm 0x01)),
    .op (.sta (.abs ACIA_CMD)),
    .label .serialIsrEnd,
    .rts ]

/-- The part of `__chrin` and `__chrin_no_wait` that takes a character; they have different labels for
its end. -/
def takeChar (haveChar : Label) : List (Line Label) :=
  [ .op (.inc (.abs k.serialRxOut)),
    .op (.lda (.abs k.serialRxIn)),
    .op .sec,
    .op (.sbc (.abs k.serialRxOut)),
    .op (.cmp (.imm RX_LOW)),
    .branch .cs haveChar,
    .op (.lda (.imm 0x09)),
    .op (.sta (.abs ACIA_CMD)),
    .label haveChar,
    .op (.lda (.absX k.serialRxBuffer)),
    .op (.ldx (.imm 0)),
    .rts ]

/-- `__chrin` -/
def chrin : List (Line Label) :=
  .label .chrin
    :: .op (.ldx (.abs k.serialRxOut))
    :: .op (.cpx (.abs k.serialRxIn))
    :: .branch .eq .chrin
    :: k.takeChar .chrinHaveChar

/-- `__chrin_no_wait` -/
def chrinNoWait : List (Line Label) :=
  .label .chrinNoWait
    :: .op (.ldx (.abs k.serialRxOut))
    :: .op (.cpx (.abs k.serialRxIn))
    :: .branch .eq .chrinNoChar
    :: (k.takeChar .chrinNoWaitHaveChar
      ++ [ .label .chrinNoChar,
           .op (.lda (.imm 0xFF)),
           .op .tax,
           .rts ])

/-- The routines of `serial.S`. -/
def code : List (Line Label) :=
  k.serialIsr ++ (k.chrin ++ k.chrinNoWait)

/-! ### The ring -/

/-- The address of a slot of the ring. -/
def slot (x : Byte) : Word :=
  k.serialRxBuffer + x.setWidth 16

/-- The bytes in the ring. -/
def ring (m : Memory) : List Byte :=
  Ring.contents (fun x => m (k.slot x)) (m k.serialRxIn) (m k.serialRxOut)

/-- The number of bytes in the ring, as the code computes it. -/
def count (m : Memory) : Byte :=
  m k.serialRxIn - m k.serialRxOut

/-- The memory after a byte is put into the ring. -/
def put (m : Memory) (b : Byte) : Memory :=
  (m.store (k.slot (m k.serialRxIn)) b).store k.serialRxIn (m k.serialRxIn + 1)

/-- The memory after a byte is taken from the ring. -/
def take (m : Memory) : Memory :=
  m.store k.serialRxOut (m k.serialRxOut + 1)

/-- The memory after `__serial_isr` for a byte that has arrived. -/
def afterIsr (m : Memory) (b : Byte) : Memory :=
  if k.count (k.put m b) < RX_HIGH then k.put m b else (k.put m b).store ACIA_CMD 0x01

/-- The memory after a call that takes a byte. -/
def afterTake (m : Memory) : Memory :=
  if k.count (k.take m) < RX_LOW then (k.take m).store ACIA_CMD 0x09 else k.take m

/-! ### Addresses -/

theorem slot_ne_rxIn (x : Byte) : k.slot x ≠ k.serialRxIn := by
  have h := k.buffer_ne x
  simp only [List.mem_cons, List.not_mem_nil, or_false, not_or] at h
  exact h.1

theorem slot_ne_rxOut (x : Byte) : k.slot x ≠ k.serialRxOut := by
  have h := k.buffer_ne x
  simp only [List.mem_cons, List.not_mem_nil, or_false, not_or] at h
  exact h.2

/-- The slots of the buffer are apart. -/
theorem slot_inj {x y : Byte} : k.slot x = k.slot y ↔ x = y := by
  rw [slot, slot]
  bv_omega

/-- A register of the ACIA is not a variable. -/
theorem acia_ne {a : Word} (ha : a ∈ [ACIA_DATA, ACIA_STATUS, ACIA_CMD]) :
  a ≠ k.serialRxIn ∧ a ≠ k.serialRxOut ∧ ∀ x, a ≠ k.slot x
  := by
  obtain ⟨hvars, hslot⟩ := k.acia a ha
  simp only [List.mem_cons, List.not_mem_nil, or_false, not_or] at hvars
  exact ⟨hvars.1, hvars.2, hslot⟩

/-- A store to a register of the ACIA does not change the ring. -/
theorem store_acia {m : Memory} {a : Word} (ha : a ∈ [ACIA_DATA, ACIA_STATUS, ACIA_CMD]) (b : Byte) :
  (m.store a b) k.serialRxIn = m k.serialRxIn ∧ (m.store a b) k.serialRxOut = m k.serialRxOut
    ∧ k.ring (m.store a b) = k.ring m
  := by
  obtain ⟨hin, hout, hslot⟩ := k.acia_ne ha
  have hin' := Memory.store_of_ne (m := m) (c := b) hin.symm
  have hout' := Memory.store_of_ne (m := m) (c := b) hout.symm
  refine ⟨hin', hout', ?_⟩
  have hslots : (fun x => (m.store a b) (k.slot x)) = fun x => m (k.slot x) := by
    funext x
    exact Memory.store_of_ne (hslot x).symm
  rw [ring, ring, hin', hout', hslots]

/-! ### Putting and taking -/

variable {k} {m : Memory} {b : Byte} {bs : List Byte}

/-- The number of characters in the buffer. -/
theorem length_ring : (k.ring m).length = (k.count m).toNat := Ring.length_contents

theorem ring_eq_nil (h : m k.serialRxIn = m k.serialRxOut) : k.ring m = [] := by
  rw [ring, h, Ring.contents_self]

theorem put_rxIn : (k.put m b) k.serialRxIn = m k.serialRxIn + 1 := Memory.store_self

theorem put_rxOut : (k.put m b) k.serialRxOut = m k.serialRxOut := by
  rw [put, Memory.store_of_ne k.rxIn_ne_rxOut.symm, Memory.store_of_ne (k.slot_ne_rxOut _).symm]

/-- The character is stored in the next slot. -/
theorem put_slot (x : Byte) :
  (k.put m b) (k.slot x) = if x = m k.serialRxIn then b else m (k.slot x)
  := by
  rw [put, Memory.store_of_ne (k.slot_ne_rxIn x)]
  split_ifs with hx
  · rw [hx, Memory.store_self]
  · rw [Memory.store_of_ne]
    intro heq
    exact hx (k.slot_inj.mp heq)

theorem put_cmd : (k.put m b) ACIA_CMD = m ACIA_CMD := by
  obtain ⟨hin, -, hslot⟩ := k.acia_ne (a := ACIA_CMD) (by simp)
  rw [put, Memory.store_of_ne hin, Memory.store_of_ne (hslot _)]

/-- A byte is put into a ring that is not full. -/
theorem ring_put (h : (k.ring m).length < 255) : k.ring (k.put m b) = k.ring m ++ [b] := by
  rw [length_ring, count] at h
  rw [ring, ring, put_rxIn, put_rxOut]
  apply Ring.contents_put
  · omega
  · rw [put_slot, if_pos rfl]
  · intro x hx
    rw [put_slot, if_neg hx]

theorem take_rxIn : (k.take m) k.serialRxIn = m k.serialRxIn := Memory.store_of_ne k.rxIn_ne_rxOut

/-- The characters stay in their slots. -/
theorem take_slot (x : Byte) : (k.take m) (k.slot x) = m (k.slot x) :=
  Memory.store_of_ne (k.slot_ne_rxOut x)

theorem take_cmd : (k.take m) ACIA_CMD = m ACIA_CMD := by
  obtain ⟨-, hout, -⟩ := k.acia_ne (a := ACIA_CMD) (by simp)
  rw [take, Memory.store_of_ne hout]

/-- A byte is taken from a ring that is not empty. -/
theorem ring_take (h : m k.serialRxIn ≠ m k.serialRxOut) :
  k.ring m = m (k.slot (m k.serialRxOut)) :: k.ring (k.take m)
  := by
  have hslots : (fun x => (k.take m) (k.slot x)) = fun x => m (k.slot x) := by
    funext x
    apply take_slot
  have hout : (k.take m) k.serialRxOut = m k.serialRxOut + 1 := Memory.store_self
  rw [ring, ring, hslots, take_rxIn, hout]
  apply Ring.contents_take h

/-- The effect of `__serial_isr` on a ring that is not full. -/
theorem afterIsr_spec (h : (k.ring m).length < 255) :
  k.ring (k.afterIsr m b) = k.ring m ++ [b]
    ∧ k.afterIsr m b ACIA_CMD = if (k.ring m).length + 1 < 240 then m ACIA_CMD else 0x01
  := by
  have hput := k.ring_put (b := b) h
  have hcount : (k.count (k.put m b)).toNat = (k.ring m).length + 1 := by
    rw [← length_ring, hput, List.length_append, List.length_singleton]
  have hlt : k.count (k.put m b) < RX_HIGH ↔ (k.ring m).length + 1 < 240 := by
    rw [← hcount]
    exact Iff.rfl
  rw [afterIsr]
  by_cases hhigh : (k.ring m).length + 1 < 240
  · rw [if_pos (hlt.mpr hhigh), if_pos hhigh]
    exact ⟨hput, put_cmd⟩
  · rw [if_neg (hlt.not.mpr hhigh), if_neg hhigh, (k.store_acia (by simp) _).2.2]
    exact ⟨hput, Memory.store_self⟩

/-- The effect of a call that takes a byte. -/
theorem afterTake_spec (h : m k.serialRxIn ≠ m k.serialRxOut) :
  k.ring m = m (k.slot (m k.serialRxOut)) :: k.ring (k.afterTake m)
    ∧ k.afterTake m ACIA_CMD = if (k.ring m).length - 1 < 224 then 0x09 else m ACIA_CMD
  := by
  have htake := k.ring_take h
  have hcount : (k.count (k.take m)).toNat = (k.ring m).length - 1 := by
    rw [htake, List.length_cons, ← length_ring, Nat.add_sub_cancel]
  have hlt : k.count (k.take m) < RX_LOW ↔ (k.ring m).length - 1 < 224 := by
    rw [← hcount]
    exact Iff.rfl
  rw [afterTake]
  by_cases hlow : (k.ring m).length - 1 < 224
  · rw [if_pos (hlt.mpr hlow), if_pos hlow, (k.store_acia (by simp) _).2.2]
    exact ⟨htake, Memory.store_self⟩
  · rw [if_neg (hlt.not.mpr hlow), if_neg hlow]
    exact ⟨htake, take_cmd⟩

/-! ### The routines -/

/-- The instructions that compare the number of bytes in the ring with a water mark. -/
def countOps (k : Link) (mark : Byte) : List Op :=
  [.lda (.abs k.serialRxIn), .sec, .sbc (.abs k.serialRxOut), .cmp (.imm mark)]

variable {cpu : Cpu}

/-- The carry compares the number of characters with a mark. -/
theorem run_countOps (cpu : Cpu) (mark : Byte) :
  (run (k.countOps mark) cpu).c = decide (mark ≤ k.count cpu.mem)
    ∧ (run (k.countOps mark) cpu).mem = cpu.mem ∧ (run (k.countOps mark) cpu).x = cpu.x
  := by
  refine ⟨?_, rfl, rfl⟩
  rw [count, ← sum_sub]
  rfl

/-- The instructions that put a byte into the ring. -/
def putOps (k : Link) : List Op :=
  [ .lda (.abs ACIA_DATA),
    .ldx (.abs k.serialRxIn),
    .sta (.absX k.serialRxBuffer),
    .inc (.abs k.serialRxIn) ]

/-- The character is put into the buffer. -/
theorem run_putOps (cpu : Cpu) : (run k.putOps cpu).mem = k.put cpu.mem (cpu.mem ACIA_DATA) := by
  have hin : (cpu.mem.store (k.slot (cpu.mem k.serialRxIn)) (cpu.mem ACIA_DATA)) k.serialRxIn
      = cpu.mem k.serialRxIn := Memory.store_of_ne (k.slot_ne_rxIn _).symm
  have hrun : (run k.putOps cpu).mem
      = (cpu.mem.store (k.slot (cpu.mem k.serialRxIn)) (cpu.mem ACIA_DATA)).store k.serialRxIn
          ((cpu.mem.store (k.slot (cpu.mem k.serialRxIn)) (cpu.mem ACIA_DATA)) k.serialRxIn + 1) :=
    rfl
  rw [hrun, hin, put]

theorem code_eq_serialIsr (k : Link) :
  goto k.code .serialIsr
    = .label .serialIsr :: .op (.lda (.abs ACIA_STATUS)) :: .branch .pl .serialIsrEnd
      :: .op (.and (.imm 0x08)) :: .branch .eq .serialIsrEnd
      :: (k.putOps.map .op ++ ((k.countOps RX_HIGH).map .op ++ .branch .cc .serialIsrEnd
        :: .op (.lda (.imm 0x01)) :: .op (.sta (.abs ACIA_CMD)) :: goto k.code .serialIsrEnd))
  := rfl

theorem goto_serialIsrEnd (k : Link) :
  goto k.code .serialIsrEnd = .label .serialIsrEnd :: .rts :: (k.chrin ++ k.chrinNoWait)
  := rfl

/-- The status of the ACIA says that there is an interrupt, and that a byte has arrived. -/
def Arrived (status : Byte) : Prop :=
  status.msb = true ∧ status &&& 0x08 ≠ 0

instance (status : Byte) : Decidable (Arrived status) :=
  inferInstanceAs (Decidable (_ ∧ _))

/-- The end of `serial_isr`. -/
theorem isrEnd_leads {Q : List (Line Label) × Cpu → Prop}
    (h : Q (.rts :: (k.chrin ++ k.chrinNoWait), cpu)) :
  Leads k.code (goto k.code .serialIsrEnd, cpu) Q
  := by
  rw [goto_serialIsrEnd]
  apply Leads.label
  apply Leads.refl h

/-- `__serial_isr` returns, and has put the byte that has arrived into the ring. -/
theorem serialIsr_leads (k : Link) (cpu : Cpu) :
  Leads k.code (goto k.code .serialIsr, cpu) (AtRts fun cpu' =>
    cpu'.mem = if Arrived (cpu.mem ACIA_STATUS) then k.afterIsr cpu.mem (cpu.mem ACIA_DATA)
      else cpu.mem)
  := by
  rw [code_eq_serialIsr]
  apply Leads.label
  apply Leads.op
  by_cases hmsb : (cpu.mem ACIA_STATUS).msb = true
  swap
  · apply Leads.branch
    · simpa [Cond.holds, Op.exec, Cpu.setNZ, Mode.read, Mode.addr] using hmsb
    apply isrEnd_leads
    rw [if_neg (fun h => hmsb h.1)]
    exact ⟨rfl, rfl⟩
  apply Leads.noBranch
  · simpa [Cond.holds, Op.exec, Cpu.setNZ, Mode.read, Mode.addr] using hmsb
  apply Leads.op
  by_cases hbit : cpu.mem ACIA_STATUS &&& 0x08 = 0
  · apply Leads.branch
    · apply beq_iff_eq.mpr hbit
    apply isrEnd_leads
    rw [if_neg (fun h => h.2 hbit)]
    exact ⟨rfl, rfl⟩
  apply Leads.noBranch
  · apply beq_eq_false_iff_ne.mpr hbit
  rw [if_pos ⟨hmsb, hbit⟩]
  apply Leads.ops
  apply Leads.ops
  generalize hcpu : (Op.and (.imm 0x08)).exec ((Op.lda (.abs ACIA_STATUS)).exec cpu) = cpu₁
  have hmem : cpu₁.mem = cpu.mem := by
    rw [← hcpu]
    rfl
  have hput := k.run_putOps cpu₁
  rw [hmem] at hput
  obtain ⟨hc, hmem', -⟩ := k.run_countOps (run k.putOps cpu₁) RX_HIGH
  rw [hput] at hc hmem'
  generalize run (k.countOps RX_HIGH) (run k.putOps cpu₁) = cpu₂ at *
  by_cases hlt : k.count (k.put cpu.mem (cpu.mem ACIA_DATA)) < RX_HIGH
  · apply Leads.branch
    · rw [Cond.holds, hc, decide_eq_false (BitVec.not_le.mpr hlt), Bool.not_false]
    apply isrEnd_leads
    rw [afterIsr, if_pos hlt]
    exact ⟨rfl, hmem'⟩
  · apply Leads.noBranch
    · rw [Cond.holds, hc, decide_eq_true (BitVec.not_lt.mp hlt), Bool.not_true]
    apply Leads.op
    apply Leads.op
    apply isrEnd_leads
    rw [afterIsr, if_neg hlt, ← hmem']
    exact ⟨rfl, rfl⟩

theorem afterTake_slot (x : Byte) : k.afterTake m (k.slot x) = m (k.slot x) := by
  obtain ⟨-, -, hslot⟩ := k.acia_ne (a := ACIA_CMD) (by simp)
  rw [afterTake]
  split_ifs
  · rw [Memory.store_of_ne (hslot x).symm, take_slot]
  · apply take_slot

section

variable {haveChar : Label} {rest : List (Line Label)}
  (hgoto : goto k.code haveChar = .label haveChar :: .op (.lda (.absX k.serialRxBuffer))
    :: .op (.ldx (.imm 0)) :: .rts :: rest)

include hgoto

/-- The character in the slot `X` is returned. -/
theorem haveChar_leads (hmem : cpu.mem = k.afterTake m) :
  Leads k.code (goto k.code haveChar, cpu) (AtRts fun cpu' =>
    cpu'.a = m (k.slot cpu.x) ∧ cpu'.x = 0 ∧ cpu'.mem = k.afterTake m)
  := by
  rw [hgoto]
  apply Leads.label
  apply Leads.op
  apply Leads.op
  apply Leads.refl
  have hslot := k.afterTake_slot (m := m) cpu.x
  rw [← hmem] at hslot
  exact ⟨rfl, hslot, rfl, hmem⟩

/-- A character is taken, and returned. -/
theorem takeChar_leads (hx : cpu.x = cpu.mem k.serialRxOut) :
  Leads k.code (k.takeChar haveChar ++ rest, cpu) (AtRts fun cpu' =>
    cpu'.a = cpu.mem (k.slot (cpu.mem k.serialRxOut)) ∧ cpu'.x = 0
      ∧ cpu'.mem = k.afterTake cpu.mem)
  := by
  have hcode : k.takeChar haveChar ++ rest = .op (.inc (.abs k.serialRxOut))
      :: ((k.countOps RX_LOW).map .op ++ .branch .cs haveChar :: .op (.lda (.imm 0x09))
        :: .op (.sta (.abs ACIA_CMD)) :: goto k.code haveChar) := by
    rw [hgoto]
    rfl
  rw [hcode]
  apply Leads.op
  apply Leads.ops
  obtain ⟨hc, hmem, hx'⟩ := k.run_countOps ((Op.inc (.abs k.serialRxOut)).exec cpu) RX_LOW
  have htake : ((Op.inc (.abs k.serialRxOut)).exec cpu).mem = k.take cpu.mem := rfl
  have hinc : ((Op.inc (.abs k.serialRxOut)).exec cpu).x = cpu.x := rfl
  rw [htake] at hc hmem
  rw [hinc, hx] at hx'
  generalize run (k.countOps RX_LOW) _ = cpu' at *
  rw [← hx']
  by_cases hlt : k.count (k.take cpu.mem) < RX_LOW
  · apply Leads.noBranch
    · rw [Cond.holds, hc, decide_eq_false (BitVec.not_le.mpr hlt)]
    apply Leads.op
    apply Leads.op
    apply haveChar_leads hgoto
    rw [afterTake, if_pos hlt, ← hmem]
    rfl
  · apply Leads.branch
    · rw [Cond.holds, hc, decide_eq_true (BitVec.not_lt.mp hlt)]
    apply haveChar_leads hgoto
    rw [afterTake, if_neg hlt, hmem]

end

/-- The test for an empty ring at the start of a call does not branch, and a character is taken. -/
theorem available_leads {l l' : Label} (haveChar : Label) {rest : List (Line Label)}
    (h : cpu.mem k.serialRxIn ≠ cpu.mem k.serialRxOut)
    (hgoto : goto k.code haveChar = .label haveChar :: .op (.lda (.absX k.serialRxBuffer))
      :: .op (.ldx (.imm 0)) :: .rts :: rest) :
  Leads k.code (.label l :: .op (.ldx (.abs k.serialRxOut)) :: .op (.cpx (.abs k.serialRxIn))
      :: .branch .eq l' :: (k.takeChar haveChar ++ rest), cpu) (AtRts fun cpu' =>
    cpu'.a = cpu.mem (k.slot (cpu.mem k.serialRxOut)) ∧ cpu'.x = 0
      ∧ cpu'.mem = k.afterTake cpu.mem)
  := by
  apply Leads.label
  apply Leads.op
  apply Leads.op
  apply Leads.noBranch
  · apply beq_eq_false_iff_ne.mpr
    apply sub_ne_zero.mpr h.symm
  · apply takeChar_leads hgoto
    rfl

/-- `__chrin` returns the first character of a ring that is not empty. -/
theorem chrin_leads (h : cpu.mem k.serialRxIn ≠ cpu.mem k.serialRxOut) :
  Leads k.code (goto k.code .chrin, cpu) (AtRts fun cpu' =>
    cpu'.a = cpu.mem (k.slot (cpu.mem k.serialRxOut)) ∧ cpu'.x = 0
      ∧ cpu'.mem = k.afterTake cpu.mem)
  :=
  available_leads .chrinHaveChar h rfl

/-- `__chrin_no_wait` returns the first character of a ring that is not empty. -/
theorem chrinNoWait_leads (h : cpu.mem k.serialRxIn ≠ cpu.mem k.serialRxOut) :
  Leads k.code (goto k.code .chrinNoWait, cpu) (AtRts fun cpu' =>
    cpu'.a = cpu.mem (k.slot (cpu.mem k.serialRxOut)) ∧ cpu'.x = 0
      ∧ cpu'.mem = k.afterTake cpu.mem)
  :=
  available_leads .chrinNoWaitHaveChar h rfl

/-- `__chrin_no_wait` returns -1 if the ring is empty. -/
theorem chrinNoWait_leads_empty (h : cpu.mem k.serialRxIn = cpu.mem k.serialRxOut) :
  Leads k.code (goto k.code .chrinNoWait, cpu) (AtRts fun cpu' =>
    cpu'.a = 0xFF ∧ cpu'.x = 0xFF ∧ cpu'.mem = cpu.mem)
  := by
  have hcode : goto k.code .chrinNoWait = .label .chrinNoWait :: .op (.ldx (.abs k.serialRxOut))
      :: .op (.cpx (.abs k.serialRxIn)) :: .branch .eq .chrinNoChar
      :: (k.takeChar .chrinNoWaitHaveChar ++ goto k.code .chrinNoChar) := rfl
  rw [hcode]
  apply Leads.label
  apply Leads.op
  apply Leads.op
  apply Leads.branch
  · apply beq_iff_eq.mpr
    apply sub_eq_zero.mpr h.symm
  apply Leads.label
  apply Leads.op
  apply Leads.op
  apply Leads.refl
  exact ⟨rfl, rfl, rfl, rfl⟩

end Link

end Mosnix.Serial
