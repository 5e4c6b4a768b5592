import Mosnix.Lib.Mos6502Io
import Mosnix.Target.Registers

/-!
# The SPI interface

The routines of `spi.S` that transfer bytes over port A of the VIA, one bit at a time, and those that
transfer a number of bytes.  The VIA is a device with an output register and a data direction
register.  It keeps the level of MOSI at each rising edge of SCLK, which is what the other side
receives.  The level of MISO while SCLK is high is given for each pulse; the other inputs have any
level at any time.
-/

namespace Mosnix.Spi

open Mos6502

/-! ### The VIA -/

def SPI_PORT : Word := 0x6001

def SPI_DDR : Word := 0x6003

/-- What is connected to the VIA: the level of MISO in each pulse, and the levels of all inputs at each
read of the port when SCLK is low. -/
structure Wires where
  miso : ℕ → Bool
  inputs : ℕ → Byte

/-- The VIA: its registers, the number of reads of the port, and the level of MOSI at each rising edge
of SCLK. -/
structure Via where
  ora : Byte
  ddr : Byte
  reads : ℕ
  sent : List Bool

namespace Via

variable (v : Via)

/-- SCLK is driven high. -/
def sclk : Bool :=
  v.ora.getLsbD 0 && v.ddr.getLsbD 0

/-- MOSI is driven high. -/
def mosi : Bool :=
  v.ora.getLsbD 1 && v.ddr.getLsbD 1

/-- The levels that the other side drives. -/
def input (w : Wires) : Byte :=
  if v.sclk then
    (w.inputs v.reads &&& 0xBF) ||| if w.miso (v.sent.length - 1) then 0x40 else 0
  else w.inputs v.reads

/-- The levels of the pins. -/
def pins (w : Wires) : Byte :=
  (v.ora &&& v.ddr) ||| (v.input w &&& ~~~ v.ddr)

/-- A register is changed, so that there may be a rising edge of SCLK. -/
def drive (v' : Via) : Via :=
  if ! v.sclk && v'.sclk then { v' with sent := v'.sent ++ [v'.mosi] } else v'

end Via

/-- The VIA as a device. -/
def via (w : Wires) : Device Via where
  mapped a := a == SPI_PORT || a == SPI_DDR
  read v a := if a = SPI_PORT then v.pins w else v.ddr
  afterRead v a := if a = SPI_PORT then { v with reads := v.reads + 1 } else v
  write v a b := v.drive (if a = SPI_PORT then { v with ora := b } else { v with ddr := b })

/-! ### The code -/

/-- The addresses that the calls of subroutines return to, which the linker assigns. -/
structure Link where
  ret₁ : Word
  ret₂ : Word
  ret₃ : Word
  ret₄ : Word
  nodup : [ret₁, ret₂, ret₃, ret₄].Nodup

/-- The labels of the routines. -/
inductive Label where
  | spiInit
  | spiSendByte
  | spiSendBit
  | spiSendBit0
  | spiReceiveByte
  | spiReceiveBit
  | spiReceiveBit0
  | spiSend
  | spiSend1
  | spiSend2
  | spiSend3
  | spiSendDone
  | spiReceive
  | spiReceive1
  | spiReceive2
  | spiReceive3
  | spiReceiveDone
  deriving DecidableEq

/-- The port as an operand. -/
def port : Mode := .abs SPI_PORT

/-- `spi_init` -/
def spiInit : List (Line Label) :=
  [ .label .spiInit,
    .op (.lda port),
    .op (.and (.imm 0xFC)),
    .op (.ora (.imm 0x20)),
    .op (.sta port),
    .op (.lda (.abs SPI_DDR)),
    .op (.ora (.imm 0x23)),
    .op (.and (.imm 0xBF)),
    .op (.sta (.abs SPI_DDR)),
    .rts ]

/-- `spi_send_byte` -/
def spiSendByte : List (Line Label) :=
  [ .label .spiSendByte,
    .op .phx,
    .op (.sta (reg 5)),
    .op (.lda (.imm 2)),
    .op (.ldx (.imm 8)),
    .label .spiSendBit,
    .op (.asl (reg 5)),
    .branch .cc .spiSendBit0,
    .op (.tsb port),
    .op (.inc port),
    .op (.dec port),
    .op .dex,
    .branch .ne .spiSendBit,
    .op .plx,
    .rts,
    .label .spiSendBit0,
    .op (.trb port),
    .op (.inc port),
    .op (.dec port),
    .op .dex,
    .branch .ne .spiSendBit,
    .op .plx,
    .rts ]

/-- `spi_receive_byte` -/
def spiReceiveByte : List (Line Label) :=
  [ .label .spiReceiveByte,
    .op .phx,
    .op (.stz (reg 5)),
    .op (.lda (.imm 2)),
    .op (.tsb port),
    .op (.ldx (.imm 8)),
    .op .sei,
    .label .spiReceiveBit,
    .op (.asl (reg 5)),
    .op (.inc port),
    .op (.bit port),
    .op (.dec port),
    .branch .vc .spiReceiveBit0,
    .op (.inc (reg 5)),
    .label .spiReceiveBit0,
    .op .dex,
    .branch .ne .spiReceiveBit,
    .op .cli,
    .op .plx,
    .op (.lda (reg 5)),
    .rts ]

namespace Link

variable (k : Link)

/-- `spi_send` -/
def spiSend : List (Line Label) :=
  [ .label .spiSend,
    .op (.sta (reg 4)),
    .op (.ldy (.imm 0)),
    .op (.cpx (.imm 0)),
    .branch .eq .spiSend2,
    .label .spiSend1,
    .op (.lda (.indY 2)),
    .jsr k.ret₁ .spiSendByte,
    .op .iny,
    .branch .ne .spiSend1,
    .op (.inc (reg 3)),
    .op .dex,
    .branch .ne .spiSend1,
    .label .spiSend2,
    .op (.ldx (reg 4)),
    .branch .eq .spiSendDone,
    .label .spiSend3,
    .op (.lda (.indY 2)),
    .jsr k.ret₂ .spiSendByte,
    .op .iny,
    .op .dex,
    .branch .ne .spiSend3,
    .label .spiSendDone,
    .rts ]

/-- `spi_receive` -/
def spiReceive : List (Line Label) :=
  [ .label .spiReceive,
    .op (.sta (reg 4)),
    .op (.ldy (.imm 0)),
    .op (.cpx (.imm 0)),
    .branch .eq .spiReceive2,
    .label .spiReceive1,
    .jsr k.ret₃ .spiReceiveByte,
    .op (.sta (.indY 2)),
    .op .iny,
    .branch .ne .spiReceive1,
    .op (.inc (reg 3)),
    .op .dex,
    .branch .ne .spiReceive1,
    .label .spiReceive2,
    .op (.ldx (reg 4)),
    .branch .eq .spiReceiveDone,
    .label .spiReceive3,
    .jsr k.ret₄ .spiReceiveByte,
    .op (.sta (.indY 2)),
    .op .iny,
    .op .dex,
    .branch .ne .spiReceive3,
    .label .spiReceiveDone,
    .rts ]

/-- The routines of `spi.S`. -/
def code : List (Line Label) :=
  spiInit ++ (spiSendByte ++ (spiReceiveByte ++ (k.spiSend ++ k.spiReceive)))

end Link

/-! ### Driving the pins -/

/-- SCLK and MOSI are driven to the given levels, MISO is an input, and `sent` has been sent. -/
structure Driven (sclk mosi : Bool) (sent : List Bool) (v : Via) : Prop where
  sclk_eq : v.ora.getLsbD 0 = sclk
  mosi_eq : v.ora.getLsbD 1 = mosi
  sclk_out : v.ddr.getLsbD 0 = true
  mosi_out : v.ddr.getLsbD 1 = true
  miso_in : v.ddr.getLsbD 6 = false
  sent_eq : v.sent = sent

section Driven

variable {w : Wires} {v : Via} {sclk mosi : Bool} {sent : List Bool}

theorem Driven.sclk_level (h : Driven sclk mosi sent v) : v.sclk = sclk := by
  rw [Via.sclk, h.sclk_eq, h.sclk_out, Bool.and_true]

/-- An output pin has the level in the register. -/
theorem pins_output {i : ℕ} (hout : v.ddr.getLsbD i = true) :
  (v.pins w).getLsbD i = v.ora.getLsbD i
  := by
  simp only [Via.pins, BitVec.getLsbD_or, BitVec.getLsbD_and, BitVec.getLsbD_not, hout,
    Bool.and_true, Bool.not_true, Bool.and_false, Bool.or_false]

/-- An input pin has the level that the other side drives. -/
theorem pins_input {i : ℕ} (hi : i < 8) (hin : v.ddr.getLsbD i = false) :
  (v.pins w).getLsbD i = (v.input w).getLsbD i
  := by
  simp only [Via.pins, BitVec.getLsbD_or, BitVec.getLsbD_and, BitVec.getLsbD_not, hin, hi,
    decide_true, Bool.and_false, Bool.not_false, Bool.and_true, Bool.false_or]

/-- The level of MISO that is read while SCLK is high. -/
theorem Driven.pins_miso (h : Driven true mosi sent v) :
  (v.pins w).getLsbD 6 = w.miso (sent.length - 1)
  := by
  rw [pins_input (by decide) h.miso_in, Via.input, h.sclk_level, if_pos rfl, h.sent_eq,
    BitVec.getLsbD_or, BitVec.getLsbD_and]
  have hmask : (0xBF : Byte).getLsbD 6 = false := by decide
  have hbit : (0x40 : Byte).getLsbD 6 = true := by decide
  rw [hmask, Bool.and_false, Bool.false_or]
  cases w.miso (sent.length - 1) with
  | false => rfl
  | true => rfl

/-! ### Instructions on the port -/

/-- The state of the VIA after an instruction has read the port and written `b`. -/
def rewritten (v : Via) (b : Byte) : Via :=
  Via.drive { v with reads := v.reads + 1 } { v with reads := v.reads + 1, ora := b }

/-- A write to the port that keeps the level of SCLK. -/
theorem Driven.rewritten {b : Byte} (h : Driven sclk mosi sent v) (hsclk : b.getLsbD 0 = sclk) :
  Driven sclk (b.getLsbD 1) sent (rewritten v b)
  := by
  have hlevel : Via.sclk { v with reads := v.reads + 1 } = sclk := h.sclk_level
  have hlevel' : Via.sclk { v with reads := v.reads + 1, ora := b } = sclk := by
    rw [Via.sclk, hsclk, h.sclk_out, Bool.and_true]
  rw [Spi.rewritten, Via.drive, hlevel, hlevel', Bool.not_and_self, if_neg Bool.false_ne_true]
  exact ⟨hsclk, rfl, h.sclk_out, h.mosi_out, h.miso_in, h.sent_eq⟩

/-- A rising edge of SCLK, at which the level of MOSI is sent. -/
theorem Driven.raised {b : Byte} (h : Driven false mosi sent v) (hsclk : b.getLsbD 0 = true)
    (hmosi : b.getLsbD 1 = mosi) :
  Driven true mosi (sent ++ [mosi]) (Spi.rewritten v b)
  := by
  have hlevel : Via.sclk { v with reads := v.reads + 1 } = false := h.sclk_level
  have hlevel' : Via.sclk { v with reads := v.reads + 1, ora := b } = true := by
    rw [Via.sclk, hsclk, h.sclk_out, Bool.and_true]
  have hmosi' : Via.mosi { v with reads := v.reads + 1, ora := b } = mosi := by
    rw [Via.mosi, hmosi, h.mosi_out, Bool.and_true]
  rw [Spi.rewritten, Via.drive, hlevel, hlevel', hmosi', h.sent_eq]
  exact ⟨hsclk, hmosi, h.sclk_out, h.mosi_out, h.miso_in, rfl⟩

/-- A falling edge of SCLK. -/
theorem Driven.lowered {b : Byte} (h : Driven true mosi sent v) (hsclk : b.getLsbD 0 = false)
    (hmosi : b.getLsbD 1 = mosi) :
  Driven false mosi sent (Spi.rewritten v b)
  := by
  have hlevel : Via.sclk { v with reads := v.reads + 1 } = true := h.sclk_level
  rw [Spi.rewritten, Via.drive, hlevel, Bool.not_true, Bool.false_and, if_neg Bool.false_ne_true]
  exact ⟨hsclk, hmosi, h.sclk_out, h.mosi_out, h.miso_in, h.sent_eq⟩

end Driven

/-- An increment of a byte whose low bit is 0 changes no other bit. -/
theorem getLsbD_inc (b : Byte) (h : b.getLsbD 0 = false) :
  (b + 1).getLsbD 0 = true ∧ (b + 1).getLsbD 1 = b.getLsbD 1
  := by
  revert b
  decide +kernel

/-- A decrement of a byte whose low bit is 1 changes no other bit. -/
theorem getLsbD_dec (b : Byte) (h : b.getLsbD 0 = true) :
  (b - 1).getLsbD 0 = false ∧ (b - 1).getLsbD 1 = b.getLsbD 1
  := by
  revert b
  decide +kernel

/-- The two states differ in the port and the flags only. -/
structure SamePort (cpu cpu' : Cpu) : Prop where
  a_eq : cpu'.a = cpu.a
  x_eq : cpu'.x = cpu.x
  y_eq : cpu'.y = cpu.y
  s_eq : cpu'.s = cpu.s
  mem_eq : Set.EqOn cpu'.mem cpu.mem {SPI_PORT}ᶜ

section Port

variable {w : Wires} {c : Cpu × Via} {sclk mosi : Bool} {sent : List Bool}

/-- The state of the processor after it has read the port. -/
def fetched (w : Wires) (c : Cpu × Via) : Cpu :=
  c.1.poke SPI_PORT (c.2.pins w)

theorem fetched_mem_port : (fetched w c).mem SPI_PORT = c.2.pins w :=
  Memory.store_self (m := c.1.mem) (a := SPI_PORT)

/-- A store to the port after it was read. -/
theorem fetched_eqOn (b : Byte) :
  Set.EqOn ((fetched w c).mem.store SPI_PORT b) c.1.mem {SPI_PORT}ᶜ
  :=
  store_eqOn (store_eqOn (Set.eqOn_refl _ _) rfl) rfl

/-- An instruction that reads and writes the port. -/
theorem exec_rewrite {o : Op} (hoperand : o.operand = some port) (hreads : o.reads = true)
    (hwrites : o.writes = true) :
  (via w).exec o c
    = (o.exec (fetched w c), rewritten c.2 ((o.exec (fetched w c)).mem SPI_PORT))
  := by
  rw [Device.exec_mapped (a := SPI_PORT) (by rw [Op.address?, hoperand]; rfl) rfl, Device.access,
    hreads, hwrites]
  rfl

/-- `tsb SPI_PORT` with 2 in `A` raises MOSI. -/
theorem exec_tsb (h : Driven false mosi sent c.2) (ha : c.1.a = 2) :
  SamePort c.1 ((via w).exec (.tsb port) c).1
    ∧ Driven false true sent ((via w).exec (.tsb port) c).2
  := by
  have hmem : ((Op.tsb port).exec (fetched w c)).mem SPI_PORT = c.2.pins w ||| 2 := by
    rw [← ha, ← fetched_mem_port]
    exact Memory.store_self (m := (fetched w c).mem) (a := SPI_PORT)
  rw [exec_rewrite rfl rfl rfl, hmem]
  refine ⟨⟨rfl, rfl, rfl, rfl, fetched_eqOn _⟩, ?_⟩
  have hsclk : (c.2.pins w ||| 2).getLsbD 0 = false := by
    rw [BitVec.getLsbD_or, pins_output h.sclk_out, h.sclk_eq]
    rfl
  have hmosi : (c.2.pins w ||| 2).getLsbD 1 = true := by
    rw [BitVec.getLsbD_or]
    apply Bool.or_true
  have hdriven := h.rewritten hsclk
  rw [hmosi] at hdriven
  exact hdriven

/-- `trb SPI_PORT` with 2 in `A` lowers MOSI. -/
theorem exec_trb (h : Driven false mosi sent c.2) (ha : c.1.a = 2) :
  SamePort c.1 ((via w).exec (.trb port) c).1
    ∧ Driven false false sent ((via w).exec (.trb port) c).2
  := by
  have hmem : ((Op.trb port).exec (fetched w c)).mem SPI_PORT = c.2.pins w &&& ~~~ 2 := by
    rw [← ha, ← fetched_mem_port]
    exact Memory.store_self (m := (fetched w c).mem) (a := SPI_PORT)
  rw [exec_rewrite rfl rfl rfl, hmem]
  refine ⟨⟨rfl, rfl, rfl, rfl, fetched_eqOn _⟩, ?_⟩
  have hsclk : (c.2.pins w &&& ~~~ 2).getLsbD 0 = false := by
    rw [BitVec.getLsbD_and, pins_output h.sclk_out, h.sclk_eq]
    rfl
  have hmosi : (c.2.pins w &&& ~~~ 2).getLsbD 1 = false := by
    rw [BitVec.getLsbD_and]
    apply Bool.and_false
  have hdriven := h.rewritten hsclk
  rw [hmosi] at hdriven
  exact hdriven

/-- `inc SPI_PORT` raises SCLK. -/
theorem exec_inc (h : Driven false mosi sent c.2) :
  SamePort c.1 ((via w).exec (.inc port) c).1
    ∧ Driven true mosi (sent ++ [mosi]) ((via w).exec (.inc port) c).2
  := by
  have hmem : ((Op.inc port).exec (fetched w c)).mem SPI_PORT = c.2.pins w + 1 := by
    rw [← fetched_mem_port]
    exact Memory.store_self (m := (fetched w c).mem) (a := SPI_PORT)
  rw [exec_rewrite rfl rfl rfl, hmem]
  refine ⟨⟨rfl, rfl, rfl, rfl, fetched_eqOn _⟩, ?_⟩
  obtain ⟨hsclk, hmosi⟩ := getLsbD_inc (c.2.pins w) (by rw [pins_output h.sclk_out, h.sclk_eq])
  apply h.raised hsclk
  rw [hmosi, pins_output h.mosi_out, h.mosi_eq]

/-- `dec SPI_PORT` lowers SCLK. -/
theorem exec_dec (h : Driven true mosi sent c.2) :
  SamePort c.1 ((via w).exec (.dec port) c).1 ∧ ((via w).exec (.dec port) c).1.v = c.1.v
    ∧ Driven false mosi sent ((via w).exec (.dec port) c).2
  := by
  have hmem : ((Op.dec port).exec (fetched w c)).mem SPI_PORT = c.2.pins w - 1 := by
    rw [← fetched_mem_port]
    exact Memory.store_self (m := (fetched w c).mem) (a := SPI_PORT)
  rw [exec_rewrite rfl rfl rfl, hmem]
  refine ⟨⟨rfl, rfl, rfl, rfl, fetched_eqOn _⟩, rfl, ?_⟩
  obtain ⟨hsclk, hmosi⟩ := getLsbD_dec (c.2.pins w) (by rw [pins_output h.sclk_out, h.sclk_eq])
  apply h.lowered hsclk
  rw [hmosi, pins_output h.mosi_out, h.mosi_eq]

/-- `bit SPI_PORT` sets the overflow flag to the level of MISO. -/
theorem exec_bit (h : Driven true mosi sent c.2) :
  SamePort c.1 ((via w).exec (.bit port) c).1
    ∧ ((via w).exec (.bit port) c).1.v = w.miso (sent.length - 1)
    ∧ Driven true mosi sent ((via w).exec (.bit port) c).2
  := by
  have hexec : (via w).exec (.bit port) c
      = ((Op.bit port).exec (fetched w c), { c.2 with reads := c.2.reads + 1 }) := rfl
  rw [hexec]
  refine ⟨⟨rfl, rfl, rfl, rfl, store_eqOn (Set.eqOn_refl _ _) rfl⟩, ?_, ?_⟩
  · rw [← h.pins_miso, ← fetched_mem_port]
    rfl
  · exact ⟨h.sclk_eq, h.mosi_eq, h.sclk_out, h.mosi_out, h.miso_in, h.sent_eq⟩

end Port

theorem SamePort.trans {cpu cpu' cpu'' : Cpu} (h : SamePort cpu cpu') (h' : SamePort cpu' cpu'') :
  SamePort cpu cpu''
  where
  a_eq := h'.a_eq.trans h.a_eq
  x_eq := h'.x_eq.trans h.x_eq
  y_eq := h'.y_eq.trans h.y_eq
  s_eq := h'.s_eq.trans h.s_eq
  mem_eq := h'.mem_eq.trans h.mem_eq

/-! ### Sending a byte -/

/-- The first `n` bits of a byte, from the high bit on. -/
def topBits : ℕ → Byte → List Bool
  | 0, _ => []
  | n + 1, b => b.msb :: topBits n (rotate b false)

/-- The bits of a byte, from the high bit on. -/
def byteBits (b : Byte) : List Bool :=
  (List.range 8).map fun j => b.getLsbD (7 - j)

theorem topBits_eight (b : Byte) : topBits 8 b = byteBits b := by
  revert b
  decide +kernel

/-- The addresses that the transfer of a byte changes. -/
def byteScratch : Set Word := {SPI_PORT, rc 5}

theorem stackAddr_ne_port (s : Byte) : Cpu.stackAddr s ≠ SPI_PORT := by
  rw [Cpu.stackAddr, SPI_PORT]
  bv_omega

section Bytes

variable {k : Link} {w : Wires} {c : Cpu × Via} {mosi : Bool} {sent : List Bool}

/-- The state `c'` after a bit `b` was sent in the state `c`. -/
structure Pulsed (b : Bool) (sent : List Bool) (c c' : Cpu × Via) : Prop where
  a_eq : c'.1.a = c.1.a
  x_eq : c'.1.x = c.1.x - 1
  y_eq : c'.1.y = c.1.y
  s_eq : c'.1.s = c.1.s
  mem_eq : Set.EqOn c'.1.mem c.1.mem {SPI_PORT}ᶜ
  driven : Driven false b (sent ++ [b]) c'.2

/-- A pulse of SCLK after MOSI was set by the instruction `o`. -/
theorem pulse_leads {o : Op} {b : Bool} {rest : List (Line Label)}
    {Q : List (Line Label) × Cpu × Via → Prop}
    (hset : SamePort c.1 ((via w).exec o c).1 ∧ Driven false b sent ((via w).exec o c).2)
    (hnext : c.1.x - 1 ≠ 0 → ∀ c', Pulsed b sent c c' →
      (via w).Leads k.code (goto k.code .spiSendBit, c') Q)
    (hlast : c.1.x - 1 = 0 → ∀ c', Pulsed b sent c c' → (via w).Leads k.code (rest, c') Q) :
  (via w).Leads k.code (.op o :: .op (.inc port) :: .op (.dec port) :: .op .dex
    :: .branch .ne .spiSendBit :: rest, c) Q
  := by
  obtain ⟨hsame, hdriven⟩ := hset
  apply Device.Leads.op
  obtain ⟨hsame₁, hdriven₁⟩ := exec_inc (w := w) hdriven
  apply Device.Leads.op
  obtain ⟨hsame₂, -, hdriven₂⟩ := exec_dec (w := w) hdriven₁
  apply Device.Leads.op
  have htotal := (hsame.trans hsame₁).trans hsame₂
  generalize (via w).exec (.dec port) _ = c₃ at *
  have hx : c₃.1.x - 1 = c.1.x - 1 := by rw [htotal.x_eq]
  have hpulsed : Pulsed b sent c (Op.dex.exec c₃.1, c₃.2) :=
    ⟨htotal.a_eq, hx, htotal.y_eq, htotal.s_eq, htotal.mem_eq, hdriven₂⟩
  apply Device.Leads.internal rfl
  by_cases hzero : c.1.x - 1 = 0
  · apply Device.Leads.noBranch
    · apply Cond.not_holds_ne (r := c₃.1.x - 1) rfl
      rw [hx, hzero]
    · apply hlast hzero _ hpulsed
  · apply Device.Leads.branch
    · apply Cond.holds_ne (r := c₃.1.x - 1) rfl
      rw [hx]
      exact hzero
    · apply hnext hzero _ hpulsed

/-- The state `c'` after the high bit of the byte `r` in `rc5` was sent in the state `c`. -/
structure BitSent (r : Byte) (sent : List Bool) (c c' : Cpu × Via) : Prop where
  a_eq : c'.1.a = c.1.a
  x_eq : c'.1.x = c.1.x - 1
  y_eq : c'.1.y = c.1.y
  s_eq : c'.1.s = c.1.s
  mem_eq : Set.EqOn c'.1.mem c.1.mem byteScratchᶜ
  rc5_eq : c'.1.mem (rc 5) = rotate r false
  driven : Driven false r.msb (sent ++ [r.msb]) c'.2

variable {r : Byte} {Q : List (Line Label) × Cpu × Via → Prop}

/-- A pulse sends the high bit of `rc5`. -/
theorem Pulsed.bitSent {c' : Cpu × Via} (hr : c.1.mem (rc 5) = r)
    (h : Pulsed r.msb sent ((Op.asl (reg 5)).exec c.1, c.2) c') :
  BitSent r sent c c'
  where
  a_eq := h.a_eq
  x_eq := h.x_eq
  y_eq := h.y_eq
  s_eq := h.s_eq
  mem_eq := by
    intro a ha
    have hport : a ∈ ({SPI_PORT} : Set Word)ᶜ := fun heq => ha (.inl heq)
    rw [h.mem_eq hport]
    apply Memory.store_of_ne (fun heq => ha (.inr heq))
  rc5_eq := by
    have hport : rc 5 ∈ ({SPI_PORT} : Set Word)ᶜ := by decide
    rw [h.mem_eq hport, ← hr]
    exact Memory.store_self (m := c.1.mem) (a := rc 5)
  driven := h.driven

/-- One round of the loop of `spi_send_byte`. -/
theorem sendBit_leads (ha : c.1.a = 2) (hdriven : Driven false mosi sent c.2)
    (hr : c.1.mem (rc 5) = r)
    (hnext : c.1.x - 1 ≠ 0 → ∀ c', BitSent r sent c c' →
      (via w).Leads k.code (goto k.code .spiSendBit, c') Q)
    (hlast : c.1.x - 1 = 0 → ∀ rest c', BitSent r sent c c' →
      (via w).Leads k.code (.op .plx :: .rts :: rest, c') Q) :
  (via w).Leads k.code (goto k.code .spiSendBit, c) Q
  := by
  have hc : ((Op.asl (reg 5)).exec c.1).c = r.msb := by
    rw [← hr]
    rfl
  apply Device.Leads.label
  apply Device.Leads.ram (a := rc 5) rfl rfl
  cases hmsb : r.msb with
  | false =>
      apply Device.Leads.branch
      · rw [Cond.holds, hc, hmsb, Bool.not_false]
      apply Device.Leads.label
      apply pulse_leads (c := ((Op.asl (reg 5)).exec c.1, c.2)) (exec_trb hdriven ha)
      · intro hne c' hpulsed
        rw [← hmsb] at hpulsed
        apply hnext hne c' (hpulsed.bitSent hr)
      · intro hzero c' hpulsed
        rw [← hmsb] at hpulsed
        apply hlast hzero _ c' (hpulsed.bitSent hr)
  | true =>
      apply Device.Leads.noBranch
      · rw [Cond.holds, hc, hmsb, Bool.not_true]
      apply pulse_leads (c := ((Op.asl (reg 5)).exec c.1, c.2)) (exec_tsb hdriven ha)
      · intro hne c' hpulsed
        rw [← hmsb] at hpulsed
        apply hnext hne c' (hpulsed.bitSent hr)
      · intro hzero c' hpulsed
        rw [← hmsb] at hpulsed
        apply hlast hzero _ c' (hpulsed.bitSent hr)

/-- The state `c'` after the bits `bits` were sent in the state `c`. -/
structure BitsSent (bits sent : List Bool) (c c' : Cpu × Via) : Prop where
  y_eq : c'.1.y = c.1.y
  s_eq : c'.1.s = c.1.s
  mem_eq : Set.EqOn c'.1.mem c.1.mem byteScratchᶜ
  driven : ∃ mosi, Driven false mosi (sent ++ bits) c'.2

/-- The loop of `spi_send_byte` sends the bits that are left. -/
theorem sendLoop_leads {n : ℕ} (hn : n < 8) (hx : c.1.x = BitVec.ofNat 8 (n + 1)) (ha : c.1.a = 2)
    (hdriven : Driven false mosi sent c.2) (hr : c.1.mem (rc 5) = r) :
  (via w).Leads k.code (goto k.code .spiSendBit, c) fun q =>
    (∃ rest, q.1 = .op .plx :: .rts :: rest) ∧ BitsSent (topBits (n + 1) r) sent c q.2
  := by
  induction n generalizing c r mosi sent with
  | zero =>
      apply sendBit_leads ha hdriven hr
      · intro hne
        exact absurd (by rw [hx]; decide) hne
      · intro _ rest c' h
        apply Device.Leads.refl
        exact ⟨⟨rest, rfl⟩, h.y_eq, h.s_eq, h.mem_eq, _, h.driven⟩
  | succ n ih =>
      apply sendBit_leads ha hdriven hr
      · intro _ c' h
        have hx' : c'.1.x = BitVec.ofNat 8 (n + 1) := by
          rw [h.x_eq, hx]
          bv_omega
        apply (ih (by omega) hx' (h.a_eq.trans ha) h.driven h.rc5_eq).trans
        rintro q ⟨hq, h'⟩
        apply Device.Leads.refl
        refine ⟨hq, h'.y_eq.trans h.y_eq, h'.s_eq.trans h.s_eq, h'.mem_eq.trans h.mem_eq, ?_⟩
        have hdriven' := h'.driven
        rw [List.append_assoc] at hdriven'
        exact hdriven'
      · intro hzero
        rw [hx] at hzero
        exfalso
        bv_omega

/-- The state `c'` after a byte was sent in the state `c`. -/
structure ByteSent (b : Byte) (sent : List Bool) (c c' : Cpu × Via) : Prop where
  x_eq : c'.1.x = c.1.x
  y_eq : c'.1.y = c.1.y
  s_eq : c'.1.s = c.1.s
  mem_eq : Set.EqOn c'.1.mem c.1.mem (insert (Cpu.stackAddr c.1.s) byteScratch)ᶜ
  driven : ∃ mosi, Driven false mosi (sent ++ byteBits b) c'.2

/-- The memory after `X` is pushed and `b` is stored in `rc5`. -/
def byteImage (cpu : Cpu) (b : Byte) : Memory :=
  (cpu.mem.store (Cpu.stackAddr cpu.s) cpu.x).store (rc 5) b

theorem byteImage_eqOn (cpu : Cpu) (b : Byte) :
  Set.EqOn (byteImage cpu b) cpu.mem (insert (Cpu.stackAddr cpu.s) byteScratch)ᶜ
  :=
  store_eqOn (store_eqOn (Set.eqOn_refl _ _) (.inl rfl)) (.inr (.inr rfl))

/-- `X` is still on the stack after the transfer of a byte. -/
theorem pushed_eq {cpu : Cpu} {b : Byte} {m : Memory}
    (h : Set.EqOn m (byteImage cpu b) byteScratchᶜ) :
  m (Cpu.stackAddr cpu.s) = cpu.x
  := by
  have hnotMem : Cpu.stackAddr cpu.s ∈ byteScratchᶜ := by
    rintro (heq | heq)
    · exact stackAddr_ne_port _ heq
    · exact stackAddr_ne_rc _ (by decide) heq
  rw [h hnotMem, byteImage, Memory.store_of_ne (stackAddr_ne_rc _ (by decide)), Memory.store_self]

/-- `spi_send_byte` sends the bits of the byte in `A`, and preserves `X` and `Y`. -/
theorem spiSendByte_leads (hdriven : Driven false mosi sent c.2) :
  (via w).Leads k.code (goto k.code .spiSendByte, c) fun q =>
    q.1.head? = some .rts ∧ ByteSent c.1.a sent c q.2
  := by
  apply Device.Leads.label
  apply Device.Leads.internal rfl
  apply Device.Leads.ram (a := rc 5) rfl rfl
  apply Device.Leads.internal rfl
  apply Device.Leads.internal rfl
  have hrc5 : byteImage c.1 c.1.a (rc 5) = c.1.a := Memory.store_self
  apply (sendLoop_leads (c := (run [.phx, .sta (reg 5), .lda (.imm 2), .ldx (.imm 8)] c.1, c.2))
    (n := 7) (by decide) rfl rfl hdriven hrc5).trans
  rintro ⟨_, c'⟩ ⟨⟨rest, rfl⟩, hy, hs, hmem, hdriven'⟩
  dsimp only at hy hs hmem hdriven'
  have hs' : c'.1.s + 1 = c.1.s := by
    rw [hs]
    apply BitVec.sub_add_cancel
  have htop : c'.1.top = c.1.x := by
    rw [Cpu.top, hs']
    exact pushed_eq hmem
  apply Device.Leads.internal rfl
  apply Device.Leads.refl
  rw [topBits_eight] at hdriven'
  refine ⟨rfl, htop, hy, hs', ?_, hdriven'⟩
  apply Set.EqOn.trans (Set.EqOn.mono _ hmem) (byteImage_eqOn c.1 c.1.a)
  apply Set.compl_subset_compl.mpr
  apply Set.subset_insert

/-! ### Receiving a byte -/

/-- The levels of MISO in `n` pulses from the pulse `i` on. -/
def misoBits (w : Wires) (i n : ℕ) : List Bool :=
  (List.range n).map fun j => w.miso (i + j)

theorem misoBits_succ (w : Wires) (i n : ℕ) :
  misoBits w i (n + 1) = w.miso i :: misoBits w (i + 1) n
  := by
  rw [misoBits, List.range_succ_eq_map, List.map_cons, List.map_map]
  congr 1
  apply List.map_congr_left
  intro j _
  apply congrArg w.miso
  omega

/-- The byte that is received from the pulse `i` on. -/
def misoByte (w : Wires) (i : ℕ) : Byte :=
  (misoBits w i 8).foldl rotate 0

/-- The bits of a byte that is shifted in. -/
theorem getLsbD_foldl_rotate (b₀ b₁ b₂ b₃ b₄ b₅ b₆ b₇ : Bool) :
  (List.range 8).map (fun j => ([b₀, b₁, b₂, b₃, b₄, b₅, b₆, b₇].foldl rotate 0).getLsbD (7 - j))
    = [b₀, b₁, b₂, b₃, b₄, b₅, b₆, b₇]
  := by
  revert b₀ b₁ b₂ b₃ b₄ b₅ b₆ b₇
  decide +kernel

/-- The bits of the byte are the levels of MISO, the first one in the high bit. -/
theorem byteBits_misoByte (w : Wires) (i : ℕ) : byteBits (misoByte w i) = misoBits w i 8 := by
  apply getLsbD_foldl_rotate

theorem rotate_add_one (r : Byte) : rotate r false + 1 = rotate r true := by
  revert r
  decide +kernel

/-- The state `c'` after a bit was received in the state `c`, with the byte `r` in `rc5`. -/
structure BitReceived (w : Wires) (r : Byte) (sent : List Bool) (c c' : Cpu × Via) : Prop where
  x_eq : c'.1.x = c.1.x - 1
  y_eq : c'.1.y = c.1.y
  s_eq : c'.1.s = c.1.s
  mem_eq : Set.EqOn c'.1.mem c.1.mem byteScratchᶜ
  rc5_eq : c'.1.mem (rc 5) = rotate r (w.miso sent.length)
  driven : Driven false true (sent ++ [true]) c'.2

section

variable (hnext : c.1.x - 1 ≠ 0 → ∀ c', BitReceived w r sent c c' →
    (via w).Leads k.code (goto k.code .spiReceiveBit, c') Q)
  (hlast : c.1.x - 1 = 0 → ∀ rest c', BitReceived w r sent c c' →
    (via w).Leads k.code (.op .cli :: .op .plx :: .op (.lda (reg 5)) :: .rts :: rest, c') Q)

include hnext hlast

/-- The end of a round of the loop of `spi_receive_byte`, after the bit was added to `rc5`. -/
theorem receiveEnd_leads {e : Cpu × Via} (hx : e.1.x = c.1.x) (hy : e.1.y = c.1.y)
    (hs : e.1.s = c.1.s) (hmem : Set.EqOn e.1.mem c.1.mem byteScratchᶜ)
    (hrc5 : e.1.mem (rc 5) = rotate r (w.miso sent.length))
    (hdriven : Driven false true (sent ++ [true]) e.2) :
  (via w).Leads k.code (goto k.code .spiReceiveBit0, e) Q
  := by
  have hx' : e.1.x - 1 = c.1.x - 1 := by rw [hx]
  have hreceived : BitReceived w r sent c (Op.dex.exec e.1, e.2) :=
    ⟨hx', hy, hs, hmem, hrc5, hdriven⟩
  apply Device.Leads.label
  apply Device.Leads.internal rfl
  by_cases hzero : c.1.x - 1 = 0
  · apply Device.Leads.noBranch (Cond.not_holds_ne rfl (hx'.trans hzero))
    apply hlast hzero _ _ hreceived
  · apply Device.Leads.branch (Cond.holds_ne rfl (hx'.trans_ne hzero))
    apply hnext hzero _ hreceived

/-- One round of the loop of `spi_receive_byte`. -/
theorem receiveBit_leads (hdriven : Driven false true sent c.2) (hr : c.1.mem (rc 5) = r) :
  (via w).Leads k.code (goto k.code .spiReceiveBit, c) Q
  := by
  apply Device.Leads.label
  apply Device.Leads.ram (a := rc 5) rfl rfl
  obtain ⟨hsame₁, hdriven₁⟩ := exec_inc (w := w) (c := ((Op.asl (reg 5)).exec c.1, c.2)) hdriven
  apply Device.Leads.op
  obtain ⟨hsame₂, hv₂, hdriven₂⟩ := exec_bit (w := w) hdriven₁
  apply Device.Leads.op
  obtain ⟨hsame₃, hv₃, hdriven₃⟩ := exec_dec (w := w) hdriven₂
  apply Device.Leads.op
  have hsame := (hsame₁.trans hsame₂).trans hsame₃
  have hv := hv₃.trans hv₂
  generalize (via w).exec (.dec port) _ = c₃ at *
  rw [List.length_append, List.length_singleton, Nat.add_sub_cancel] at hv
  have hrc5 : c₃.1.mem (rc 5) = rotate r false := by
    have hport : rc 5 ∈ ({SPI_PORT} : Set Word)ᶜ := by decide
    rw [hsame.mem_eq hport, ← hr]
    exact Memory.store_self (m := c.1.mem) (a := rc 5)
  have hmem : Set.EqOn c₃.1.mem c.1.mem byteScratchᶜ := by
    intro a ha
    have hport : a ∈ ({SPI_PORT} : Set Word)ᶜ := fun heq => ha (.inl heq)
    rw [hsame.mem_eq hport]
    apply Memory.store_of_ne (fun heq => ha (.inr heq))
  cases hmiso : w.miso sent.length with
  | false =>
      apply Device.Leads.branch
      · rw [Cond.holds, hv, hmiso, Bool.not_false]
      apply receiveEnd_leads hnext hlast hsame.x_eq hsame.y_eq hsame.s_eq hmem _ hdriven₃
      rw [hmiso, hrc5]
  | true =>
      apply Device.Leads.noBranch
      · rw [Cond.holds, hv, hmiso, Bool.not_true]
      apply Device.Leads.ram (a := rc 5) rfl rfl
      apply receiveEnd_leads (e := ((Op.inc (reg 5)).exec c₃.1, c₃.2)) hnext hlast hsame.x_eq
        hsame.y_eq hsame.s_eq (store_eqOn hmem (.inr rfl)) _ hdriven₃
      rw [hmiso, ← rotate_add_one, ← hrc5]
      exact Memory.store_self (m := c₃.1.mem) (a := rc 5)

end

/-- The state `c'` after `n` bits were received in the state `c`, with the byte `r` in `rc5`. -/
structure BitsReceived (w : Wires) (n : ℕ) (r : Byte) (sent : List Bool) (c c' : Cpu × Via) : Prop
    where
  y_eq : c'.1.y = c.1.y
  s_eq : c'.1.s = c.1.s
  mem_eq : Set.EqOn c'.1.mem c.1.mem byteScratchᶜ
  rc5_eq : c'.1.mem (rc 5) = (misoBits w sent.length n).foldl rotate r
  driven : Driven false true (sent ++ List.replicate n true) c'.2

/-- The loop of `spi_receive_byte` receives the bits that are left. -/
theorem receiveLoop_leads {n : ℕ} (hn : n < 8) (hx : c.1.x = BitVec.ofNat 8 (n + 1))
    (hdriven : Driven false true sent c.2) (hr : c.1.mem (rc 5) = r) :
  (via w).Leads k.code (goto k.code .spiReceiveBit, c) fun q =>
    (∃ rest, q.1 = .op .cli :: .op .plx :: .op (.lda (reg 5)) :: .rts :: rest)
      ∧ BitsReceived w (n + 1) r sent c q.2
  := by
  induction n generalizing c r sent with
  | zero =>
      apply receiveBit_leads _ _ hdriven hr
      · intro hne
        exact absurd (by rw [hx]; decide) hne
      · intro _ rest c' h
        apply Device.Leads.refl
        exact ⟨⟨rest, rfl⟩, h.y_eq, h.s_eq, h.mem_eq, h.rc5_eq, h.driven⟩
  | succ n ih =>
      apply receiveBit_leads _ _ hdriven hr
      · intro _ c' h
        have hx' : c'.1.x = BitVec.ofNat 8 (n + 1) := by
          rw [h.x_eq, hx]
          bv_omega
        apply (ih (by omega) hx' h.driven h.rc5_eq).trans
        rintro q ⟨hq, h'⟩
        apply Device.Leads.refl
        refine ⟨hq, h'.y_eq.trans h.y_eq, h'.s_eq.trans h.s_eq, h'.mem_eq.trans h.mem_eq, ?_, ?_⟩
        · rw [h'.rc5_eq, misoBits_succ w sent.length, List.foldl_cons, List.length_append,
            List.length_singleton]
        · have hdriven' := h'.driven
          rw [List.append_assoc, List.singleton_append, ← List.replicate_succ] at hdriven'
          exact hdriven'
      · intro hzero
        rw [hx] at hzero
        exfalso
        bv_omega

/-- The state `c'` after a byte was received in the state `c`. -/
structure ByteReceived (w : Wires) (sent : List Bool) (c c' : Cpu × Via) : Prop where
  a_eq : c'.1.a = misoByte w sent.length
  x_eq : c'.1.x = c.1.x
  y_eq : c'.1.y = c.1.y
  s_eq : c'.1.s = c.1.s
  mem_eq : Set.EqOn c'.1.mem c.1.mem (insert (Cpu.stackAddr c.1.s) byteScratch)ᶜ
  driven : Driven false true (sent ++ List.replicate 8 true) c'.2

/-- `spi_receive_byte` after MOSI was raised. -/
theorem receiveTail_leads {c₁ : Cpu × Via} (hy₁ : c₁.1.y = c.1.y) (hs₁ : c₁.1.s = c.1.s - 1)
    (hmem₁ : Set.EqOn c₁.1.mem (byteImage c.1 0) {SPI_PORT}ᶜ) (hdriven : Driven false true sent c₁.2) :
  (via w).Leads k.code (.op (.ldx (.imm 8)) :: .op .sei :: goto k.code .spiReceiveBit, c₁) fun q =>
    q.1.head? = some .rts ∧ ByteReceived w sent c q.2
  := by
  have hrc5 : c₁.1.mem (rc 5) = 0 := by
    have hport : rc 5 ∈ ({SPI_PORT} : Set Word)ᶜ := by decide
    rw [hmem₁ hport]
    exact Memory.store_self
  apply Device.Leads.internal rfl
  apply Device.Leads.internal rfl
  apply (receiveLoop_leads (c := (run [.ldx (.imm 8), .sei] c₁.1, c₁.2)) (n := 7) (by decide) rfl
    hdriven hrc5).trans
  rintro ⟨_, c'⟩ ⟨⟨rest, rfl⟩, hy, hs, hmem, hrc5', hdriven'⟩
  dsimp only at hy hs hmem hrc5' hdriven'
  have hmem' : Set.EqOn c'.1.mem (byteImage c.1 0) byteScratchᶜ := by
    apply hmem.trans
    apply hmem₁.mono
    apply Set.compl_subset_compl.mpr
    exact Set.singleton_subset_iff.mpr (.inl rfl)
  have hs' : c'.1.s + 1 = c.1.s := by
    apply (congrArg (· + 1) (hs.trans hs₁)).trans
    apply BitVec.sub_add_cancel
  have htop : c'.1.top = c.1.x := by
    rw [Cpu.top, hs']
    exact pushed_eq hmem'
  apply Device.Leads.internal rfl
  apply Device.Leads.internal rfl
  apply Device.Leads.ram (a := rc 5) rfl rfl
  apply Device.Leads.refl
  refine ⟨rfl, hrc5', htop, hy.trans hy₁, hs', ?_, hdriven'⟩
  apply Set.EqOn.trans (Set.EqOn.mono _ hmem') (byteImage_eqOn c.1 0)
  apply Set.compl_subset_compl.mpr
  apply Set.subset_insert

/-- `spi_receive_byte` returns the byte with the levels of MISO in the next eight pulses, and preserves
`X` and `Y`. -/
theorem spiReceiveByte_leads (hdriven : Driven false mosi sent c.2) :
  (via w).Leads k.code (goto k.code .spiReceiveByte, c) fun q =>
    q.1.head? = some .rts ∧ ByteReceived w sent c q.2
  := by
  apply Device.Leads.label
  apply Device.Leads.internal rfl
  apply Device.Leads.ram (a := rc 5) rfl rfl
  apply Device.Leads.internal rfl
  obtain ⟨hsame, hdriven₁⟩ := exec_tsb (w := w)
    (c := (run [.phx, .stz (reg 5), .lda (.imm 2)] c.1, c.2)) hdriven rfl
  apply Device.Leads.op
  exact receiveTail_leads hsame.y_eq hsame.s_eq hsame.mem_eq hdriven₁

end Bytes

end Mosnix.Spi
