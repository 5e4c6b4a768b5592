import Mosnix.Lib.System
import Mosnix.Target.Serial

/-!
# Flow control of the serial port

The interrupts and the calls that receive characters are the steps of a system, in any order.  If the
sender delivers at most 15 bytes after it is stopped, then in every run the characters that were
returned and those that are in the ring are the bytes that arrived, in this order
(`fifo_of_reachable`).
-/

namespace Mosnix.Serial

open Mos6502

/-! ### Interrupts and calls -/

/-- The memory, the bytes that have arrived, the characters that calls have returned, and the number of
bytes that have arrived since the sender was stopped. -/
structure Port where
  mem : Memory
  received : List Byte
  returned : List Word
  further : ℕ

/-- What can happen. -/
inductive Event where
  | interrupt (status data : Byte)
  | chrin
  | chrinNoWait
  | other

/-- A byte as the character that a call returns. -/
def toInt (b : Byte) : Word :=
  b.setWidth 16

/-- The `int` that a call returns. -/
def result (cpu : Cpu) : Word :=
  cpu.x ++ cpu.a

namespace Port

/-- The state after an interrupt. -/
def interrupted (s : Port) (status data : Byte) (m : Memory) : Port :=
  if Link.Arrived status then
    { mem := m
      received := s.received ++ [data]
      returned := s.returned
      further := if s.mem ACIA_CMD = 0x09 then 0 else s.further + 1 }
  else { s with mem := m }

/-- The state after a call. -/
def called (s : Port) (cpu : Cpu) : Port :=
  { s with
    mem := cpu.mem
    returned := if result cpu = -1 then s.returned else s.returned ++ [result cpu] }

end Port

namespace Link

/-- The interrupts and the calls, and the steps of other code, which does not change the ring or the
command register. -/
def system (k : Link) : System Port Event where
  start s :=
    s.mem k.serialRxIn = s.mem k.serialRxOut ∧ s.mem ACIA_CMD = 0x09 ∧ s.received = []
      ∧ s.returned = [] ∧ s.further = 0
  step s e s' :=
    match e with
    | .interrupt status data => ∃ cpu cpu' : Cpu,
        cpu.mem = (s.mem.store ACIA_STATUS status).store ACIA_DATA data
          ∧ Returns k.code .serialIsr cpu cpu' ∧ s' = s.interrupted status data cpu'.mem
    | .chrin => ∃ cpu cpu' : Cpu, cpu.mem = s.mem ∧ Returns k.code .chrin cpu cpu' ∧ s' = s.called cpu'
    | .chrinNoWait => ∃ cpu cpu' : Cpu,
        cpu.mem = s.mem ∧ Returns k.code .chrinNoWait cpu cpu' ∧ s' = s.called cpu'
    | .other => ∃ m : Memory,
        m k.serialRxIn = s.mem k.serialRxIn ∧ m k.serialRxOut = s.mem k.serialRxOut
          ∧ (∀ x, m (k.slot x) = s.mem (k.slot x)) ∧ m ACIA_CMD = s.mem ACIA_CMD
          ∧ s' = { s with mem := m }

/-- At most 15 bytes arrive after the sender is stopped, and `__chrin` is called when there is a
character. -/
def Allowed (k : Link) (s : Port) : Event → Prop
  | .interrupt status _ => Arrived status → s.mem ACIA_CMD = 0x09 ∨ s.further < 15
  | .chrin => s.mem k.serialRxIn ≠ s.mem k.serialRxOut
  | _ => True

/-- The command that the sender was given, with `len` bytes in the ring: it is stopped before the
ring is full, and has sent `further` bytes since. -/
def Paced (cmd : Byte) (len further : ℕ) : Prop :=
  cmd = 0x09 ∧ len ≤ 239 ∨ cmd = 0x01 ∧ len ≤ 240 + further ∧ further ≤ 15

/-- The characters that were returned and those in the ring are the bytes that have arrived, and the
sender is stopped before the ring is full. -/
structure Inv (k : Link) (s : Port) : Prop where
  received_eq : s.received.map toInt = s.returned ++ (k.ring s.mem).map toInt
  cmd : Paced (s.mem ACIA_CMD) (k.ring s.mem).length s.further

variable {k : Link} {s s' : Port} {cpu cpu' : Cpu} {m : Memory}

namespace Paced

variable {cmd : Byte} {len further : ℕ}

/-- There is room in the ring for a byte that may arrive. -/
theorem room (h : Paced cmd len further) (hok : cmd = 0x09 ∨ further < 15) : len < 255 := by
  obtain ⟨-, hle⟩ | ⟨rfl, hle, -⟩ := h
  · omega
  · obtain hcmd | hlt := hok
    · exact absurd hcmd (by decide)
    · omega

/-- A byte that arrives stops the sender at the high water mark. -/
theorem arrived (h : Paced cmd len further) (hok : cmd = 0x09 ∨ further < 15) :
  Paced (if len + 1 < 240 then cmd else 0x01) (len + 1) (if cmd = 0x09 then 0 else further + 1)
  := by
  obtain ⟨rfl, hle⟩ | ⟨rfl, hle, hfurther⟩ := h
  · rw [if_pos rfl]
    split_ifs with hhigh
    · exact .inl ⟨rfl, by omega⟩
    · exact .inr ⟨rfl, by omega, by omega⟩
  · have hne : (0x01 : Byte) ≠ 0x09 := by decide
    have hlt : further < 15 := hok.resolve_left hne
    rw [ite_self, if_neg hne]
    exact .inr ⟨rfl, by omega, by omega⟩

/-- The ring may have fewer bytes. -/
theorem of_le {len' : ℕ} (h : Paced cmd len further) (hle : len' ≤ len) : Paced cmd len' further := by
  obtain ⟨hcmd, hlen⟩ | ⟨hcmd, hlen, hfurther⟩ := h
  · exact .inl ⟨hcmd, hle.trans hlen⟩
  · exact .inr ⟨hcmd, hle.trans hlen, hfurther⟩

end Paced

/-- A change that leaves the ring and the command register alone. -/
theorem Inv.of_ring_eq (h : k.Inv s) (hring : k.ring m = k.ring s.mem)
    (hcmd : m ACIA_CMD = s.mem ACIA_CMD) :
  k.Inv { s with mem := m }
  := by
  constructor
  · dsimp only
    rw [hring]
    exact h.received_eq
  · dsimp only
    rw [hring, hcmd]
    exact h.cmd

/-- A byte that arrives is put into the ring, and stops the sender at the high water mark. -/
theorem Inv.arrived {status data : Byte} (h : k.Inv s)
    (hok : s.mem ACIA_CMD = 0x09 ∨ s.further < 15) (harrived : Arrived status)
    (hring : k.ring m = k.ring s.mem ++ [data])
    (hcmd : m ACIA_CMD = if (k.ring s.mem).length + 1 < 240 then s.mem ACIA_CMD else 0x01) :
  k.Inv (s.interrupted status data m)
  := by
  have hlength : (k.ring m).length = (k.ring s.mem).length + 1 := by
    rw [hring, List.length_append, List.length_singleton]
  rw [Port.interrupted, if_pos harrived]
  constructor
  · dsimp only
    rw [hring, List.map_append, List.map_append, ← List.append_assoc, ← h.received_eq]
  · dsimp only
    rw [hcmd, hlength]
    exact h.cmd.arrived hok

/-- An interrupt keeps the invariant. -/
theorem Inv.interrupted {status data : Byte} (h : k.Inv s)
    (hok : k.Allowed s (.interrupt status data))
    (hmem : cpu.mem = (s.mem.store ACIA_STATUS status).store ACIA_DATA data)
    (hreturns : Returns k.code .serialIsr cpu cpu') :
  k.Inv (s.interrupted status data cpu'.mem)
  := by
  have hmem' := hreturns.spec (k.serialIsr_leads cpu)
  have hstatus : cpu.mem ACIA_STATUS = status := by
    rw [hmem, Memory.store_of_ne (by decide), Memory.store_self]
  have hdata : cpu.mem ACIA_DATA = data := by
    rw [hmem, Memory.store_self]
  have hring : k.ring cpu.mem = k.ring s.mem := by
    rw [hmem, (k.store_acia (by simp) data).2.2, (k.store_acia (by simp) status).2.2]
  have hcmd : cpu.mem ACIA_CMD = s.mem ACIA_CMD := by
    rw [hmem, Memory.store_of_ne (by decide), Memory.store_of_ne (by decide)]
  rw [hstatus, hdata] at hmem'
  by_cases harrived : Arrived status
  · have hroom := h.cmd.room (hok harrived)
    rw [← hring] at hroom
    obtain ⟨hput, hcmd'⟩ := k.afterIsr_spec (b := data) hroom
    rw [if_pos harrived] at hmem'
    rw [← hmem', hring] at hput hcmd'
    rw [hcmd] at hcmd'
    apply h.arrived (hok harrived) harrived hput hcmd'
  · rw [if_neg harrived] at hmem'
    rw [Port.interrupted, if_neg harrived, hmem']
    apply h.of_ring_eq hring hcmd

/-- A call that takes a character returns it. -/
theorem result_eq {b : Byte} (ha : cpu.a = b) (hx : cpu.x = 0) : result cpu = toInt b := by
  rw [result, ha, hx, toInt]
  apply BitVec.eq_of_toNat_eq
  rw [append_toNat, BitVec.toNat_setWidth]
  bv_omega

theorem toInt_ne (b : Byte) : toInt b ≠ -1 := by
  rw [toInt]
  bv_omega

/-- A call that takes a character keeps the invariant. -/
theorem Inv.called (h : k.Inv s) (hne : s.mem k.serialRxIn ≠ s.mem k.serialRxOut)
    (hcpu : cpu.a = s.mem (k.slot (s.mem k.serialRxOut)) ∧ cpu.x = 0 ∧ cpu.mem = k.afterTake s.mem) :
  k.Inv (s.called cpu)
  := by
  obtain ⟨ha, hx, hmem⟩ := hcpu
  obtain ⟨htake, hcmd⟩ := k.afterTake_spec hne
  rw [← hmem] at htake hcmd
  have hlength : (k.ring s.mem).length - 1 = (k.ring cpu.mem).length := by
    rw [htake, List.length_cons, Nat.add_sub_cancel]
  rw [hlength] at hcmd
  rw [Port.called, result_eq ha hx, if_neg (toInt_ne _)]
  constructor
  · dsimp only
    rw [h.received_eq, htake, List.map_cons, List.append_assoc, List.singleton_append]
  · dsimp only
    rw [hcmd]
    split_ifs with hlow
    · exact .inl ⟨rfl, by omega⟩
    · exact h.cmd.of_le (by omega)

/-- A call that returns -1 keeps the invariant. -/
theorem Inv.called_empty (h : k.Inv s) (hcpu : cpu.a = 0xFF ∧ cpu.x = 0xFF ∧ cpu.mem = s.mem) :
  k.Inv (s.called cpu)
  := by
  obtain ⟨ha, hx, hmem⟩ := hcpu
  have hresult : result cpu = -1 := by
    rw [result, ha, hx]
    decide
  rw [Port.called, if_pos hresult, hmem]
  exact ⟨h.received_eq, h.cmd⟩

/-- The calls of `__chrin_no_wait`: the character, or -1. -/
theorem chrinNoWait_spec (hreturns : Returns k.code .chrinNoWait cpu cpu') :
  cpu.mem k.serialRxIn ≠ cpu.mem k.serialRxOut
      ∧ cpu'.a = cpu.mem (k.slot (cpu.mem k.serialRxOut)) ∧ cpu'.x = 0
      ∧ cpu'.mem = k.afterTake cpu.mem
    ∨ cpu.mem k.serialRxIn = cpu.mem k.serialRxOut
      ∧ cpu'.a = 0xFF ∧ cpu'.x = 0xFF ∧ cpu'.mem = cpu.mem
  := by
  by_cases h : cpu.mem k.serialRxIn = cpu.mem k.serialRxOut
  · exact .inr ⟨h, hreturns.spec (chrinNoWait_leads_empty h)⟩
  · exact .inl ⟨h, hreturns.spec (chrinNoWait_leads h)⟩

/-- Every allowed step keeps the invariant. -/
theorem Inv.step {e : Event} (h : k.Inv s) (hok : k.Allowed s e) (hstep : k.system.step s e s') :
  k.Inv s'
  := by
  cases e with
  | interrupt status data =>
      obtain ⟨cpu, cpu', hmem, hreturns, rfl⟩ := hstep
      apply h.interrupted hok hmem hreturns
  | chrin =>
      obtain ⟨cpu, cpu', hmem, hreturns, rfl⟩ := hstep
      have hcpu := hreturns.spec (chrin_leads (by rw [hmem]; exact hok))
      rw [hmem] at hcpu
      apply h.called hok hcpu
  | chrinNoWait =>
      obtain ⟨cpu, cpu', hmem, hreturns, rfl⟩ := hstep
      obtain ⟨hne, hcpu⟩ | ⟨-, hcpu⟩ := chrinNoWait_spec hreturns
      · rw [hmem] at hne hcpu
        apply h.called hne hcpu
      · rw [hmem] at hcpu
        apply h.called_empty hcpu
  | other =>
      obtain ⟨m, hin, hout, hslot, hcmd, rfl⟩ := hstep
      apply h.of_ring_eq _ hcmd
      rw [ring, ring, hin, hout, funext hslot]

/-- The invariant holds in every reachable state. -/
theorem Inv.of_reachable (h : k.system.Reachable k.Allowed s) : k.Inv s := by
  apply h.invariant
  · rintro s ⟨hempty, hcmd, hreceived, hreturned, -⟩
    have hring := ring_eq_nil hempty
    constructor
    · rw [hreceived, hreturned, hring]
      rfl
    · rw [hring]
      exact .inl ⟨hcmd, by decide⟩
  · intro s e s' hinv hok hstep
    apply hinv.step hok hstep

/-! ### Every run -/

/-- A call that takes a character from the ring, or returns -1. -/
def IsRead (l : Label) : Prop :=
  l = .chrin ∨ l = .chrinNoWait

/-- What the routines do in a state that a run has come to. -/
structure Fifo (k : Link) (s : Port) : Prop where
  /-- The characters that were returned are the first bytes that have arrived. -/
  returned_first : s.returned <+: s.received.map toInt
  /-- The other bytes that have arrived are in the ring. -/
  received_eq : s.received.map toInt = s.returned ++ (k.ring s.mem).map toInt
  /-- These are at most 255 bytes. -/
  length_le : s.received.length ≤ s.returned.length + 255
  /-- An interrupt is handled. -/
  interrupt : ∀ cpu, ∃ cpu', Returns k.code .serialIsr cpu cpu'
  /-- A call of `__chrin` returns if there is a character. -/
  chrin : ∀ cpu : Cpu, cpu.mem = s.mem → s.returned.length < s.received.length →
    ∃ cpu', Returns k.code .chrin cpu cpu' ∧ result cpu' ≠ -1
  /-- A call of `__chrin_no_wait` returns. -/
  chrinNoWait : ∀ cpu : Cpu, cpu.mem = s.mem → ∃ cpu', Returns k.code .chrinNoWait cpu cpu'
  /-- It returns -1 if and only if there is no character. -/
  noWait_eq : ∀ cpu cpu' : Cpu, cpu.mem = s.mem → Returns k.code .chrinNoWait cpu cpu' →
    (result cpu' = -1 ↔ s.received.length = s.returned.length)
  /-- A call that leaves less than `RX_LOW` characters starts the sender again. -/
  resumes : ∀ cpu cpu' l, cpu.mem = s.mem → IsRead l → s.returned.length < s.received.length →
    Returns k.code l cpu cpu' → s.received.length - (s.returned.length + 1) < RX_LOW.toNat →
    cpu'.mem ACIA_CMD = 0x09

/-- No character is lost. -/
theorem Inv.length_eq (h : k.Inv s) :
  s.received.length = s.returned.length + (k.ring s.mem).length
  := by
  have hlength := congrArg List.length h.received_eq
  rw [List.length_append, List.length_map, List.length_map] at hlength
  exact hlength

/-- There is a character if and only if the indices differ. -/
theorem Inv.available_iff (h : k.Inv s) :
  s.returned.length < s.received.length ↔ s.mem k.serialRxIn ≠ s.mem k.serialRxOut
  := by
  have hlength := h.length_eq
  constructor
  · intro hlt heq
    rw [ring_eq_nil heq, List.length_nil] at hlength
    omega
  · intro hne
    rw [ring_take hne, List.length_cons] at hlength
    omega

/-- `__chrin_no_wait` returns -1 if and only if there is no character. -/
theorem Inv.noWait_iff (h : k.Inv s) {cpu cpu' : Cpu} (hmem : cpu.mem = s.mem)
    (hreturns : Returns k.code .chrinNoWait cpu cpu') :
  result cpu' = -1 ↔ s.received.length = s.returned.length
  := by
  obtain ⟨hne, ha, hx, -⟩ | ⟨heq, ha, hx, -⟩ := chrinNoWait_spec hreturns
  · rw [hmem] at hne
    have hlt := h.available_iff.mpr hne
    rw [result_eq ha hx]
    constructor
    · intro hresult
      exact absurd hresult (toInt_ne _)
    · omega
  · have hlength := h.length_eq
    rw [hmem] at heq
    rw [ring_eq_nil heq, List.length_nil] at hlength
    rw [result, ha, hx]
    exact ⟨fun _ => hlength, fun _ => by decide⟩

/-- A call that leaves less than `RX_LOW` characters starts the sender again. -/
theorem Inv.resumes (h : k.Inv s) {cpu cpu' : Cpu} {l : Label} (hmem : cpu.mem = s.mem)
    (hread : IsRead l) (hlt : s.returned.length < s.received.length)
    (hreturns : Returns k.code l cpu cpu')
    (hlow : s.received.length - (s.returned.length + 1) < RX_LOW.toNat) :
  cpu'.mem ACIA_CMD = 0x09
  := by
  have hne := h.available_iff.mp hlt
  have hcmd := (afterTake_spec hne).2
  rw [← hmem] at hne
  have hafter : cpu'.mem = k.afterTake s.mem := by
    rw [← hmem]
    obtain rfl | rfl := hread
    · exact (hreturns.spec (chrin_leads hne)).2.2
    · exact (hreturns.spec (chrinNoWait_leads hne)).2.2
  have hlow' : (k.ring s.mem).length - 1 < 224 := by
    have hlength := h.length_eq
    have hmark : RX_LOW.toNat = 224 := rfl
    omega
  rw [hafter, hcmd, if_pos hlow']

/-- In every run in which at most 15 bytes arrive after the sender is stopped, no byte is lost,
duplicated or overwritten. -/
theorem fifo_of_reachable (h : k.system.Reachable k.Allowed s) : k.Fifo s := by
  have hinv := Inv.of_reachable h
  constructor
  case returned_first => exact ⟨_, hinv.received_eq.symm⟩
  case received_eq => exact hinv.received_eq
  case length_le =>
    have hlength := hinv.length_eq
    have hring := (k.count s.mem).isLt
    rw [← length_ring] at hring
    omega
  case interrupt =>
    intro cpu
    obtain ⟨cpu', hreturns, -⟩ := (k.serialIsr_leads cpu).returns
    exact ⟨cpu', hreturns⟩
  case chrin =>
    intro cpu hmem hlt
    rw [hinv.available_iff, ← hmem] at hlt
    obtain ⟨cpu', hreturns, ha, hx, -⟩ := (chrin_leads hlt).returns
    refine ⟨cpu', hreturns, ?_⟩
    rw [result_eq ha hx]
    apply toInt_ne
  case chrinNoWait =>
    intro cpu hmem
    by_cases heq : cpu.mem k.serialRxIn = cpu.mem k.serialRxOut
    · obtain ⟨cpu', hreturns, -⟩ := (chrinNoWait_leads_empty heq).returns
      exact ⟨cpu', hreturns⟩
    · obtain ⟨cpu', hreturns, -⟩ := (chrinNoWait_leads heq).returns
      exact ⟨cpu', hreturns⟩
  case noWait_eq =>
    intro cpu cpu' hmem hreturns
    apply hinv.noWait_iff hmem hreturns
  case resumes =>
    intro cpu cpu' l hmem hread hlt hreturns hlow
    apply hinv.resumes hmem hread hlt hreturns hlow

end Link

/-! ### A byte that arrives and is read -/

/-- Addresses of the variables. -/
def link0200 : Link where
  serialRxIn := 0x0200
  serialRxOut := 0x0201
  serialRxBuffer := 0x0300
  rxIn_ne_rxOut := by decide
  buffer_ne := by
    intro x
    simp only [List.mem_cons, List.not_mem_nil, or_false, not_or]
    bv_omega
  acia := by
    intro a ha
    simp only [List.mem_cons, List.not_mem_nil, or_false, ACIA_DATA, ACIA_STATUS, ACIA_CMD] at ha
    obtain rfl | rfl | rfl := ha
    all_goals
      refine ⟨by decide, fun x => ?_⟩
      bv_omega

/-- The port with an empty ring and with the sender enabled. -/
def portEmpty : Port where
  mem := fun a => if a = ACIA_CMD then 0x09 else 0
  received := []
  returned := []
  further := 0

/-- The byte `0x41` arrives, and is read by `__chrin`. -/
theorem fifo_of_reachable_0x41 :
  ∃ s, link0200.system.Reachable link0200.Allowed s ∧ s.received = [0x41] ∧ s.returned = [0x41]
    ∧ link0200.Fifo s
  := by
  have hstart : link0200.system.Reachable link0200.Allowed portEmpty :=
    .start ⟨by decide, by decide, rfl, rfl, rfl⟩
  have hok : link0200.Allowed portEmpty (.interrupt 0x88 0x41) := fun _ => .inl (by decide)
  obtain ⟨cpu₁, hisr, -⟩ := (link0200.serialIsr_leads
    (.ofMemory ((portEmpty.mem.store ACIA_STATUS 0x88).store ACIA_DATA 0x41))).returns
  have hreach₁ := hstart.step hok ⟨_, cpu₁, rfl, hisr, rfl⟩
  have hinv₁ := Link.Inv.of_reachable hreach₁
  generalize hs₁ : portEmpty.interrupted 0x88 0x41 cpu₁.mem = s₁ at *
  have hreceived : s₁.received = [0x41] := by
    rw [← hs₁]
    rfl
  have hreturned : s₁.returned = [] := by
    rw [← hs₁]
    rfl
  have hne : s₁.mem link0200.serialRxIn ≠ s₁.mem link0200.serialRxOut := by
    rw [← hinv₁.available_iff, hreceived, hreturned]
    decide
  obtain ⟨cpu₂, hchrin, ha, hx, -⟩ := (@Link.chrin_leads link0200 (.ofMemory s₁.mem) hne).returns
  have hok₂ : link0200.Allowed s₁ .chrin := hne
  have hreach₂ := hreach₁.step hok₂ ⟨_, cpu₂, rfl, hchrin, rfl⟩
  have hreturned₂ : (s₁.called cpu₂).returned = [result cpu₂] := by
    rw [Port.called, Link.result_eq ha hx, if_neg (Link.toInt_ne _), hreturned, List.nil_append]
  have hfifo := Link.fifo_of_reachable hreach₂
  have hfirst := hfifo.returned_first
  have hreceived₂ : (s₁.called cpu₂).received = [0x41] := hreceived
  rw [hreceived₂, hreturned₂] at hfirst
  refine ⟨s₁.called cpu₂, hreach₂, hreceived₂, ?_, hfifo⟩
  rw [hreturned₂]
  exact hfirst.eq_of_length rfl

end Mosnix.Serial
