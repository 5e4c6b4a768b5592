import Mosnix.Lib.System
import Mosnix.Target.Interleaving

/-!
# Reading characters while they arrive

Interrupts come between any two instructions of `__chrin` and `__chrin_no_wait`.  The calls free the slot
of a character before they read it, and they decide that the sender is to be started again some
instructions before they start it.  Nevertheless no byte is lost, duplicated or overwritten, if the
sender delivers at most 15 bytes after it is stopped, and if not more than one byte arrives between
two instructions (`served_of_reachable`).
-/

namespace Mosnix.Serial.Link

variable {k : Link} {m m' m'' : Memory} {b : Byte}

/-- The variables of the port and its command register are the same. -/
structure Same (k : Link) (m m' : Memory) : Prop where
  rxIn : m' k.serialRxIn = m k.serialRxIn
  rxOut : m' k.serialRxOut = m k.serialRxOut
  slot : ∀ x, m' (k.slot x) = m (k.slot x)
  cmd : m' ACIA_CMD = m ACIA_CMD

theorem Same.refl (k : Link) (m : Memory) : k.Same m m :=
  ⟨rfl, rfl, fun _ => rfl, rfl⟩

theorem Same.trans (h : k.Same m m') (h' : k.Same m' m'') : k.Same m m'' :=
  ⟨h'.rxIn.trans h.rxIn, h'.rxOut.trans h.rxOut, fun x => (h'.slot x).trans (h.slot x),
    h'.cmd.trans h.cmd⟩

/-- The buffers have the same characters. -/
theorem Same.ring_eq (h : k.Same m m') : k.ring m' = k.ring m := by
  rw [ring, ring, h.rxIn, h.rxOut, funext h.slot]

theorem Same.count_eq (h : k.Same m m') : k.count m' = k.count m := by
  rw [count, count, h.rxIn, h.rxOut]

/-- Characters are put into the same buffer. -/
theorem Same.put (h : k.Same m m') (b : Byte) : k.Same (k.put m b) (k.put m' b) where
  rxIn := by rw [put_rxIn, put_rxIn, h.rxIn]
  rxOut := by rw [put_rxOut, put_rxOut, h.rxOut]
  slot x := by rw [put_slot, put_slot, h.rxIn, h.slot]
  cmd := by rw [put_cmd, put_cmd, h.cmd]

/-- A store to a register of the ACIA, or elsewhere. -/
theorem Same.store {a : Word} (hin : a ≠ k.serialRxIn) (hout : a ≠ k.serialRxOut)
    (hslot : ∀ x, a ≠ k.slot x) (hcmd : a ≠ ACIA_CMD) (m : Memory) (b : Byte) :
  k.Same m (m.store a b)
  :=
  ⟨Memory.store_of_ne hin.symm, Memory.store_of_ne hout.symm,
    fun x => Memory.store_of_ne (hslot x).symm, Memory.store_of_ne hcmd.symm⟩

theorem Same.store_cmd (h : k.Same m m') (b : Byte) :
  k.Same (m.store ACIA_CMD b) (m'.store ACIA_CMD b)
  := by
  obtain ⟨hin, hout, hslot⟩ := k.acia_ne (a := ACIA_CMD) (by simp)
  constructor
  · rw [Memory.store_of_ne hin.symm, Memory.store_of_ne hin.symm, h.rxIn]
  · rw [Memory.store_of_ne hout.symm, Memory.store_of_ne hout.symm, h.rxOut]
  · intro x
    rw [Memory.store_of_ne (hslot x).symm, Memory.store_of_ne (hslot x).symm, h.slot]
  · rw [Memory.store_self, Memory.store_self]

/-- The effect of the interrupt routine depends only on the variables of the port. -/
theorem Same.afterIsr (h : k.Same m m') (b : Byte) : k.Same (k.afterIsr m b) (k.afterIsr m' b) := by
  rw [Link.afterIsr, Link.afterIsr, (h.put b).count_eq]
  split_ifs
  · exact h.put b
  · exact (h.put b).store_cmd 0x01

theorem afterIsr_rxOut : k.afterIsr m b k.serialRxOut = m k.serialRxOut := by
  obtain ⟨-, hout, -⟩ := k.acia_ne (a := ACIA_CMD) (by simp)
  rw [afterIsr]
  split_ifs
  · exact put_rxOut
  · rw [Memory.store_of_ne hout.symm, put_rxOut]

/-- A slot that was freed is not used while the ring has room. -/
theorem afterIsr_freed (h : (k.ring m).length < 255) :
  k.afterIsr m b (k.slot (m k.serialRxOut - 1)) = m (k.slot (m k.serialRxOut - 1))
  := by
  obtain ⟨-, -, hslot⟩ := k.acia_ne (a := ACIA_CMD) (by simp)
  have hne : m k.serialRxOut - 1 ≠ m k.serialRxIn := by
    rw [length_ring, count] at h
    bv_omega
  have hput : (k.put m b) (k.slot (m k.serialRxOut - 1)) = m (k.slot (m k.serialRxOut - 1)) := by
    rw [put_slot, if_neg hne]
  rw [afterIsr]
  split_ifs
  · exact hput
  · rw [Memory.store_of_ne (hslot _).symm, hput]

end Mosnix.Serial.Link

namespace Mosnix.Trap

open Mos6502
open Systick (Timer timer)
open Serial (ACIA_DATA ACIA_STATUS ACIA_CMD)

namespace Link

variable {k : Link} {c c' : Cpu × World}

/-! ### Interrupts -/

/-- The rest of an interrupt does not change the port. -/
theorem same_of_eqOn {m m' : Memory} {s : Byte} (h : Set.EqOn m' m (k.scratch s)ᶜ) :
  k.serial.Same m m'
  where
  rxIn := h (serialInputs_not_mem s (by simp [serialInputs]))
  rxOut := h (serialInputs_not_mem s (by simp [serialInputs]))
  slot x := h (notMem_scratch_of_ram s (k.buffer_ram x) fun hmem => (k.systick_ne _ hmem).2.2 x rfl)
  cmd := h (notMem_scratch_of_acia s (by simp))

theorem present_status (cpu : Cpu) (status data : Byte) :
  (present cpu status data).mem ACIA_STATUS = status
  := by
  rw [present, Cpu.poke, Cpu.poke]
  dsimp only
  rw [Memory.store_of_ne (by decide), Memory.store_self]

theorem present_data (cpu : Cpu) (status data : Byte) :
  (present cpu status data).mem ACIA_DATA = data
  := by
  rw [present, Cpu.poke]
  dsimp only
  rw [Memory.store_self]

/-- The registers of the ACIA are no part of the buffer. -/
theorem present_same (k : Link) (cpu : Cpu) (status data : Byte) :
  k.serial.Same cpu.mem (present cpu status data).mem
  := by
  have hstore (a : Word) (ha : a ∈ [ACIA_DATA, ACIA_STATUS, ACIA_CMD]) (hcmd : a ≠ ACIA_CMD)
      (m : Memory) (b : Byte) : k.serial.Same m (m.store a b) := by
    obtain ⟨hin, hout, hslot⟩ := k.serial.acia_ne ha
    exact .store hin hout hslot hcmd m b
  exact (hstore ACIA_STATUS (by simp) (by decide) _ _).trans (hstore ACIA_DATA (by simp) (by decide) _ _)

/-- What an interrupt does to the port. -/
theorem Event.port (hs : 5 ≤ c.1.s.toNat) (h : k.Event c c') :
  (∃ b, c'.2.received = c.2.received ++ [b]
      ∧ k.serial.Same (k.serial.afterIsr c.1.mem b) c'.1.mem)
    ∨ c'.2.received = c.2.received ∧ k.serial.Same c.1.mem c'.1.mem
  := by
  cases h with
  | count n flags => exact .inr ⟨rfl, .refl _ _⟩
  | expire _ => exact .inr ⟨rfl, .refl _ _⟩
  | @interrupt cpu w status data pc rest c₁ hi hrun =>
      have hserviced := Serviced.of_run (k := k) (c := (present cpu status data, w.timer)) hs hrun
      have hsame := same_of_eqOn hserviced.eqOn
      have hpresent := k.present_same cpu status data
      dsimp only
      rw [hserviced.rti_eq]
      by_cases harrived : Serial.Link.Arrived status
      · rw [if_pos harrived]
        refine .inl ⟨data, rfl, ?_⟩
        rw [received, present_status, present_data, if_pos harrived] at hsame
        exact (hpresent.afterIsr data).trans hsame
      · rw [if_neg harrived]
        refine .inr ⟨rfl, ?_⟩
        rw [received, present_status, if_neg harrived] at hsame
        exact hpresent.trans hsame

/-! ### The sender -/

/-- The world, and the number of bytes that have arrived since the sender was stopped. -/
structure Sender where
  world : World
  further : ℕ

/-- What may happen between two instructions.  A byte arrives only if the sender is not stopped, or has
delivered less than 15 bytes since it was stopped. -/
inductive Delivery (k : Link) : Cpu × Sender → Cpu × Sender → Prop where
  | quiet {cpu : Cpu} {w : World} {n : ℕ} {c : Cpu × World} : k.Event (cpu, w) c →
      c.2.received = w.received → Delivery k (cpu, ⟨w, n⟩) (c.1, ⟨c.2, n⟩)
  | arrival {cpu : Cpu} {w : World} {n : ℕ} {c : Cpu × World} {b : Byte} : k.Event (cpu, w) c →
      c.2.received = w.received ++ [b] → cpu.mem ACIA_CMD = 0x09 ∨ n < 15 →
      Delivery k (cpu, ⟨w, n⟩) (c.1, ⟨c.2, if cpu.mem ACIA_CMD = 0x09 then 0 else n + 1⟩)

/-- All that happens between two instructions: at most one byte arrives. -/
def Gap (k : Link) (c c' : Cpu × Sender) : Prop :=
  Relation.ReflTransGen k.Delivery c c'
    ∧ c'.2.world.received.length ≤ c.2.world.received.length + 1

theorem Gap.refl (k : Link) (c : Cpu × Sender) : k.Gap c c :=
  ⟨.refl, Nat.le_succ _⟩

/-- The bytes that have arrived are those that were taken and those in the ring, and the sender is stopped
before the ring is full. -/
structure Flow (k : Link) (taken : List Byte) (c : Cpu × Sender) : Prop where
  received_eq : c.2.world.received = taken ++ k.serial.ring c.1.mem
  cmd : Serial.Link.Paced (c.1.mem ACIA_CMD) (k.serial.ring c.1.mem).length c.2.further

theorem Flow.of_mem_eq {taken : List Byte} {c : Cpu × Sender} {cpu : Cpu} (h : k.Flow taken c)
    (hmem : cpu.mem = c.1.mem) :
  k.Flow taken (cpu, c.2)
  := by
  constructor
  · dsimp only
    rw [hmem]
    exact h.received_eq
  · dsimp only
    rw [hmem]
    exact h.cmd

/-- The ring has grown by bytes that have arrived, and nothing else has changed: also not the slot that was
freed last. -/
structure Grown (k : Link) (c c' : Cpu × Sender) : Prop where
  agree : Agree k.footprint c.1 c'.1
  rxOut : c'.1.mem k.serial.serialRxOut = c.1.mem k.serial.serialRxOut
  freed : c'.1.mem (k.serial.slot (c.1.mem k.serial.serialRxOut - 1))
    = c.1.mem (k.serial.slot (c.1.mem k.serial.serialRxOut - 1))
  ring : ∃ bs, k.serial.ring c'.1.mem = k.serial.ring c.1.mem ++ bs
    ∧ c'.2.world.received = c.2.world.received ++ bs

theorem Grown.refl (k : Link) (c : Cpu × Sender) : k.Grown c c :=
  ⟨.refl _ _, rfl, rfl, [], (List.append_nil _).symm, (List.append_nil _).symm⟩

/-- Characters arrive one after the other. -/
theorem Grown.trans {c c' c'' : Cpu × Sender} (h : k.Grown c c') (h' : k.Grown c' c'') : k.Grown c c'' := by
  obtain ⟨bs, hring, hreceived⟩ := h.ring
  obtain ⟨bs', hring', hreceived'⟩ := h'.ring
  have hfreed := h'.freed
  rw [h.rxOut] at hfreed
  refine ⟨h.agree.trans h'.agree, h'.rxOut.trans h.rxOut, hfreed.trans h.freed, bs ++ bs', ?_, ?_⟩
  · rw [hring', hring, List.append_assoc]
  · rw [hreceived', hreceived, List.append_assoc]

theorem Grown.length_le {c c' : Cpu × Sender} (h : k.Grown c c') :
  c.2.world.received.length ≤ c'.2.world.received.length
  := by
  obtain ⟨bs, -, hreceived⟩ := h.ring
  rw [hreceived, List.length_append]
  exact Nat.le_add_right _ _

/-- A step keeps the bytes in order. -/
theorem Delivery.flow {taken : List Byte} {c c' : Cpu × Sender} (hs : 6 ≤ c.1.s.toNat)
    (hflow : k.Flow taken c) (h : k.Delivery c c') :
  k.Flow taken c' ∧ k.Grown c c'
  := by
  cases h with
  | @quiet cpu w n c hevent hreceived =>
      have hsame : k.serial.Same cpu.mem c.1.mem := by
        obtain ⟨b, hb, -⟩ | ⟨-, hsame⟩ := hevent.port (c := (cpu, w)) (le_trans (by decide) hs)
        · rw [hreceived] at hb
          simp at hb
        · exact hsame
      constructor
      · constructor
        · dsimp only
          rw [hreceived, hsame.ring_eq]
          exact hflow.received_eq
        · dsimp only
          rw [hsame.cmd, hsame.ring_eq]
          exact hflow.cmd
      · refine ⟨hevent.agree (c := (cpu, w)) hs, hsame.rxOut, hsame.slot _, [], ?_, ?_⟩
        · rw [List.append_nil]
          exact hsame.ring_eq
        · rw [List.append_nil]
          exact hreceived
  | @arrival cpu w n c b hevent hreceived hok =>
      have hroom := hflow.cmd.room hok
      dsimp only at hroom
      obtain ⟨hring, hcmd⟩ := k.serial.afterIsr_spec (b := b) hroom
      have hsame : k.serial.Same (k.serial.afterIsr cpu.mem b) c.1.mem := by
        obtain ⟨b', hb, hsame⟩ | ⟨hb, -⟩ := hevent.port (c := (cpu, w)) (le_trans (by decide) hs)
        · rw [hreceived] at hb
          obtain rfl : b = b' := by simpa using hb
          exact hsame
        · rw [hreceived] at hb
          simp at hb
      rw [← hsame.ring_eq] at hring
      rw [← hsame.cmd] at hcmd
      constructor
      · constructor
        · dsimp only
          rw [hreceived, hring, ← List.append_assoc, ← hflow.received_eq]
        · dsimp only
          rw [hring, hcmd, List.length_append, List.length_singleton]
          exact hflow.cmd.arrived hok
      · refine ⟨hevent.agree (c := (cpu, w)) hs, hsame.rxOut.trans Serial.Link.afterIsr_rxOut, ?_, [b],
          hring, hreceived⟩
        dsimp only
        rw [hsame.slot, Serial.Link.afterIsr_freed hroom]

variable {taken : List Byte} {c c' : Cpu × Sender} {s b : Byte} {n j : ℕ}

/-- What happens between two instructions keeps the bytes in order, and adds at most one to the ring. -/
theorem Gap.flow (hs : 6 ≤ c.1.s.toNat) (hflow : k.Flow taken c) (h : k.Gap c c') :
  k.Flow taken c' ∧ k.Grown c c'
    ∧ (k.serial.ring c'.1.mem).length ≤ (k.serial.ring c.1.mem).length + 1
  := by
  obtain ⟨hrun, hlength⟩ := h
  have hgrown : k.Flow taken c' ∧ k.Grown c c' := by
    clear hlength
    induction hrun with
    | refl => exact ⟨hflow, .refl k c⟩
    | tail _ hstep ih =>
        obtain ⟨hflow', hgrown⟩ := ih
        have hs' := hs
        rw [← hgrown.agree.s_eq] at hs'
        obtain ⟨hflow'', hgrown'⟩ := hstep.flow hs' hflow'
        exact ⟨hflow'', hgrown.trans hgrown'⟩
  obtain ⟨bs, hring, hreceived⟩ := hgrown.2.ring
  refine ⟨hgrown.1, hgrown.2, ?_⟩
  rw [hreceived, List.length_append] at hlength
  rw [hring, List.length_append]
  omega

/-! ### Taking a character -/

/-- There is a character, and `X` has the index of its slot. -/
structure Available (k : Link) (taken : List Byte) (s : Byte) (c : Cpu × Sender) : Prop where
  s_eq : c.1.s = s
  flow : k.Flow taken c
  x_eq : c.1.x = c.1.mem k.serial.serialRxOut
  ne : c.1.mem k.serial.serialRxIn ≠ c.1.mem k.serial.serialRxOut

/-- The slot of the character `b` was freed, but not read yet. -/
structure Freed (k : Link) (taken : List Byte) (b s : Byte) (c : Cpu × Sender) : Prop where
  s_eq : c.1.s = s
  flow : k.Flow (taken ++ [b]) c
  x_eq : c.1.x = c.1.mem k.serial.serialRxOut - 1
  byte : c.1.mem (k.serial.slot c.1.x) = b

theorem ring_ne_nil {m : Memory} :
  k.serial.ring m ≠ [] ↔ m k.serial.serialRxIn ≠ m k.serial.serialRxOut
  := by
  constructor
  · intro h heq
    exact h (Serial.Link.ring_eq_nil heq)
  · intro hne
    rw [Serial.Link.ring_take hne]
    exact List.cons_ne_nil _ _

/-- A character stays available between two instructions. -/
theorem Available.gap (hs : 6 ≤ s.toNat) (h : k.Available taken s c) (hgap : k.Gap c c') :
  k.Available taken s c'
  := by
  obtain ⟨rfl, hflow, hx, hne⟩ := h
  obtain ⟨hflow', hgrown, -⟩ := hgap.flow hs hflow
  refine ⟨hgrown.agree.s_eq, hflow', ?_, ?_⟩
  · rw [hgrown.rxOut, ← hx, hgrown.agree.cpu_eq]
  · obtain ⟨bs, hring, -⟩ := hgrown.ring
    rw [← ring_ne_nil] at hne ⊢
    rw [hring]
    exact List.append_ne_nil_of_left_ne_nil hne bs

/-- The slot stays free between two instructions. -/
theorem Freed.gap (hs : 6 ≤ s.toNat) (h : k.Freed taken b s c) (hgap : k.Gap c c') :
  k.Freed taken b s c'
    ∧ (k.serial.ring c'.1.mem).length ≤ (k.serial.ring c.1.mem).length + 1
  := by
  obtain ⟨rfl, hflow, hx, hbyte⟩ := h
  obtain ⟨hflow', hgrown, hlength⟩ := hgap.flow hs hflow
  have hx' : c'.1.x = c.1.x := by rw [hgrown.agree.cpu_eq]
  refine ⟨⟨hgrown.agree.s_eq, hflow', ?_, ?_⟩, hlength⟩
  · rw [hgrown.rxOut, hx', hx]
  · have hfreed := hgrown.freed
    rw [← hx] at hfreed
    rw [hx', hfreed, hbyte]

/-- The index is incremented. -/
theorem Available.inc (h : k.Available taken s c) :
  ∃ b, k.Freed taken b s ((Op.inc (.abs k.serial.serialRxOut)).exec c.1, c.2)
  := by
  obtain ⟨hs, hflow, hx, hne⟩ := h
  have hmem : ((Op.inc (.abs k.serial.serialRxOut)).exec c.1).mem = k.serial.take c.1.mem := rfl
  have htake := Serial.Link.ring_take hne
  have hout : (k.serial.take c.1.mem) k.serial.serialRxOut = c.1.mem k.serial.serialRxOut + 1 :=
    Memory.store_self
  refine ⟨c.1.mem (k.serial.slot (c.1.mem k.serial.serialRxOut)), hs, ⟨?_, ?_⟩, ?_, ?_⟩
  · dsimp only
    rw [hmem, hflow.received_eq, htake, List.append_assoc, List.singleton_append]
  · dsimp only
    have hlength := congrArg List.length htake
    rw [List.length_cons] at hlength
    rw [hmem, Serial.Link.take_cmd]
    exact hflow.cmd.of_le (by omega)
  · dsimp only
    rw [hmem, hout]
    have hx' : ((Op.inc (.abs k.serial.serialRxOut)).exec c.1).x = c.1.x := rfl
    rw [hx', hx]
    bv_omega
  · dsimp only
    rw [hmem, Serial.Link.take_slot, ← hx]
    rfl

/-- The state while the number of characters is compared with the low water mark: when it was read it was
`d`, and since then at most `j` have arrived.  `P` is a property of `A`, the carry, and the index. -/
structure Counting (k : Link) (taken : List Byte) (b s : Byte) (P : Byte → Bool → Byte → Prop) (d : Byte)
    (j : ℕ) (c : Cpu × Sender) : Prop where
  freed : k.Freed taken b s c
  length_le : (k.serial.ring c.1.mem).length ≤ d.toNat + j
  holds : P c.1.a c.1.c (c.1.mem k.serial.serialRxOut)

variable {P P' : Byte → Bool → Byte → Prop} {d : Byte}

/-- The count goes on between two instructions. -/
theorem Counting.gap (hs : 6 ≤ s.toNat) (h : k.Counting taken b s P d j c) (hgap : k.Gap c c') :
  k.Counting taken b s P d (j + 1) c'
  := by
  obtain ⟨hfreed, hlength, hP⟩ := h
  obtain ⟨hfreed', hlength'⟩ := hfreed.gap hs hgap
  rw [← hfreed.s_eq] at hs
  obtain ⟨-, hgrown, -⟩ := hgap.flow hs hfreed.flow
  refine ⟨hfreed', by omega, ?_⟩
  rw [hgrown.rxOut, hgrown.agree.cpu_eq]
  exact hP

/-- An instruction that changes only `A` and the flags. -/
theorem Counting.exec (h : k.Counting taken b s P d j c) {cpu : Cpu} (hs : cpu.s = c.1.s)
    (hx : cpu.x = c.1.x) (hmem : cpu.mem = c.1.mem)
    (hP : P c.1.a c.1.c (c.1.mem k.serial.serialRxOut) →
      P' cpu.a cpu.c (c.1.mem k.serial.serialRxOut)) :
  k.Counting taken b s P' d j (cpu, c.2)
  := by
  obtain ⟨⟨hs', hflow, hx', hbyte⟩, hlength, hP'⟩ := h
  refine ⟨⟨hs.trans hs', hflow.of_mem_eq hmem, ?_, ?_⟩, ?_, ?_⟩
  · dsimp only
    rw [hmem, hx, hx']
  · dsimp only
    rw [hmem, hx, hbyte]
  · dsimp only
    rw [hmem]
    exact hlength
  · dsimp only
    rw [hmem]
    exact hP hP'

/-- The sender is started again while the ring is below the high water mark. -/
theorem Counting.start (h : k.Counting taken b s (fun a _ _ => a = 0x09) d j c)
    (hlt : d.toNat + j ≤ 239) :
  k.Freed taken b s ((Op.sta (.abs ACIA_CMD)).exec c.1, c.2)
  := by
  obtain ⟨⟨hs, hflow, hx, hbyte⟩, hlength, ha⟩ := h
  have hmem : ((Op.sta (.abs ACIA_CMD)).exec c.1).mem = c.1.mem.store ACIA_CMD 0x09 := by
    rw [← ha]
    rfl
  obtain ⟨-, hout, hring⟩ := k.serial.store_acia (m := c.1.mem) (a := ACIA_CMD) (by simp) 0x09
  obtain ⟨-, -, hslot⟩ := k.serial.acia_ne (a := ACIA_CMD) (by simp)
  refine ⟨hs, ⟨?_, .inl ⟨?_, ?_⟩⟩, ?_, ?_⟩
  · dsimp only
    rw [hmem, hring]
    exact hflow.received_eq
  · dsimp only
    rw [hmem, Memory.store_self]
  · dsimp only
    rw [hmem, hring]
    omega
  · dsimp only
    rw [hmem, hout, ← hx]
    rfl
  · dsimp only
    rw [hmem, Memory.store_of_ne (hslot _).symm]
    exact hbyte

section

variable {haveChar : Serial.Label} {rest : List (Line Serial.Label)} (hs : 6 ≤ s.toNat)
  (hgoto : goto k.serial.code haveChar = .label haveChar
    :: .op (.lda (.absX k.serial.serialRxBuffer)) :: .op (.ldx (.imm 0)) :: .rts :: rest)

/-- A call has returned the character `b`. -/
structure Returned (k : Link) (taken : List Byte) (b s : Byte) (c : Cpu × Sender) : Prop where
  s_eq : c.1.s = s
  flow : k.Flow (taken ++ [b]) c
  a_eq : c.1.a = b
  x_eq : c.1.x = 0

include hs hgoto

/-- The character is read from the slot that was freed. -/
theorem Freed.haveChar_leads (h : k.Freed taken b s c) :
  IrqLeads k.serial.code k.Gap (goto k.serial.code haveChar, c) fun q =>
    q.1.head? = some .rts ∧ ∃ b, k.Returned taken b s q.2
  := by
  rw [hgoto]
  apply IrqLeads.label (Gap.refl k c)
  intro c₁ hgap₁
  obtain ⟨h₁, -⟩ := h.gap hs hgap₁
  apply IrqLeads.op (Gap.refl k c₁)
  intro c₂ hgap₂
  obtain ⟨h₂, -⟩ := h₁.gap hs hgap₂
  have hs₂ : 6 ≤ ((Op.lda (.absX k.serial.serialRxBuffer)).exec c₂.1).s.toNat := by
    rw [← h₂.s_eq] at hs
    exact hs
  have hflow₂ : k.Flow (taken ++ [b]) ((Op.lda (.absX k.serial.serialRxBuffer)).exec c₂.1, c₂.2) :=
    ⟨h₂.flow.received_eq, h₂.flow.cmd⟩
  have ha₂ : ((Op.lda (.absX k.serial.serialRxBuffer)).exec c₂.1).a = b := h₂.byte
  apply IrqLeads.op (Gap.refl k _)
  intro c₃ hgap₃
  obtain ⟨hflow₃, hgrown, -⟩ := Gap.flow (c := (_, c₂.2)) hs₂ hflow₂ hgap₃
  apply IrqLeads.refl
  refine ⟨rfl, b, ?_, ⟨hflow₃.received_eq, hflow₃.cmd⟩, ?_, rfl⟩
  · exact hgrown.agree.s_eq.trans h₂.s_eq
  · have ha₃ : c₃.1.a = b := by
      rw [hgrown.agree.cpu_eq]
      exact ha₂
    exact ha₃

/-- The character is taken while interrupts come. -/
theorem Available.takeChar_leads (h : k.Available taken s c) :
  IrqLeads k.serial.code k.Gap (k.serial.takeChar haveChar ++ rest, c) fun q =>
    q.1.head? = some .rts ∧ ∃ b, k.Returned taken b s q.2
  := by
  have hcode : k.serial.takeChar haveChar ++ rest = .op (.inc (.abs k.serial.serialRxOut))
      :: .op (.lda (.abs k.serial.serialRxIn)) :: .op .sec :: .op (.sbc (.abs k.serial.serialRxOut))
      :: .op (.cmp (.imm Serial.RX_LOW)) :: .branch .cs haveChar :: .op (.lda (.imm 0x09))
      :: .op (.sta (.abs ACIA_CMD)) :: goto k.serial.code haveChar := by
    rw [hgoto]
    rfl
  rw [hcode]
  apply IrqLeads.op (Gap.refl k _)
  intro c₁ hgap₁
  obtain ⟨b, h₁⟩ := (h.gap hs hgap₁).inc
  apply IrqLeads.op (Gap.refl k _)
  intro c₂ hgap₂
  obtain ⟨h₂, -⟩ := h₁.gap hs hgap₂
  obtain ⟨d, hd⟩ : ∃ d, d = k.serial.count c₂.1.mem := ⟨_, rfl⟩
  have hcounting : k.Counting taken b s (fun _ _ _ => True) d 0 c₂ := by
    refine ⟨h₂, ?_, trivial⟩
    rw [Serial.Link.length_ring, hd]
    exact Nat.le_add_right _ _
  have hlda : k.Counting taken b s (fun a _ out => a - out = d) d 0
      ((Op.lda (.abs k.serial.serialRxIn)).exec c₂.1, c₂.2) :=
    hcounting.exec rfl rfl rfl fun _ => hd.symm
  apply IrqLeads.op (Gap.refl k _)
  intro c₃ hgap₃
  have hsec : k.Counting taken b s (fun a carry out => a - out = d ∧ carry = true) d 1
      (Op.sec.exec c₃.1, c₃.2) :=
    (hlda.gap hs hgap₃).exec rfl rfl rfl fun ha => ⟨ha, rfl⟩
  apply IrqLeads.op (Gap.refl k _)
  intro c₄ hgap₄
  have hsbc : k.Counting taken b s (fun a _ _ => a = d) d 2
      ((Op.sbc (.abs k.serial.serialRxOut)).exec c₄.1, c₄.2) := by
    refine (hsec.gap hs hgap₄).exec ?_ ?_ ?_ ?_
    · rfl
    · rfl
    · rfl
    · rintro ⟨ha, hcarry⟩
      rw [← ha, ← sum_sub, ← hcarry]
      rfl
  apply IrqLeads.op (Gap.refl k _)
  intro c₅ hgap₅
  have hcmp : k.Counting taken b s (fun _ carry _ => carry = decide (Serial.RX_LOW ≤ d)) d 3
      ((Op.cmp (.imm Serial.RX_LOW)).exec c₅.1, c₅.2) := by
    refine (hsbc.gap hs hgap₅).exec ?_ ?_ ?_ ?_
    · rfl
    · rfl
    · rfl
    · intro ha
      rw [← ha]
      rfl
  apply IrqLeads.branch (Gap.refl k _)
  intro c₆ hgap₆
  have h₆ := hcmp.gap hs hgap₆
  have hcarry := h₆.holds
  by_cases hle : Serial.RX_LOW ≤ d
  · rw [decide_eq_true hle] at hcarry
    have hholds : Cond.cs.holds c₆.1 = true := hcarry
    rw [if_pos hholds]
    exact h₆.freed.haveChar_leads hs hgoto
  · rw [decide_eq_false hle] at hcarry
    have hnot : ¬ Cond.cs.holds c₆.1 = true := by
      rw [Cond.holds, hcarry]
      exact Bool.false_ne_true
    rw [if_neg hnot]
    apply IrqLeads.op (Gap.refl k _)
    intro c₇ hgap₇
    have hlda' : k.Counting taken b s (fun a _ _ => a = 0x09) d 5
        ((Op.lda (.imm 0x09)).exec c₇.1, c₇.2) :=
      (h₆.gap hs hgap₇).exec rfl rfl rfl fun _ => rfl
    apply IrqLeads.op (Gap.refl k _)
    intro c₈ hgap₈
    have h₈ := hlda'.gap hs hgap₈
    apply Freed.haveChar_leads hs hgoto (b := b)
    apply h₈.start
    rw [BitVec.not_le] at hle
    have hlow : d.toNat < 224 := hle
    omega

end

/-! ### The test for a character -/

/-- The test for a character: if there was none, then all bytes that had arrived before were taken. -/
theorem Flow.poll_leads {l : Serial.Label} {rest : List (Line Serial.Label)}
    {Q : List (Line Serial.Label) × Cpu × Sender → Prop} (hs : 6 ≤ s.toNat) (hs' : c.1.s = s)
    (hflow : k.Flow taken c)
    (hempty : ∀ c', c'.1.s = s → k.Flow taken c' →
      c.2.world.received.length ≤ taken.length →
      IrqLeads k.serial.code k.Gap (goto k.serial.code l, c') Q)
    (havailable : ∀ c', k.Available taken s c' → IrqLeads k.serial.code k.Gap (rest, c') Q) :
  IrqLeads k.serial.code k.Gap (.op (.ldx (.abs k.serial.serialRxOut))
    :: .op (.cpx (.abs k.serial.serialRxIn)) :: .branch .eq l :: rest, c) Q
  := by
  have hs₀ := hs
  rw [← hs'] at hs₀
  apply IrqLeads.op (Gap.refl k _)
  intro c₁ hgap₁
  obtain ⟨hflow₁, hgrown₁, -⟩ := hgap₁.flow hs₀ hflow
  have hs₁ : c₁.1.s = s := hgrown₁.agree.s_eq.trans hs'
  obtain ⟨cpu₁, hcpu₁⟩ : ∃ cpu, cpu = (Op.ldx (.abs k.serial.serialRxOut)).exec c₁.1 := ⟨_, rfl⟩
  have hmem₁ : cpu₁.mem = c₁.1.mem := by
    rw [hcpu₁]
    rfl
  have hx₁ : cpu₁.x = c₁.1.mem k.serial.serialRxOut := by
    rw [hcpu₁]
    rfl
  have hs₁' : cpu₁.s = s := by
    rw [hcpu₁]
    exact hs₁
  rw [← hcpu₁]
  have hflow₁' : k.Flow taken (cpu₁, c₁.2) := hflow₁.of_mem_eq hmem₁
  apply IrqLeads.op (Gap.refl k _)
  intro c₂ hgap₂
  obtain ⟨hflow₂, hgrown₂, -⟩ := Gap.flow (c := (cpu₁, c₁.2)) (by rw [hs₁']; exact hs) hflow₁' hgap₂
  have hs₂ : c₂.1.s = s := hgrown₂.agree.s_eq.trans hs₁'
  have hx₂ : c₂.1.x = c₂.1.mem k.serial.serialRxOut := by
    rw [hgrown₂.rxOut, hgrown₂.agree.cpu_eq]
    dsimp only
    rw [hx₁, hmem₁]
  obtain ⟨cpu₂, hcpu₂⟩ : ∃ cpu, cpu = (Op.cpx (.abs k.serial.serialRxIn)).exec c₂.1 := ⟨_, rfl⟩
  have hmem₂ : cpu₂.mem = c₂.1.mem := by
    rw [hcpu₂]
    rfl
  have hx₂' : cpu₂.x = c₂.1.x := by
    rw [hcpu₂]
    rfl
  have hz₂ : cpu₂.z = (c₂.1.x - c₂.1.mem k.serial.serialRxIn == 0) := by
    rw [hcpu₂]
    rfl
  have hs₂' : cpu₂.s = s := by
    rw [hcpu₂]
    exact hs₂
  rw [← hcpu₂]
  have hflow₂' : k.Flow taken (cpu₂, c₂.2) := hflow₂.of_mem_eq hmem₂
  apply IrqLeads.branch (Gap.refl k _)
  intro c₃ hgap₃
  obtain ⟨hflow₃, hgrown₃, -⟩ := Gap.flow (c := (cpu₂, c₂.2)) (by rw [hs₂']; exact hs) hflow₂' hgap₃
  have hz₃ : Cond.eq.holds c₃.1 = cpu₂.z := by
    rw [hgrown₃.agree.cpu_eq]
    rfl
  rw [hz₃, hz₂, hx₂]
  by_cases heq : c₂.1.mem k.serial.serialRxIn = c₂.1.mem k.serial.serialRxOut
  · have htrue : (c₂.1.mem k.serial.serialRxOut - c₂.1.mem k.serial.serialRxIn == 0) = true :=
      beq_iff_eq.mpr (sub_eq_zero.mpr heq.symm)
    rw [htrue, if_pos rfl]
    apply hempty c₃ (hgrown₃.agree.s_eq.trans hs₂') hflow₃
    have hreceived := hflow₂.received_eq
    rw [Serial.Link.ring_eq_nil heq, List.append_nil] at hreceived
    rw [← hreceived]
    exact hgrown₁.length_le.trans hgrown₂.length_le
  · have hne : (c₂.1.mem k.serial.serialRxOut - c₂.1.mem k.serial.serialRxIn == 0) = false := by
      apply beq_eq_false_iff_ne.mpr
      exact sub_ne_zero.mpr (Ne.symm heq)
    rw [hne, if_neg Bool.false_ne_true]
    apply havailable
    have havail : k.Available taken s (cpu₂, c₂.2) := by
      refine ⟨hs₂', hflow₂', ?_, ?_⟩
      · dsimp only
        rw [hmem₂, hx₂', hx₂]
      · dsimp only
        rw [hmem₂]
        exact heq
    exact havail.gap hs hgap₃

theorem goto_chrin (k : Link) :
  goto k.serial.code .chrin = .label .chrin :: .op (.ldx (.abs k.serial.serialRxOut))
    :: .op (.cpx (.abs k.serial.serialRxIn)) :: .branch .eq .chrin
    :: (k.serial.takeChar .chrinHaveChar ++ k.serial.chrinNoWait)
  := rfl

theorem goto_chrinNoWait (k : Link) :
  goto k.serial.code .chrinNoWait = .label .chrinNoWait :: .op (.ldx (.abs k.serial.serialRxOut))
    :: .op (.cpx (.abs k.serial.serialRxIn)) :: .branch .eq .chrinNoChar
    :: (k.serial.takeChar .chrinNoWaitHaveChar ++ goto k.serial.code .chrinNoChar)
  := rfl

theorem goto_chrinNoChar (k : Link) :
  goto k.serial.code .chrinNoChar
    = [.label .chrinNoChar, .op (.lda (.imm 0xFF)), .op .tax, .rts]
  := rfl

/-- There was no character when `__chrin_no_wait` looked for one. -/
structure Empty (k : Link) (taken : List Byte) (n : ℕ) (s : Byte) (c : Cpu × Sender) : Prop where
  s_eq : c.1.s = s
  flow : k.Flow taken c
  a_eq : c.1.a = 0xFF
  x_eq : c.1.x = 0xFF
  received_le : n ≤ taken.length

/-- What a call of `__chrin_no_wait` comes to, when `n` bytes have arrived before it. -/
def Outcome (k : Link) (taken : List Byte) (n : ℕ) (s : Byte)
    (q : List (Line Serial.Label) × Cpu × Sender) : Prop :=
  q.1.head? = some .rts ∧ ((∃ b, k.Returned taken b s q.2) ∨ k.Empty taken n s q.2)

/-- `__chrin_no_wait` returns, however it is interrupted. -/
theorem Flow.chrinNoWait_leads (hs : 6 ≤ c.1.s.toNat) (hflow : k.Flow taken c) :
  IrqLeads k.serial.code k.Gap (goto k.serial.code .chrinNoWait, c)
    (k.Outcome taken c.2.world.received.length c.1.s)
  := by
  rw [goto_chrinNoWait]
  apply IrqLeads.label (Gap.refl k _)
  intro c₁ hgap₁
  obtain ⟨hflow₁, hgrown₁, -⟩ := hgap₁.flow hs hflow
  apply hflow₁.poll_leads hs hgrown₁.agree.s_eq
  · intro c₂ hs₂ hflow₂ hle
    rw [goto_chrinNoChar]
    have hs' := hs
    rw [← hs₂] at hs'
    apply IrqLeads.label (Gap.refl k _)
    intro c₃ hgap₃
    obtain ⟨hflow₃, hgrown₃, -⟩ := hgap₃.flow hs' hflow₂
    rw [← hgrown₃.agree.s_eq] at hs'
    apply IrqLeads.op (Gap.refl k _)
    intro c₄ hgap₄
    obtain ⟨hflow₄, hgrown₄, -⟩ := hgap₄.flow hs' hflow₃
    rw [← hgrown₄.agree.s_eq] at hs'
    have hflow₄' : k.Flow taken ((Op.lda (.imm 0xFF)).exec c₄.1, c₄.2) := hflow₄.of_mem_eq rfl
    apply IrqLeads.op (Gap.refl k _)
    intro c₅ hgap₅
    obtain ⟨hflow₅, hgrown₅, -⟩ := Gap.flow (c := ((Op.lda (.imm 0xFF)).exec c₄.1, c₄.2)) hs'
      hflow₄' hgap₅
    have ha₅ : c₅.1.a = 0xFF := by
      rw [hgrown₅.agree.cpu_eq]
      rfl
    apply IrqLeads.refl
    refine ⟨rfl, .inr ⟨?_, hflow₅.of_mem_eq rfl, ha₅, ha₅, hgrown₁.length_le.trans hle⟩⟩
    rw [← hs₂, ← hgrown₃.agree.s_eq, ← hgrown₄.agree.s_eq]
    exact hgrown₅.agree.s_eq
  · intro c₂ havailable
    apply (havailable.takeChar_leads hs rfl).trans
    rintro q ⟨hrts, hreturned⟩
    apply IrqLeads.refl
    exact ⟨hrts, .inl hreturned⟩

/-- `__chrin` returns if there is a character, however it is interrupted. -/
theorem Flow.chrin_leads (hs : 6 ≤ c.1.s.toNat) (hflow : k.Flow taken c)
    (hlt : taken.length < c.2.world.received.length) :
  IrqLeads k.serial.code k.Gap (goto k.serial.code .chrin, c) fun q =>
    q.1.head? = some .rts ∧ ∃ b, k.Returned taken b c.1.s q.2
  := by
  rw [goto_chrin]
  apply IrqLeads.label (Gap.refl k _)
  intro c₁ hgap₁
  obtain ⟨hflow₁, hgrown₁, -⟩ := hgap₁.flow hs hflow
  apply hflow₁.poll_leads hs hgrown₁.agree.s_eq
  · intro c₂ _ _ hle
    have := hgrown₁.length_le
    omega
  · intro c₂ havailable
    exact havailable.takeChar_leads hs rfl

theorem resume_serial (k : Link) (a : Word) : resume k.serial.code a = none := rfl

/-- No instruction follows an `rts`. -/
theorem not_preempted {q q' : List (Line Serial.Label) × Cpu × Sender} (hq : q.1.head? = some .rts) :
  ¬ Preempted k.serial.code k.Gap q q'
  := by
  rintro ⟨c', -, hnext, -⟩
  obtain ⟨rest, hpos⟩ := List.head?_eq_some_iff.mp hq
  rw [hpos, next, resume_serial] at hnext
  cases hnext

/-- `__chrin` looks for a character. -/
structure Waiting (k : Link) (taken : List Byte) (s : Byte)
    (q : List (Line Serial.Label) × Cpu × Sender) : Prop where
  position : q.1 = goto k.serial.code .chrin
  s_eq : q.2.1.s = s
  flow : k.Flow taken q.2

/-- `__chrin` has found a character. -/
structure Found (k : Link) (taken : List Byte) (s : Byte)
    (q : List (Line Serial.Label) × Cpu × Sender) : Prop where
  position : q.1 = k.serial.takeChar .chrinHaveChar ++ k.serial.chrinNoWait
  available : k.Available taken s q.2

/-- A round of the loop of `__chrin`. -/
theorem Waiting.round (hs : 6 ≤ s.toNat) {q : List (Line Serial.Label) × Cpu × Sender}
    (h : k.Waiting taken s q) :
  (∃ r, Preempted k.serial.code k.Gap q r) ∧ ∀ r, Preempted k.serial.code k.Gap q r →
    Inevitably (Preempted k.serial.code k.Gap) (fun r => k.Waiting taken s r ∨ k.Found taken s r) r
  := by
  obtain ⟨pos, cpu, sender⟩ := q
  obtain ⟨hpos, rfl, hflow⟩ := h
  dsimp only at hpos hflow hs ⊢
  rw [hpos, goto_chrin]
  constructor
  · exact ⟨(_, cpu, sender), (cpu, sender), Gap.refl k _, rfl, rfl⟩
  · rintro ⟨pos', cpu', sender'⟩ ⟨c₁, hgap, hnext, hsender⟩
    cases hnext
    cases hsender
    obtain ⟨hflow₁, hgrown, -⟩ := Gap.flow (c := (cpu, sender)) hs hflow hgap
    apply hflow₁.poll_leads hs hgrown.agree.s_eq
    · intro c₂ hs₂ hflow₂ _
      apply IrqLeads.refl
      exact .inl ⟨rfl, hs₂, hflow₂⟩
    · intro c₂ havailable
      apply IrqLeads.refl
      exact .inr ⟨rfl, havailable⟩

/-- A call of `__chrin` that has returned has waited for a character and has taken it. -/
theorem Flow.chrin_returned {rest : List (Line Serial.Label)} (hs : 6 ≤ c.1.s.toNat)
    (hflow : k.Flow taken c)
    (hrun : Relation.ReflTransGen (Preempted k.serial.code k.Gap) (goto k.serial.code .chrin, c)
      (.rts :: rest, c')) :
  ∃ b, k.Returned taken b c.1.s c'
  := by
  have hstart : k.Waiting taken c.1.s (goto k.serial.code .chrin, c) := ⟨rfl, rfl, hflow⟩
  obtain ⟨⟨pos, c₁⟩, ⟨hpos, havailable⟩, hrun'⟩ :=
    Inevitably.loop (fun _ => Waiting.round hs) hstart hrun fun q => not_preempted rfl
  have hgoto : goto k.serial.code .chrinHaveChar = .label .chrinHaveChar
      :: .op (.lda (.absX k.serial.serialRxBuffer)) :: .op (.ldx (.imm 0)) :: .rts
      :: k.serial.chrinNoWait := rfl
  have hleads := havailable.takeChar_leads hs hgoto
  dsimp only at hpos
  rw [← hpos] at hleads
  exact (hleads.of_rts k.resume_serial (fun r hr => hr.1) hrun' rfl).2

/-! ### Every run -/

/-- The machine with the sender, and the characters that calls have returned. -/
structure Console where
  cpu : Cpu
  sender : Sender
  returned : List Word

inductive ConsoleAction where
  | delivery
  | program
  | call (l : Serial.Label)

/-- The steps: what may happen between two instructions, any change of the state of the processor that does
not concern the port, and the calls with all that happens during them. -/
inductive ConsoleStep (k : Link) : Console → ConsoleAction → Console → Prop where
  | delivery {cpu : Cpu} {sender : Sender} {returned : List Word} {c : Cpu × Sender} :
      k.Delivery (cpu, sender) c → ConsoleStep k ⟨cpu, sender, returned⟩ .delivery ⟨c.1, c.2, returned⟩
  | program {cpu cpu' : Cpu} {sender : Sender} {returned : List Word} :
      k.serial.Same cpu.mem cpu'.mem →
      ConsoleStep k ⟨cpu, sender, returned⟩ .program ⟨cpu', sender, returned⟩
  | call {cpu : Cpu} {sender : Sender} {returned : List Word} {l : Serial.Label}
      {rest : List (Line Serial.Label)} {c : Cpu × Sender} : Serial.Link.IsRead l →
      Relation.ReflTransGen (Preempted k.serial.code k.Gap) (goto k.serial.code l, cpu, sender)
        (.rts :: rest, c) →
      ConsoleStep k ⟨cpu, sender, returned⟩ (.call l) ⟨c.1, c.2,
        if Serial.result c.1 = -1 then returned else returned ++ [Serial.result c.1]⟩

/-- The machine with an empty ring and with the sender enabled. -/
def console (k : Link) : System Console ConsoleAction where
  start s := s.cpu.mem k.serial.serialRxIn = s.cpu.mem k.serial.serialRxOut
    ∧ s.cpu.mem ACIA_CMD = 0x09 ∧ s.sender.world.received = [] ∧ s.returned = []
  step := k.ConsoleStep

/-- There is room on the stack for an interrupt. -/
def ConsoleRoom (s : Console) (_ : ConsoleAction) : Prop :=
  6 ≤ s.cpu.s.toNat

/-- The characters that were returned are those that were taken from the ring. -/
def InOrder (k : Link) (s : Console) : Prop :=
  ∃ taken : List Byte, s.returned = taken.map Serial.toInt ∧ k.Flow taken (s.cpu, s.sender)

/-- The character is returned in order. -/
theorem Returned.inOrder {returned : List Word} (h : k.Returned taken b s c)
    (hreturned : returned = taken.map Serial.toInt) :
  k.InOrder ⟨c.1, c.2, if Serial.result c.1 = -1 then returned else returned ++ [Serial.result c.1]⟩
  := by
  refine ⟨taken ++ [b], ?_, h.flow⟩
  dsimp only
  rw [Serial.Link.result_eq h.a_eq h.x_eq, if_neg (Serial.Link.toInt_ne b), hreturned,
    List.map_append, List.map_singleton]

/-- Nothing is returned from an empty buffer. -/
theorem Empty.inOrder {returned : List Word} (h : k.Empty taken n s c)
    (hreturned : returned = taken.map Serial.toInt) :
  k.InOrder ⟨c.1, c.2, if Serial.result c.1 = -1 then returned else returned ++ [Serial.result c.1]⟩
  := by
  have hresult : Serial.result c.1 = -1 := by
    rw [Serial.result, h.a_eq, h.x_eq]
    decide
  exact ⟨taken, by rw [if_pos hresult, hreturned], h.flow⟩

/-- A step keeps the characters in order. -/
theorem ConsoleStep.inOrder {s s' : Console} {action : ConsoleAction} (hroom : ConsoleRoom s action)
    (h : k.InOrder s) (hstep : k.ConsoleStep s action s') :
  k.InOrder s'
  := by
  obtain ⟨taken, hreturned, hflow⟩ := h
  cases hstep with
  | @delivery cpu sender returned c hdelivery =>
      exact ⟨taken, hreturned, (Delivery.flow (c := (cpu, sender)) hroom hflow hdelivery).1⟩
  | @program cpu cpu' sender returned hsame =>
      refine ⟨taken, hreturned, ⟨?_, ?_⟩⟩
      · dsimp only
        rw [hsame.ring_eq]
        exact hflow.received_eq
      · dsimp only
        rw [hsame.cmd, hsame.ring_eq]
        exact hflow.cmd
  | @call cpu sender returned l rest c hread hrun =>
      obtain rfl | rfl := hread
      · obtain ⟨b, hb⟩ := Flow.chrin_returned (c := (cpu, sender)) hroom hflow hrun
        exact hb.inOrder hreturned
      · have hleads := Flow.chrinNoWait_leads (c := (cpu, sender)) hroom hflow
        obtain ⟨-, ⟨b, hb⟩ | hempty⟩ := hleads.of_rts k.resume_serial (fun r hr => hr.1) hrun rfl
        · exact hb.inOrder hreturned
        · exact hempty.inOrder hreturned

/-- What holds in every state that a run has come to. -/
structure Served (k : Link) (s : Console) : Prop where
  /-- The characters that were returned, and those in the ring, are the bytes that have arrived. -/
  received_eq : s.sender.world.received.map Serial.toInt
    = s.returned ++ (k.serial.ring s.cpu.mem).map Serial.toInt
  /-- A call of `__chrin_no_wait` returns; if it returns -1, then all bytes that had arrived before the call
  were returned. -/
  chrinNoWait : 6 ≤ s.cpu.s.toNat → IrqLeads k.serial.code k.Gap
    (goto k.serial.code .chrinNoWait, s.cpu, s.sender) fun q => q.1.head? = some .rts
      ∧ (Serial.result q.2.1 = -1 → s.sender.world.received.length = s.returned.length)
  /-- A call of `__chrin` returns if there is a byte that was not returned. -/
  chrin : 6 ≤ s.cpu.s.toNat → s.returned.length < s.sender.world.received.length →
    IrqLeads k.serial.code k.Gap (goto k.serial.code .chrin, s.cpu, s.sender) fun q =>
      q.1.head? = some .rts ∧ Serial.result q.2.1 ≠ -1

/-- Characters in order are served. -/
theorem InOrder.served {s : Console} (h : k.InOrder s) : k.Served s := by
  obtain ⟨taken, hreturned, hflow⟩ := h
  have hreceived := hflow.received_eq
  have hlength : s.returned.length = taken.length := by rw [hreturned, List.length_map]
  dsimp only at hreceived
  constructor
  case received_eq => rw [hreceived, hreturned, List.map_append]
  case chrinNoWait =>
    intro hs
    apply (Flow.chrinNoWait_leads (c := (s.cpu, s.sender)) hs hflow).trans
    rintro q ⟨hrts, hq⟩
    apply IrqLeads.refl
    refine ⟨hrts, fun hresult => ?_⟩
    obtain ⟨b, hb⟩ | hempty := hq
    · rw [Serial.Link.result_eq hb.a_eq hb.x_eq] at hresult
      exact absurd hresult (Serial.Link.toInt_ne b)
    · have hle := hempty.received_le
      have hge := congrArg List.length hreceived
      rw [List.length_append] at hge
      dsimp only at hle
      omega
  case chrin =>
    intro hs hlt
    rw [hlength] at hlt
    apply (Flow.chrin_leads (c := (s.cpu, s.sender)) hs hflow hlt).trans
    rintro q ⟨hrts, b, hb⟩
    apply IrqLeads.refl
    refine ⟨hrts, ?_⟩
    rw [Serial.Link.result_eq hb.a_eq hb.x_eq]
    exact Serial.Link.toInt_ne b

end Link

open Link

/-- In every run no byte is lost, duplicated or overwritten, however the calls are interrupted. -/
theorem Link.served_of_reachable {k : Link} {s : Console}
    (hreach : k.console.Reachable ConsoleRoom s) :
  k.Served s
  := by
  apply InOrder.served
  apply hreach.invariant
  · rintro s ⟨hempty, hcmd, hreceived, hreturned⟩
    have hring := Serial.Link.ring_eq_nil hempty
    refine ⟨[], hreturned, ?_, .inl ⟨hcmd, ?_⟩⟩
    · dsimp only
      rw [hring, hreceived]
      rfl
    · dsimp only
      rw [hring]
      decide
  · intro s action s' hinOrder hroom hstep
    exact hstep.inOrder hroom hinOrder

/-- A byte arrives, and is read by `__chrin`. -/
theorem served_of_reachable_chrin :
  ∃ s, link0400.console.Reachable ConsoleRoom s ∧ s.returned.length = 1 ∧ link0400.Served s
  := by
  obtain ⟨cpu, hcpu⟩ : ∃ cpu, cpu = Cpu.ofMemory Serial.portEmpty.mem := ⟨_, rfl⟩
  have hs : 6 ≤ cpu.s.toNat := by
    rw [hcpu]
    decide
  have hcmd : cpu.mem ACIA_CMD = 0x09 := by
    rw [hcpu]
    rfl
  have hstart : link0400.console.Reachable ConsoleRoom ⟨cpu, ⟨⟨expiredTimer, 1, 0, []⟩, 0⟩, []⟩ := by
    refine .start ⟨?_, hcmd, rfl, rfl⟩
    dsimp only
    rw [hcpu]
    rfl
  obtain ⟨c, hevent, -, hreceived⟩ := link0400.exists_event cpu ⟨expiredTimer, 1, 0, []⟩ 0x88 0x41 0
    (le_trans (by decide) hs) (by
      rw [hcpu]
      rfl)
  rw [if_pos (by decide)] at hreceived
  have hs' : 6 ≤ c.1.s.toNat := by
    have hagree := hevent.agree (c := (cpu, _)) hs
    rw [hagree.s_eq]
    exact hs
  have hdelivery : link0400.Delivery (cpu, ⟨⟨expiredTimer, 1, 0, []⟩, 0⟩) _ :=
    .arrival hevent hreceived (.inl hcmd)
  have hreach := hstart.step hs (.delivery hdelivery)
  have hlt : ([] : List Word).length < c.2.received.length := by
    rw [hreceived]
    decide
  obtain ⟨⟨lines, c'⟩, hrun, hrts, hresult⟩ :=
    ((Link.served_of_reachable hreach).chrin hs' hlt).exists_run
  obtain ⟨rest, rfl⟩ := List.head?_eq_some_iff.mp hrts
  have hcall := hreach.step hs' (.call (.inl rfl) hrun)
  refine ⟨_, hcall, ?_, Link.served_of_reachable hcall⟩
  dsimp only at hresult ⊢
  rw [if_neg hresult]
  rfl

end Mosnix.Trap
