import Mosnix.Lib.Mos6502Irq
import Mosnix.Target.Interrupt

/-!
# Programs and interrupts

Between any two instructions of a program the timer goes on and may expire, and interrupts may be
handled if they are enabled.  The ghost state has the number of expirations of the timer, the number
of those that were handled, and the bytes that were taken from the ACIA.

A program that does not use the bytes of the interrupt handler, nor the free part of the stack, does
not notice the interrupts (`agree_of_interrupted`).
-/

namespace Mosnix.Trap

open Mos6502
open Systick (Timer timer)
open Serial (ACIA_DATA ACIA_STATUS ACIA_CMD)

/-- The timer, the number of its expirations, the number of those that were handled, and the bytes that
`__serial_isr` has taken. -/
structure World where
  timer : Timer
  expirations : ℕ
  handled : ℕ
  received : List Byte

/-- The timer expires. -/
def World.expire (w : World) : World :=
  { w with
    timer := { w.timer with started := false, expired := true }
    expirations := w.expirations + 1 }

namespace Link

variable {k : Link} {c c' : Cpu × World}

/-- The state of the processor when the ACIA has a status and a byte. -/
def present (cpu : Cpu) (status data : Byte) : Cpu :=
  (cpu.poke ACIA_STATUS status).poke ACIA_DATA data

/-- What may happen between two instructions: the timer counts, or expires, or an interrupt is
handled. -/
inductive Event (k : Link) : Cpu × World → Cpu × World → Prop where
  | count {cpu : Cpu} {w : World} (n : Word) (flags : Byte) :
      Event k (cpu, w) (cpu, { w with timer := { w.timer with count := n, flags := flags } })
  | expire {cpu : Cpu} {w : World} : w.timer.started = true → Event k (cpu, w) (cpu, w.expire)
  | interrupt {cpu : Cpu} {w : World} (status data : Byte) (pc : Word) {rest : Code}
      {c : Cpu × Timer} : cpu.i = false →
      Relation.ReflTransGen (SysStep k.irqbrk)
        (SysLine.goto k.irqbrk .irqbrk, (present cpu status data).irq pc, w.timer)
        (.rti :: rest, c) →
      Event k (cpu, w) (c.1.rti.2,
        { timer := c.2
          expirations := w.expirations
          handled := w.handled + w.timer.expired.toNat
          received := if Serial.Link.Arrived status then w.received ++ [data] else w.received })

/-- The bytes that the interrupt handler changes, apart from the stack. -/
def footprint (k : Link) : Set Word :=
  {a | a ∈ k.systick.bytes} ∪ Systick.Link.registers ∪ (k.serialOutputs ∪ {ACIA_STATUS, ACIA_DATA})

/-- They are above the stack. -/
theorem footprint_ge {a : Word} (ha : a ∈ k.footprint) : 0x0200 ≤ a.toNat := by
  rcases ha with (hbytes | hmapped) | ((rfl | rfl | ⟨x, rfl⟩) | (rfl | rfl))
  · exact (k.systick.mem_bytes hbytes).1
  · by_contra hlt
    rw [Systick.Link.registers, Set.mem_ofPred_eq, Systick.Link.mapped_of_lt (by omega)] at hmapped
    cases hmapped
  · exact (k.serial_ram k.serial.serialRxIn List.mem_cons_self).1
  · decide
  · exact (k.buffer_ram x).1
  · decide
  · decide

/-- The stack is not in the footprint of the handlers. -/
theorem stackAddr_notMem (k : Link) (b : Byte) : Cpu.stackAddr b ∉ k.footprint := by
  intro hmem
  have := footprint_ge hmem
  have := stackAddr_lt b
  omega

/-- The free part of the stack has room for what an interrupt pushes. -/
theorem stackBytes_subset {s : Byte} (hs : 6 ≤ s.toNat) : stackBytes s ⊆ free s := by
  rintro a ⟨i, hi, rfl⟩
  exact ⟨s - BitVec.ofNat 8 i, by bv_omega, rfl⟩

/-- What happens between two instructions keeps the registers, and changes only bytes of the interrupt
handler and free bytes of the stack. -/
theorem Event.agree (hs : 6 ≤ c.1.s.toNat) (h : k.Event c c') : Agree k.footprint c.1 c'.1 := by
  cases h with
  | count n flags => apply Agree.refl
  | expire _ => apply Agree.refl
  | @interrupt cpu w status data pc rest c₁ hi hrun =>
      have hserviced := Serviced.of_run (k := k) (c := (present cpu status data, w.timer)) (by
        dsimp only [present, Cpu.poke] at hs ⊢
        omega) hrun
      dsimp only at hs ⊢
      rw [hserviced.rti_eq]
      refine ⟨rfl, ?_⟩
      intro a ha
      dsimp only
      rw [unstable, Set.compl_union] at ha
      have houtputs : a ∉ k.serialOutputs := fun hmem => ha.1 (.inr (.inl hmem))
      have hscratch : a ∉ k.scratch cpu.s := by
        rintro (hmem | hmem)
        · exact ha.1 (.inl hmem)
        · exact ha.2 (stackBytes_subset hs hmem)
      have hdata : a ≠ ACIA_DATA := by
        rintro rfl
        exact ha.1 (.inr (.inr (.inr rfl)))
      have hstatus : a ≠ ACIA_STATUS := by
        rintro rfl
        exact ha.1 (.inr (.inr (.inl rfl)))
      rw [hserviced.eqOn hscratch, k.received_eqOn _ houtputs]
      simp only [present, Cpu.poke]
      rw [Memory.store_of_ne hdata, Memory.store_of_ne hstatus]

/-- An interrupt is handled whenever interrupts are enabled. -/
theorem exists_event (k : Link) (cpu : Cpu) (w : World) (status data : Byte) (pc : Word)
    (hs : 5 ≤ cpu.s.toNat) (hi : cpu.i = false) :
  ∃ c, k.Event (cpu, w) c ∧ c.2.handled = w.handled + w.timer.expired.toNat
    ∧ c.2.received = if Serial.Link.Arrived status then w.received ++ [data] else w.received
  := by
  have hleads := k.irqbrk_leads pc (present cpu status data, w.timer) hs
  obtain ⟨⟨lines, c⟩, hrun, hrti, -⟩ := hleads.exists_run
  obtain ⟨rest, rfl⟩ := List.head?_eq_some_iff.mp hrti
  exact ⟨_, .interrupt status data pc hi hrun, rfl, rfl⟩

end Link

/-- A program that does not use the bytes of the interrupt handler, nor the free part of the stack, does
not notice interrupts: what it comes to is what it comes to alone, except for these bytes. -/
theorem Link.agree_of_interrupted {k : Link} {L : Type*} [DecidableEq L] {prog : List (Line L)}
    {p q : List (Line L) × Cpu × World}
    (halone : ∀ r, Run prog (p.1, p.2.1) r → Undisturbed k.footprint 6 r)
    (hrun : Relation.ReflTransGen (Interrupted prog k.Event) p q) :
  ∃ cpu, Run prog (p.1, p.2.1) (q.1, cpu) ∧ Agree k.footprint cpu q.2.1
  := by
  apply Agree.of_interrupted k.stackAddr_notMem _ halone hrun
  intro c c' hs hevent
  apply hevent.agree hs

/-- An interrupt between the two instructions of a program that saves `A` and restores it. -/
theorem agree_of_interrupted_pha :
  ∃ (cpu : Cpu) (w : World) (c : Cpu × World),
    Relation.ReflTransGen (Interrupted [Line.op .pha, .op .pla] link0400.Event)
      ([Line.op (L := Empty) .pha, .op .pla], cpu, w) ([], c)
    ∧ c.2.handled = 1
    ∧ ∃ cpu', Run [Line.op (L := Empty) .pha, .op .pla] ([.op .pha, .op .pla], cpu) ([], cpu')
      ∧ Agree link0400.footprint cpu' c.1
  := by
  obtain ⟨c, hevent, hhandled, -⟩ := link0400.exists_event ((Cpu.ofMemory fun _ => 0).push 0)
    ⟨expiredTimer, 1, 0, []⟩ 0 0 0 (by decide) rfl
  have hrun : Relation.ReflTransGen (Interrupted [Line.op .pha, .op .pla] link0400.Event)
      ([Line.op (L := Empty) .pha, .op .pla], Cpu.ofMemory fun _ => 0, ⟨expiredTimer, 1, 0, []⟩)
      ([], Op.pla.exec c.1, c.2) :=
    ((Relation.ReflTransGen.single (.exec rfl)).tail (.irq hevent)).tail (.exec rfl)
  refine ⟨_, _, _, hrun, hhandled, Link.agree_of_interrupted ?_ hrun⟩
  intro r hr
  rcases hr.cases_head with rfl | ⟨r₁, hr₁, hr⟩
  · refine ⟨by decide, ?_, by simp⟩
    rintro o ⟨⟩ m ⟨⟩
  cases hr₁
  rcases hr.cases_head with rfl | ⟨r₂, hr₂, hr⟩
  · refine ⟨by decide, ?_, by simp⟩
    rintro o ⟨⟩
    exact (by decide : (0xFE : Byte) ≠ 0xFF)
  cases hr₂
  rcases hr.cases_head with rfl | ⟨r₃, hr₃, -⟩
  · refine ⟨by decide, ?_, by simp⟩
    rintro o ⟨⟩
  · cases hr₃

end Mosnix.Trap
