import Mosnix.Lib.System
import Mosnix.Target.Interleaving

/-!
# The monotonic clock

The interrupt handler counts each expiration of the timer exactly once, and `sys_monoclock` reads the
count while interrupts come at any time.  In every run the count is the number of expirations that
were handled, at most one expiration is not handled yet, every reading of the clock is the count at a
time between its call and its return, and the readings do not decrease (`monotonic_of_reachable`).
-/

namespace Mosnix.Trap

open Mos6502
open Systick (Timer timer)
open Serial (ACIA_DATA ACIA_STATUS ACIA_CMD)

/-- An expiration that was not handled has stopped the timer. -/
structure World.Paced (w : World) : Prop where
  pending_eq : w.handled + w.timer.expired.toNat = w.expirations
  started_eq : w.timer.started = ! w.timer.expired

/-- The timer expires. -/
theorem World.Paced.expire {w : World} (h : w.Paced) (hstarted : w.timer.started = true) :
  w.expire.Paced
  := by
  have hfalse : w.timer.expired = false := by
    have := h.started_eq
    rw [hstarted] at this
    simpa using this.symm
  refine ⟨?_, rfl⟩
  rw [World.expire, ← h.pending_eq, hfalse]
  rfl

namespace Link

variable {k : Link} {c c' : Cpu × World} {p : Word}

/-- The number of ticks is the number of expirations that were handled. -/
structure Counted (k : Link) (c : Cpu × World) : Prop where
  ticks_eq : k.systick.ticks c.1.mem = c.2.handled % 2 ^ 40
  paced : c.2.Paced

/-! ### Counting -/

/-- The registers of the ACIA are not bytes of the number of ticks. -/
theorem present_ticks (k : Link) (cpu : Cpu) (status data : Byte) :
  k.systick.ticks (present cpu status data).mem = k.systick.ticks cpu.mem
  := by
  have hne (a : Word) (ha : 0x1000 ≤ a.toNat) : a ∉ k.systick.bytes := by
    intro hmem
    have := (k.systick.mem_bytes hmem).2
    omega
  rw [present, Cpu.poke, Cpu.poke, Systick.Link.ticks, Memory.number_store (hne _ (by decide)),
    Memory.number_store (hne _ (by decide))]
  rfl

/-- Each expiration is counted once. -/
theorem Event.counted (hs : 5 ≤ c.1.s.toNat) (hcounted : k.Counted c) (h : k.Event c c') :
  k.Counted c' ∧ c.2.handled ≤ c'.2.handled
  := by
  obtain ⟨hticks, hpaced⟩ := hcounted
  cases h with
  | count n flags => exact ⟨⟨hticks, hpaced.pending_eq, hpaced.started_eq⟩, le_rfl⟩
  | expire hstarted => exact ⟨⟨hticks, hpaced.expire hstarted⟩, le_rfl⟩
  | @interrupt cpu w status data pc rest c₁ hi hrun =>
      obtain ⟨hpending, hstarted⟩ := hpaced
      dsimp only at hticks hpending hstarted hs
      have hserviced := Serviced.of_run (k := k) (c := (present cpu status data, w.timer)) hs hrun
      have hpresent := k.present_ticks cpu status data
      refine ⟨?_, Nat.le_add_right _ _⟩
      cases hexpired : w.timer.expired with
      | false =>
          obtain ⟨htimer, hidle⟩ := hserviced.idle hexpired
          rw [hpresent, hticks] at hidle
          rw [hserviced.rti_eq]
          dsimp only at htimer
          refine ⟨?_, ?_, ?_⟩
          · dsimp only
            exact hidle
          · dsimp only
            rw [htimer, hexpired]
            rw [hexpired] at hpending
            exact hpending
          · dsimp only
            rw [htimer]
            exact hstarted
      | true =>
          obtain ⟨hrestarted, htick⟩ := hserviced.tick hexpired
          rw [hpresent, hticks] at htick
          rw [hserviced.rti_eq]
          refine ⟨?_, ?_, ?_⟩
          · dsimp only
            rw [htick, Nat.mod_add_mod]
            rfl
          · dsimp only
            rw [hrestarted.expired, ← hpending, hexpired]
            rfl
          · dsimp only
            rw [hrestarted.expired, hrestarted.started]
            rfl

/-- What may happen between two instructions. -/
def Between (k : Link) : Cpu × World → Cpu × World → Prop :=
  Relation.ReflTransGen k.Event

/-- What interrupts between two instructions change. -/
theorem Between.spec (hs : 6 ≤ c.1.s.toNat) (hcounted : k.Counted c) (h : k.Between c c') :
  Agree k.footprint c.1 c'.1 ∧ k.Counted c' ∧ c.2.handled ≤ c'.2.handled
  := by
  induction h with
  | refl => exact ⟨Agree.refl _ _, hcounted, le_rfl⟩
  | tail _ hevent ih =>
      obtain ⟨hagree, hcounted', hle⟩ := ih
      have hs' := hs
      rw [← hagree.s_eq] at hs'
      obtain ⟨hcounted'', hle'⟩ := hevent.counted (by omega) hcounted'
      exact ⟨hagree.trans (hevent.agree hs'), hcounted'', hle.trans hle'⟩

/-- While interrupts are disabled, only the timer goes on. -/
theorem Between.masked (hi : c.1.i = true) (h : k.Between c c') {n : ℕ}  :
  c'.1 = c.1 ∧ (c.2.Paced ∧ c.2.handled = n → c'.2.Paced ∧ c'.2.handled = n)
  := by
  induction h with
  | refl => exact ⟨rfl, id⟩
  | tail _ hevent ih =>
      obtain ⟨hcpu, hkeeps⟩ := ih
      cases hevent with
      | count n flags =>
          refine ⟨hcpu, fun hw => ?_⟩
          obtain ⟨hpaced, hhandled⟩ := hkeeps hw
          exact ⟨⟨hpaced.pending_eq, hpaced.started_eq⟩, hhandled⟩
      | expire hstarted =>
          refine ⟨hcpu, fun hw => ?_⟩
          obtain ⟨hpaced, hhandled⟩ := hkeeps hw
          exact ⟨hpaced.expire hstarted, hhandled⟩
      | interrupt status data pc hfalse _ =>
          dsimp only at hcpu
          rw [hcpu, hi] at hfalse
          cases hfalse

/-! ### Reading the clock -/

/-- The pointer in the imaginary registers 2 and 3 is `p`, and `Y` is `j`. -/
structure PointsTo (p : Word) (j : ℕ) (cpu : Cpu) : Prop where
  pointer_eq : cpu.mem 3 ++ cpu.mem 2 = p
  y_eq : cpu.y = BitVec.ofNat 8 j

theorem PointsTo.addr_eq {j : ℕ} {cpu : Cpu} (h : PointsTo p j cpu) (hj : j < 256) :
  (Mode.indY 2).addr cpu = p + BitVec.ofNat 16 j
  := by
  have hy : cpu.y.setWidth 16 = BitVec.ofNat 16 j := by
    rw [h.y_eq]
    bv_omega
  rw [← h.pointer_eq, ← hy]
  rfl

/-- The eight bytes at `p` are not used by interrupts, and the pointer is not among them. -/
def Buffer (k : Link) (p : Word) (s : Byte) : Prop :=
  ∀ i < 8, p + BitVec.ofNat 16 i ∉ k.footprint ∪ free s ∧ p + BitVec.ofNat 16 i ≠ 2
    ∧ p + BitVec.ofNat 16 i ≠ 3

/-- The state while bytes `b` are stored at `p`: `n` bytes are stored, and `Y` is `j`. -/
structure Filled (k : Link) (p : Word) (b : ℕ → Byte) (h n j : ℕ) (s a : Byte) (c : Cpu × World) :
    Prop where
  s_eq : c.1.s = s
  a_eq : c.1.a = a
  points : PointsTo p j c.1
  bytes : ∀ i < n, c.1.mem (p + BitVec.ofNat 16 i) = b i
  counted : k.Counted c
  handled_le : h ≤ c.2.handled

/-- The zero page is not used by interrupts. -/
theorem zeroPage_notMem {a : Word} (ha : a.toNat < 0x100) (s : Byte) : a ∉ k.footprint ∪ free s := by
  rintro (hmem | ⟨b, -, rfl⟩)
  · have := footprint_ge hmem
    omega
  · rw [Cpu.stackAddr_toNat] at ha
    omega

variable {b : ℕ → Byte} {h n j : ℕ} {s a : Byte}

/-- What happens between two instructions keeps what is stored. -/
theorem Filled.between (hbuffer : k.Buffer p s) (hs : 6 ≤ s.toNat) (hn : n ≤ 8)
    (hfilled : k.Filled p b h n j s a c) (hbetween : k.Between c c') :
  k.Filled p b h n j s a c'
  := by
  have hs' := hs
  rw [← hfilled.s_eq] at hs'
  obtain ⟨hagree, hcounted, hle⟩ := hbetween.spec hs' hfilled.counted
  have hmem {a : Word} (ha : a ∉ k.footprint ∪ free s) : c'.1.mem a = c.1.mem a := by
    rw [← hfilled.s_eq] at ha
    exact hagree.eqOn ha
  constructor
  · rw [hagree.s_eq, hfilled.s_eq]
  · rw [hagree.cpu_eq]
    exact hfilled.a_eq
  · constructor
    · rw [hmem (zeroPage_notMem (by decide) s), hmem (zeroPage_notMem (by decide) s)]
      exact hfilled.points.pointer_eq
    · rw [hagree.cpu_eq]
      exact hfilled.points.y_eq
  · intro i hi
    rw [hmem (hbuffer i (by omega)).1, hfilled.bytes i hi]
  · exact hcounted
  · exact hfilled.handled_le.trans hle

/-- Bytes of the buffer are at different addresses, and are not bytes of the number of ticks. -/
theorem buffer_ne {i i' : ℕ} (hi : i < 8) (hi' : i' < 8) (hne : i ≠ i') :
  p + BitVec.ofNat 16 i ≠ p + BitVec.ofNat 16 i'
  := by
  intro heq
  have := add_left_cancel heq
  bv_omega

section

variable (hbuffer : k.Buffer p s) (hs : 6 ≤ s.toNat) {rest : List (Line Systick.Label)}
  {Q : List (Line Systick.Label) × Cpu × World → Prop}

include hbuffer hs

/-- A byte is stored. -/
theorem Filled.sta (hfilled : k.Filled p b h j j s a c) (hj : j < 8) (hb : b j = a)
    (hleads : ∀ c', k.Filled p b h (j + 1) j s a c' → IrqLeads k.systick.code k.Between (rest, c') Q) :
  IrqLeads k.systick.code k.Between (.op (.sta (.indY 2)) :: rest, c) Q
  := by
  apply IrqLeads.op .refl
  intro c' hbetween
  have hfilled' := hfilled.between hbuffer hs (by omega) hbetween
  apply hleads
  obtain ⟨hnotMem, hne₂, hne₃⟩ := hbuffer j hj
  have hmem : ((Op.sta (.indY 2)).exec c'.1).mem = c'.1.mem.store (p + BitVec.ofNat 16 j) a := by
    rw [← hfilled'.points.addr_eq (by omega), ← hfilled'.a_eq]
    rfl
  have hticks : k.systick.ticks ((Op.sta (.indY 2)).exec c'.1).mem = k.systick.ticks c'.1.mem := by
    rw [hmem]
    apply Memory.number_store
    intro hbytes
    exact hnotMem (.inl (.inl (.inl hbytes)))
  constructor
  · exact hfilled'.s_eq
  · exact hfilled'.a_eq
  · constructor
    · rw [hmem, Memory.store_of_ne hne₂.symm, Memory.store_of_ne hne₃.symm]
      exact hfilled'.points.pointer_eq
    · exact hfilled'.points.y_eq
  · intro i hi
    rw [hmem]
    by_cases heq : i = j
    · rw [heq, Memory.store_self, hb]
    · rw [Memory.store_of_ne (buffer_ne (by omega) hj heq), hfilled'.bytes i (by omega)]
  · exact ⟨hticks.trans hfilled'.counted.ticks_eq, hfilled'.counted.paced⟩
  · exact hfilled'.handled_le

/-- The next byte. -/
theorem Filled.iny (hfilled : k.Filled p b h n j s a c) (hn : n ≤ 8)
    (hleads : ∀ c', k.Filled p b h n (j + 1) s a c' → IrqLeads k.systick.code k.Between (rest, c') Q) :
  IrqLeads k.systick.code k.Between (.op .iny :: rest, c) Q
  := by
  apply IrqLeads.op .refl
  intro c' hbetween
  have hfilled' := hfilled.between hbuffer hs hn hbetween
  apply hleads
  have hy : c'.1.y + 1 = BitVec.ofNat 8 (j + 1) := by
    rw [hfilled'.points.y_eq, BitVec.ofNat_add]
    rfl
  exact ⟨hfilled'.s_eq, hfilled'.a_eq, ⟨hfilled'.points.pointer_eq, hy⟩, hfilled'.bytes,
    ⟨hfilled'.counted.ticks_eq, hfilled'.counted.paced⟩, hfilled'.handled_le⟩

/-- The bytes after those that are counted are 0. -/
theorem Filled.lda (hfilled : k.Filled p b h n j s a c) (hn : n ≤ 8) (a' : Byte)
    (hleads : ∀ c', k.Filled p b h n j s a' c' → IrqLeads k.systick.code k.Between (rest, c') Q) :
  IrqLeads k.systick.code k.Between (.op (.lda (.imm a')) :: rest, c) Q
  := by
  apply IrqLeads.op .refl
  intro c' hbetween
  have hfilled' := hfilled.between hbuffer hs hn hbetween
  apply hleads
  exact ⟨hfilled'.s_eq, rfl, ⟨hfilled'.points.pointer_eq, hfilled'.points.y_eq⟩, hfilled'.bytes,
    ⟨hfilled'.counted.ticks_eq, hfilled'.counted.paced⟩, hfilled'.handled_le⟩

end

/-- A byte of the number of ticks is not in the buffer. -/
theorem tick_ne_buffer (hbuffer : k.Buffer p s) {a : Word} (ha : a ∈ k.systick.bytes) {i : ℕ}
    (hi : i < 8) :
  a ≠ p + BitVec.ofNat 16 i
  := by
  rintro rfl
  exact (hbuffer i hi).1 (.inl (.inl (.inl ha)))

/-- The instructions that copy a byte. -/
def copyByte (a : Word) : List Op :=
  [.lda (.abs a), .sta (.indY 2), .iny]

/-- The state after `n` bytes are copied. -/
structure Copied (k : Link) (p : Word) (b : ℕ → Byte) (n : ℕ) (cpu cpu' : Cpu) : Prop where
  points : PointsTo p n cpu'
  bytes : ∀ i < n, cpu'.mem (p + BitVec.ofNat 16 i) = b i
  eqOn : Set.EqOn cpu'.mem cpu.mem {a | a ∈ k.systick.bytes}
  s_eq : cpu'.s = cpu.s
  i_eq : cpu'.i = cpu.i

/-- The next byte is copied. -/
theorem Copied.next {cpu cpu' : Cpu} {a : Word} (hbuffer : k.Buffer p s)
    (hcopied : k.Copied p b n cpu cpu') (hn : n < 8) (ha : a ∈ k.systick.bytes)
    (hb : cpu.mem a = b n) :
  k.Copied p b (n + 1) cpu (run (copyByte a) cpu')
  := by
  obtain ⟨-, hne₂, hne₃⟩ := hbuffer n hn
  have hmem : (run (copyByte a) cpu').mem = cpu'.mem.store (p + BitVec.ofNat 16 n) (b n) := by
    rw [← hcopied.points.addr_eq (by omega), ← hb, ← hcopied.eqOn ha]
    rfl
  have hy : cpu'.y + 1 = BitVec.ofNat 8 (n + 1) := by
    rw [hcopied.points.y_eq, BitVec.ofNat_add]
    rfl
  refine ⟨⟨?_, hy⟩, ?_, ?_, hcopied.s_eq, hcopied.i_eq⟩
  · rw [hmem, Memory.store_of_ne hne₂.symm, Memory.store_of_ne hne₃.symm]
    exact hcopied.points.pointer_eq
  · intro i hi
    rw [hmem]
    by_cases heq : i = n
    · rw [heq, Memory.store_self]
    · rw [Memory.store_of_ne (buffer_ne (by omega) hn heq), hcopied.bytes i (by omega)]
  · intro a' ha'
    rw [hmem, Memory.store_of_ne (tick_ne_buffer hbuffer ha' hn), hcopied.eqOn ha']

/-- The instructions of `sys_monoclock` while interrupts are disabled. -/
def fetch (k : Link) : List Op :=
  copyByte k.systick.systickValue ++ (copyByte (k.systick.systickValue + 1)
    ++ (copyByte (k.systick.systickValue + 2) ++ (copyByte (k.systick.systickValue + 3)
      ++ [.lda (.abs (k.systick.systickValue + 4))])))

theorem goto_sysMonoclock (k : Link) :
  goto k.systick.code .sysMonoclock
    = .label .sysMonoclock :: .op (.ldy (.imm 0)) :: .op .sei :: (k.fetch.map .op ++ .op .cli
      :: .op (.sta (.indY 2)) :: .op .iny :: .op (.lda (.imm 0)) :: .op (.sta (.indY 2)) :: .op .iny
      :: .op (.sta (.indY 2)) :: .op .iny :: .op (.sta (.indY 2)) :: .rts :: k.systick.sysClock)
  := rfl

/-- The bytes of the number of ticks, extended to 64 bits. -/
def tickBytes (k : Link) (m : Memory) (i : ℕ) : Byte :=
  (k.systick.bytes.map m).getD i 0

/-- Four bytes are in the buffer and the fifth is in `A` when interrupts are enabled again. -/
theorem run_fetch {cpu : Cpu} (hbuffer : k.Buffer p s) (hpoints : PointsTo p 0 cpu) :
  k.Copied p (k.tickBytes cpu.mem) 4 cpu (run k.fetch cpu)
    ∧ (run k.fetch cpu).a = k.tickBytes cpu.mem 4
  := by
  have hbytes : k.systick.bytes = [k.systick.systickValue, k.systick.systickValue + 1,
    k.systick.systickValue + 2, k.systick.systickValue + 3, k.systick.systickValue + 4] := rfl
  have h₀ : k.Copied p (k.tickBytes cpu.mem) 0 cpu cpu :=
    ⟨hpoints, fun i hi => absurd hi (Nat.not_lt_zero i), Set.eqOn_refl _ _, rfl, rfl⟩
  have h₁ := h₀.next (a := k.systick.systickValue) hbuffer (by decide) (by simp [hbytes]) rfl
  have h₂ := h₁.next (a := k.systick.systickValue + 1) hbuffer (by decide) (by simp [hbytes]) rfl
  have h₃ := h₂.next (a := k.systick.systickValue + 2) hbuffer (by decide) (by simp [hbytes]) rfl
  have h₄ := h₃.next (a := k.systick.systickValue + 3) hbuffer (by decide) (by simp [hbytes]) rfl
  have hrun : run k.fetch cpu = (Op.lda (.abs (k.systick.systickValue + 4))).exec
      (run (copyByte (k.systick.systickValue + 3)) (run (copyByte (k.systick.systickValue + 2))
        (run (copyByte (k.systick.systickValue + 1)) (run (copyByte k.systick.systickValue) cpu)))) :=
    rfl
  rw [hrun]
  generalize run (copyByte (k.systick.systickValue + 3)) _ = cpu₄ at h₄ ⊢
  refine ⟨⟨⟨h₄.points.pointer_eq, h₄.points.y_eq⟩, h₄.bytes, h₄.eqOn, h₄.s_eq, h₄.i_eq⟩, ?_⟩
  have hmem : k.systick.systickValue + 4 ∈ k.systick.bytes := by simp [hbytes]
  exact h₄.eqOn hmem

theorem fetch_keeps_i : ∀ o ∈ k.fetch, ∀ cpu, (o.exec cpu).i = cpu.i := by
  intro o ho cpu
  simp only [fetch, copyByte, List.mem_append, List.mem_cons, List.not_mem_nil, or_false] at ho
  rcases ho with (rfl | rfl | rfl) | (rfl | rfl | rfl) | (rfl | rfl | rfl) | (rfl | rfl | rfl) | rfl <;>
    rfl

/-- The addresses of a number of 64 bits. -/
def buffer (p : Word) : List Word :=
  (List.range 8).map fun i => p + BitVec.ofNat 16 i

/-- The number in a buffer that was filled. -/
theorem number_buffer {m m' : Memory}
    (hbytes : ∀ i < 8, m (p + BitVec.ofNat 16 i) = k.tickBytes m' i) :
  m.number (buffer p) = k.systick.ticks m'
  := by
  have hbuffer : buffer p = [p + BitVec.ofNat 16 0, p + BitVec.ofNat 16 1, p + BitVec.ofNat 16 2,
    p + BitVec.ofNat 16 3, p + BitVec.ofNat 16 4, p + BitVec.ofNat 16 5, p + BitVec.ofNat 16 6,
    p + BitVec.ofNat 16 7] := rfl
  simp only [hbuffer, Memory.number, hbytes 0 (by decide), hbytes 1 (by decide),
    hbytes 2 (by decide), hbytes 3 (by decide), hbytes 4 (by decide), hbytes 5 (by decide),
    hbytes 6 (by decide), hbytes 7 (by decide)]
  rfl

/-- The rest of the number is stored while interrupts are enabled. -/
theorem Filled.rest_leads {m : Memory} {rest : List (Line Systick.Label)}
    {Q : List (Line Systick.Label) × Cpu × World → Prop} (hbuffer : k.Buffer p s) (hs : 6 ≤ s.toNat)
    (hfilled : k.Filled p (k.tickBytes m) h 4 4 s (k.tickBytes m 4) c)
    (hleads : ∀ c', k.Filled p (k.tickBytes m) h 8 7 s 0 c' →
      IrqLeads k.systick.code k.Between (rest, c') Q) :
  IrqLeads k.systick.code k.Between (.op (.sta (.indY 2)) :: .op .iny :: .op (.lda (.imm 0))
    :: .op (.sta (.indY 2)) :: .op .iny :: .op (.sta (.indY 2)) :: .op .iny :: .op (.sta (.indY 2))
    :: rest, c) Q
  := by
  apply hfilled.sta hbuffer hs (by decide) rfl
  intro c₁ hfilled₁
  apply hfilled₁.iny hbuffer hs (by decide)
  intro c₂ hfilled₂
  apply hfilled₂.lda hbuffer hs (by decide)
  intro c₃ hfilled₃
  apply hfilled₃.sta hbuffer hs (by decide) rfl
  intro c₄ hfilled₄
  apply hfilled₄.iny hbuffer hs (by decide)
  intro c₅ hfilled₅
  apply hfilled₅.sta hbuffer hs (by decide) rfl
  intro c₆ hfilled₆
  apply hfilled₆.iny hbuffer hs (by decide)
  intro c₇ hfilled₇
  apply hfilled₇.sta hbuffer hs (by decide) rfl
  exact hleads

/-- `sys_monoclock` returns the number of ticks at a time between its call and its return, however it is
interrupted. -/
theorem sysMonoclock_leads (hbuffer : k.Buffer p c.1.s) (hs : 6 ≤ c.1.s.toNat)
    (hp : c.1.mem 3 ++ c.1.mem 2 = p) (hcounted : k.Counted c) :
  IrqLeads k.systick.code k.Between (goto k.systick.code .sysMonoclock, c) fun q =>
    q.1.head? = some .rts ∧ q.2.1.s = c.1.s ∧ k.Counted q.2 ∧ ∃ h, c.2.handled ≤ h
      ∧ h ≤ q.2.2.handled ∧ q.2.1.mem.number (buffer p) = h % 2 ^ 40
  := by
  obtain ⟨s, hs'⟩ : ∃ s, s = c.1.s := ⟨_, rfl⟩
  rw [← hs'] at hbuffer hs ⊢
  rw [goto_sysMonoclock]
  have hfilled : k.Filled p (fun _ => 0) c.2.handled 0 c.1.y.toNat s c.1.a c := by
    refine ⟨hs'.symm, rfl, ⟨hp, by simp⟩, ?_, hcounted, le_rfl⟩
    intro i hi
    exact absurd hi (Nat.not_lt_zero i)
  apply IrqLeads.label .refl
  intro c₁ hc₁
  have hfilled₁ := hfilled.between hbuffer hs (by decide) hc₁
  apply IrqLeads.op .refl
  intro c₂ hc₂
  have hfilled₂ := hfilled₁.between hbuffer hs (by decide) hc₂
  apply IrqLeads.op .refl
  intro c₃ hc₃
  have hfilled₃ : k.Filled p (fun _ => 0) c.2.handled 0 0 s c.1.a c₃ := by
    apply Filled.between hbuffer hs (by decide) _ hc₃
    exact ⟨hfilled₂.s_eq, hfilled₂.a_eq, ⟨hfilled₂.points.pointer_eq, rfl⟩, hfilled₂.bytes,
      ⟨hfilled₂.counted.ticks_eq, hfilled₂.counted.paced⟩, hfilled₂.handled_le⟩
  obtain ⟨cpu, w⟩ := c₃
  have hpoints : PointsTo p 0 (Op.sei.exec cpu) :=
    ⟨hfilled₃.points.pointer_eq, hfilled₃.points.y_eq⟩
  obtain ⟨hcopied, ha⟩ := run_fetch hbuffer hpoints
  apply IrqLeads.masked (W := fun w' => w'.Paced ∧ w'.handled = w.handled) k.fetch fetch_keeps_i
    (fun _ => .refl) (fun c c' hi hbetween => hbetween.masked hi) rfl ⟨hfilled₃.counted.paced, rfl⟩
  intro w' hw'
  obtain ⟨cpu', hcpu'⟩ : ∃ cpu', cpu' = run k.fetch (Op.sei.exec cpu) := ⟨_, rfl⟩
  dsimp only
  rw [← hcpu'] at hcopied ha ⊢
  apply IrqLeads.op .refl
  intro c₄ hc₄
  obtain ⟨hcpu₄, hw₄⟩ := hc₄.masked hcopied.i_eq (n := w.handled)
  obtain ⟨hpaced, hhandled⟩ := hw₄ hw'
  have hticks : k.systick.ticks cpu'.mem = c₄.2.handled % 2 ^ 40 := by
    rw [hhandled, ← hfilled₃.counted.ticks_eq]
    exact Memory.number_congr hcopied.eqOn
  have hfilled₄ : k.Filled p (k.tickBytes cpu.mem) w.handled 4 4 s (k.tickBytes cpu.mem 4)
      (Op.cli.exec c₄.1, c₄.2) := by
    rw [hcpu₄]
    exact ⟨hcopied.s_eq.trans hfilled₃.s_eq, ha,
      ⟨hcopied.points.pointer_eq, hcopied.points.y_eq⟩, hcopied.bytes, ⟨hticks, hpaced⟩, hhandled.ge⟩
  apply hfilled₄.rest_leads hbuffer hs
  intro c₅ hfilled₅
  apply IrqLeads.refl
  refine ⟨rfl, hfilled₅.s_eq, hfilled₅.counted, w.handled, hfilled₃.handled_le, hfilled₅.handled_le, ?_⟩
  rw [number_buffer hfilled₅.bytes]
  exact hfilled₃.counted.ticks_eq

theorem goto_sysClock (k : Link) :
  goto k.systick.code .sysClock
    = .label .sysClock :: .op .sei :: ([Op.lda (.abs k.systick.systickValue),
      Op.ldx (.abs (k.systick.systickValue + 1))].map .op ++ [.op .cli, .rts])
  := rfl

/-- The low bytes of the number of ticks. -/
theorem low_toNat (k : Link) (m : Memory) :
  (m (k.systick.systickValue + 1) ++ m k.systick.systickValue).toNat = k.systick.ticks m % 2 ^ 16
  := by
  rw [append_toNat]
  simp only [Systick.Link.ticks, Systick.Link.bytes, Memory.number]
  have h₀ := (m k.systick.systickValue).isLt
  have h₁ := (m (k.systick.systickValue + 1)).isLt
  omega

/-- `sys_clock` returns the low bytes of the number of ticks at a time between its call and its
return. -/
theorem sysClock_leads (hs : 6 ≤ c.1.s.toNat) (hcounted : k.Counted c) :
  IrqLeads k.systick.code k.Between (goto k.systick.code .sysClock, c) fun q =>
    q.1.head? = some .rts ∧ q.2.1.s = c.1.s ∧ k.Counted q.2 ∧ ∃ h, c.2.handled ≤ h
      ∧ h ≤ q.2.2.handled ∧ (q.2.1.x ++ q.2.1.a).toNat = h % 2 ^ 16
  := by
  rw [goto_sysClock]
  apply IrqLeads.label .refl
  intro c₁ hc₁
  obtain ⟨hagree₁, hcounted₁, hle₁⟩ := hc₁.spec hs hcounted
  apply IrqLeads.op .refl
  intro c₂ hc₂
  obtain ⟨hagree₂, hcounted₂, hle₂⟩ := hc₂.spec (by rwa [hagree₁.s_eq]) hcounted₁
  apply IrqLeads.masked (W := fun w => w.Paced ∧ w.handled = c₂.2.handled) _ _ (fun _ => .refl)
    (fun c c' hi hbetween => hbetween.masked hi) rfl ⟨hcounted₂.paced, rfl⟩
  · intro w hw
    apply IrqLeads.op .refl
    intro c₃ hc₃
    obtain ⟨hcpu₃, hw₃⟩ := hc₃.masked rfl (n := c₂.2.handled)
    obtain ⟨hpaced, hhandled⟩ := hw₃ hw
    apply IrqLeads.refl
    rw [hcpu₃]
    refine ⟨rfl, hagree₂.s_eq.trans hagree₁.s_eq, ⟨?_, hpaced⟩, c₂.2.handled, hle₁.trans hle₂,
      hhandled.ge, ?_⟩
    · rw [hhandled]
      exact hcounted₂.ticks_eq
    · apply (k.low_toNat c₂.1.mem).trans
      rw [hcounted₂.ticks_eq]
      exact Nat.mod_mod_of_dvd _ (by decide)
  · simp only [List.mem_cons, List.not_mem_nil, or_false, forall_eq_or_imp, forall_eq]
    exact ⟨fun _ => rfl, fun _ => rfl⟩

/-! ### The clock over whole runs -/

/-- What a program has read. -/
inductive Reading where
  | monoclock (value : ℕ)
  | clock (value : Word)

/-- A reading of the clock when `h` expirations were handled. -/
def Reading.At (h : ℕ) : Reading → Prop
  | .monoclock value => value = h % 2 ^ 40
  | .clock value => value.toNat = h % 2 ^ 16

/-- The result of `sys_monoclock`. -/
def Reading.monoclock? : Reading → Option ℕ
  | .monoclock value => some value
  | .clock _ => none

/-- A call that reads the clock: its result, and the numbers of expirations that were handled when it
was called and when it returned. -/
structure Read where
  reading : Reading
  called : ℕ
  returned : ℕ

/-- The reading is of a time between the call and the return. -/
def Read.Between (r : Read) : Prop :=
  ∃ h, r.called ≤ h ∧ h ≤ r.returned ∧ r.reading.At h

/-- The machine, and the readings of the clock, with the last one first. -/
structure Clock where
  cpu : Cpu
  world : World
  reads : List Read

/-- The results of `sys_monoclock`. -/
def Clock.monoclocks (s : Clock) : List ℕ :=
  s.reads.filterMap fun r => r.reading.monoclock?

inductive Action where
  | event
  | program
  | monoclock (p : Word)
  | clock

/-- The steps: what may happen between two instructions, any change of the state of the processor except
for the number of ticks, and the two calls with all that happens during them. -/
inductive Step (k : Link) : Clock → Action → Clock → Prop where
  | event {cpu : Cpu} {w : World} {reads : List Read} {c : Cpu × World} :
      k.Event (cpu, w) c → Step k ⟨cpu, w, reads⟩ .event ⟨c.1, c.2, reads⟩
  | program {cpu cpu' : Cpu} {w : World} {reads : List Read} :
      (∀ a ∈ k.systick.bytes, cpu'.mem a = cpu.mem a) →
      Step k ⟨cpu, w, reads⟩ .program ⟨cpu', w, reads⟩
  | monoclock {cpu : Cpu} {w : World} {reads : List Read} {p : Word}
      {rest : List (Line Systick.Label)} {c : Cpu × World} :
      cpu.mem 3 ++ cpu.mem 2 = p → k.Buffer p cpu.s →
      Relation.ReflTransGen (Preempted k.systick.code k.Between)
        (goto k.systick.code .sysMonoclock, cpu, w) (.rts :: rest, c) →
      Step k ⟨cpu, w, reads⟩ (.monoclock p) ⟨c.1, c.2,
        ⟨.monoclock (c.1.mem.number (buffer p)), w.handled, c.2.handled⟩ :: reads⟩
  | clock {cpu : Cpu} {w : World} {reads : List Read} {rest : List (Line Systick.Label)}
      {c : Cpu × World} :
      Relation.ReflTransGen (Preempted k.systick.code k.Between)
        (goto k.systick.code .sysClock, cpu, w) (.rts :: rest, c) →
      Step k ⟨cpu, w, reads⟩ .clock ⟨c.1, c.2,
        ⟨.clock (c.1.x ++ c.1.a), w.handled, c.2.handled⟩ :: reads⟩

/-- The machine from the initialization of the timer on. -/
def clock (k : Link) : System Clock Action where
  start s := s.world.expirations = 0 ∧ s.world.handled = 0 ∧ s.reads = [] ∧ ∃ c,
    (s.cpu, s.world.timer) = k.systick.doInitSystick.foldl (fun c o => timer.exec o c) c
  step := k.Step

/-- There is room on the stack for an interrupt. -/
def Room (s : Clock) (_ : Action) : Prop :=
  6 ≤ s.cpu.s.toNat

/-- Every reading is the number of expirations that were handled at a time between its call and its
return, and the calls come one after the other. -/
structure Monotonic (k : Link) (s : Clock) : Prop where
  counted : k.Counted (s.cpu, s.world)
  between : ∀ r ∈ s.reads, r.Between
  returned_le : ∀ r ∈ s.reads, r.returned ≤ s.world.handled
  order : s.reads.Pairwise fun r r' => r'.returned ≤ r.called

theorem resume_systick (k : Link) (a : Word) : resume k.systick.code a = none := rfl

variable {s s' : Clock} {action : Action}

/-- A call after the other ones. -/
theorem Monotonic.read {cpu cpu' : Cpu} {w w' : World} {reads : List Read} {reading : Reading}
    {h : ℕ} (hmonotonic : k.Monotonic ⟨cpu, w, reads⟩) (hcounted : k.Counted (cpu', w'))
    (hle : w.handled ≤ h) (hle' : h ≤ w'.handled) (hat : reading.At h) :
  k.Monotonic ⟨cpu', w', ⟨reading, w.handled, w'.handled⟩ :: reads⟩
  := by
  have hbefore := hmonotonic.returned_le
  refine ⟨hcounted, ?_, ?_, List.pairwise_cons.mpr ⟨hbefore, hmonotonic.order⟩⟩
  · rw [List.forall_mem_cons]
    exact ⟨⟨h, hle, hle', hat⟩, hmonotonic.between⟩
  · rw [List.forall_mem_cons]
    refine ⟨le_rfl, ?_⟩
    intro r hr
    exact (hbefore r hr).trans (hle.trans hle')

/-- A step keeps the readings in order. -/
theorem Step.monotonic (hroom : Room s action) (hmonotonic : k.Monotonic s) (hstep : k.Step s action s') :
  k.Monotonic s'
  := by
  cases hstep with
  | event hevent =>
      obtain ⟨hcounted, hle⟩ := hevent.counted (le_trans (by decide) hroom) hmonotonic.counted
      exact ⟨hcounted, hmonotonic.between, fun r hr => (hmonotonic.returned_le r hr).trans hle,
        hmonotonic.order⟩
  | program hbytes =>
      obtain ⟨hticks, hpaced⟩ := hmonotonic.counted
      exact ⟨⟨(Memory.number_congr hbytes).trans hticks, hpaced⟩, hmonotonic.between,
        hmonotonic.returned_le, hmonotonic.order⟩
  | @monoclock cpu w reads p rest c hp hbuffer hrun =>
      have hleads := sysMonoclock_leads (c := (cpu, w)) hbuffer hroom hp hmonotonic.counted
      obtain ⟨-, -, hcounted, h, hle, hle', hvalue⟩ :=
        hleads.of_rts k.resume_systick (fun r hr => hr.1) hrun rfl
      exact hmonotonic.read hcounted hle hle' hvalue
  | @clock cpu w reads rest c hrun =>
      have hleads := sysClock_leads (c := (cpu, w)) hroom hmonotonic.counted
      obtain ⟨-, -, hcounted, h, hle, hle', hvalue⟩ :=
        hleads.of_rts k.resume_systick (fun r hr => hr.1) hrun rfl
      exact hmonotonic.read hcounted hle hle' hvalue

theorem Monotonic.start (h : k.clock.start s) : k.Monotonic s := by
  obtain ⟨hexpirations, hhandled, hreads, c, hc⟩ := h
  have hinit := k.systick.doInitSystick_initialized c
  rw [← hc] at hinit
  obtain ⟨hticks, htimer⟩ := hinit
  dsimp only at hticks htimer
  refine ⟨⟨?_, ?_, ?_⟩, ?_, ?_, ?_⟩
  · rw [hticks, hhandled]
    rfl
  · rw [hexpirations, hhandled, htimer]
    rfl
  · rw [htimer]
    rfl
  all_goals simp [hreads]

/-- Before the number of ticks overflows, the result of `sys_monoclock` is a time between its call and
its return. -/
theorem Read.Between.monoclock {r : Read} {value : ℕ} (h : r.Between)
    (hvalue : r.reading.monoclock? = some value) (hlt : r.returned < 2 ^ 40) :
  r.called ≤ value ∧ value ≤ r.returned
  := by
  obtain ⟨n, hle, hle', hat⟩ := h
  cases hreading : r.reading with
  | clock _ =>
      rw [hreading] at hvalue
      cases hvalue
  | monoclock value' =>
      rw [hreading] at hvalue hat
      cases hvalue
      obtain rfl : value = n := hat.trans (Nat.mod_eq_of_lt (hle'.trans_lt hlt))
      exact ⟨hle, hle'⟩

/-- Before the number of ticks overflows, the results of `sys_monoclock` do not decrease. -/
theorem Monotonic.monoclocks (h : k.Monotonic s) (hlt : s.world.handled < 2 ^ 40) :
  s.monoclocks.Pairwise (· ≥ ·)
  := by
  rw [Clock.monoclocks, List.pairwise_filterMap]
  apply h.order.imp_of_mem
  intro r r' hr hr' hle value hvalue value' hvalue'
  have hbound := (h.between r hr).monoclock hvalue ((h.returned_le r hr).trans_lt hlt)
  have hbound' := (h.between r' hr').monoclock hvalue' ((h.returned_le r' hr').trans_lt hlt)
  omega

end Link

open Link

/-- A buffer that interrupts do not use. -/
theorem buffer_link0400 (s : Byte) : link0400.Buffer 0x2000 s := by
  intro i hi
  have htoNat : (0x2000 + BitVec.ofNat 16 i : Word).toNat = 0x2000 + i := by bv_omega
  have hne {a : Word} (ha : a.toNat < 0x2000 ∨ 0x2008 ≤ a.toNat) : 0x2000 + BitVec.ofNat 16 i ≠ a := by
    rintro rfl
    omega
  refine ⟨?_, hne (.inl (by decide)), hne (.inl (by decide))⟩
  rintro (((hbytes | hregisters) | ((hin | hcmd | ⟨x, hslot⟩) | (hstatus | hdata))) | ⟨b, -, hstack⟩)
  · have := (link0400.systick.mem_bytes hbytes).2
    omega
  · simp only [Systick.Link.registers, Set.mem_ofPred_eq, timer, Bool.or_eq_true, beq_iff_eq] at hregisters
    rcases hregisters with (((h | h) | h) | h) | h
    all_goals exact hne (.inr (by decide)) h
  · exact hne (.inl (by decide)) hin
  · exact hne (.inr (by decide)) hcmd
  · have := (link0400.buffer_ram x).2
    exact hne (.inl (by omega)) hslot
  · exact hne (.inr (by decide)) hstatus
  · exact hne (.inr (by decide)) hdata
  · have := stackAddr_lt b
    exact hne (.inl (by omega)) hstack

/-- In every run the number of ticks is the number of expirations that were handled, of which at most one
is missing, the readings of the clock are of times between their calls and returns, and they do not
decrease. -/
theorem Link.monotonic_of_reachable {k : Link} {s : Clock} (hreach : k.clock.Reachable Room s) :
  k.Monotonic s ∧ s.world.handled ≤ s.world.expirations
    ∧ s.world.expirations ≤ s.world.handled + 1
    ∧ (s.world.expirations < 2 ^ 40 → s.monoclocks.Pairwise (· ≥ ·))
  := by
  have hmonotonic : k.Monotonic s := hreach.invariant (fun _ hstart => .start hstart)
    fun _ _ _ hmonotonic hroom hstep => hstep.monotonic hroom hmonotonic
  have hpending := hmonotonic.counted.paced.pending_eq
  have hle := Bool.toNat_le s.world.timer.expired
  dsimp only at hpending
  refine ⟨hmonotonic, by omega, by omega, ?_⟩
  intro hlt
  apply hmonotonic.monoclocks
  omega

/-- The timer expires, the interrupt is handled, and the clock is read. -/
theorem monotonic_of_reachable_read :
  ∃ s, link0400.clock.Reachable Room s ∧ s.monoclocks.length = 1 ∧ link0400.Monotonic s
  := by
  obtain ⟨⟨cpu, t⟩, hinit⟩ : ∃ c, c = link0400.systick.doInitSystick.foldl
    (fun c o => timer.exec o c) (Cpu.ofMemory fun _ => 0, expiredTimer) := ⟨_, rfl⟩
  have hcpu : cpu.s = 0xFF ∧ cpu.i = false := by
    have hfst := congrArg Prod.fst hinit
    dsimp only at hfst
    rw [hfst]
    exact ⟨rfl, rfl⟩
  have hs : 6 ≤ cpu.s.toNat := by
    rw [hcpu.1]
    decide
  have hstarted : t.started = true := by
    have htimer := (link0400.systick.doInitSystick_initialized
      (Cpu.ofMemory fun _ => 0, expiredTimer)).timer_eq
    rw [← hinit] at htimer
    dsimp only at htimer
    rw [htimer]
  have hstart : link0400.clock.Reachable Room ⟨cpu, ⟨t, 0, 0, []⟩, []⟩ :=
    .start ⟨rfl, rfl, rfl, _, hinit⟩
  have hexpired := hstart.step hs (.event (.expire hstarted))
  obtain ⟨c, hevent, -⟩ := link0400.exists_event cpu
    ⟨{ t with started := false, expired := true }, 1, 0, []⟩ 0 0 0 (le_trans (by decide) hs) hcpu.2
  have hhandled := hexpired.step hs (.event hevent)
  have hs' : 6 ≤ c.1.s.toNat := by
    have hagree := hevent.agree (c := (cpu, _)) hs
    rw [hagree.s_eq]
    exact hs
  obtain ⟨cpu₁, hcpu₁⟩ : ∃ cpu₁, cpu₁ = { c.1 with mem := (c.1.mem.store 3 0x20).store 2 0 } :=
    ⟨_, rfl⟩
  have hprogram : link0400.Step ⟨c.1, c.2, []⟩ .program ⟨cpu₁, c.2, []⟩ := by
    apply Step.program
    intro a ha
    have := (link0400.systick.mem_bytes ha).1
    rw [hcpu₁]
    dsimp only
    rw [Memory.store_of_ne, Memory.store_of_ne]
    all_goals
      rintro rfl
      contradiction
  have hp : cpu₁.mem 3 ++ cpu₁.mem 2 = (0x2000 : Word) := by
    rw [hcpu₁]
    dsimp only
    rw [Memory.store_of_ne (by decide), Memory.store_self, Memory.store_self]
    decide
  have hs₁ : 6 ≤ cpu₁.s.toNat := by
    rw [hcpu₁]
    exact hs'
  have hpointer := hhandled.step hs' hprogram
  have hleads := sysMonoclock_leads (c := (cpu₁, c.2)) (buffer_link0400 _) hs₁ hp
    (Link.monotonic_of_reachable hpointer).1.counted
  obtain ⟨⟨lines, c'⟩, hrun, hrts, -⟩ := hleads.exists_run
  obtain ⟨rest, rfl⟩ := List.head?_eq_some_iff.mp hrts
  have hread := hpointer.step hs₁ (.monoclock hp (buffer_link0400 _) hrun)
  exact ⟨_, hread, rfl, (Link.monotonic_of_reachable hread).1⟩

end Mosnix.Trap
