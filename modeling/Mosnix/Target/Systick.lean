import Mosnix.Lib.Mos6502Counter
import Mosnix.Machine

/-!
# The system tick timer

The routines of `systick.S`.  Timer T2 of the VIA counts down with the system clock, and sets an
interrupt flag when it has been started and passes 0.  `__systick_isr` counts these expirations in a
number of 40 bits, and starts the timer again; the new count is the one that the timer has come to,
plus the period, so that the time until the interrupt is handled is not lost.

The timer goes on while the routine reads it.  The number of cycles after each access of the counter
is arbitrary, but at most 20; it is 4 to 8 in the code.
-/

namespace Mosnix.Systick

open Mos6502

/-! ### The VIA -/

def VIA_T2CL : Word := 0x6008

def VIA_T2CH : Word := 0x6009

def VIA_ACR : Word := 0x600B

def VIA_IFR : Word := 0x600D

def VIA_IER : Word := 0x600E

def T2COUNT : Word := 3906

/-- The counter `e` cycles after it is `n`. -/
def after (n : Word) (e : Fin 21) : Word :=
  n - BitVec.ofNat 16 e

/-- Timer T2: the counter and the latch for its low byte, whether it has been started and will set its
interrupt flag, the interrupt flag, whether interrupts are enabled, the control register, the other
interrupt flags, and the cycles after each access of the counter that is to come. -/
structure Timer where
  count : Word
  latch : Byte
  started : Bool
  expired : Bool
  enabled : Bool
  control : Byte
  flags : Byte
  cycles : ℕ → Fin 21

namespace Timer

variable (t : Timer)

/-- The interrupt flags. -/
def ifr : Byte :=
  (t.flags &&& 0xDF) ||| if t.expired then 0x20 else 0

/-- The timer after the cycles that follow an access. -/
def pass : Timer :=
  { t with
    count := after t.count (t.cycles 0)
    cycles := fun i => t.cycles (i + 1) }

/-- The timer after the high byte, the low byte and again the high byte of the counter are read. -/
def reread : Timer :=
  { t.pass.pass.pass with expired := false }

theorem pass_count : t.pass.count = after t.count (t.cycles 0) := rfl

theorem pass_pass_count :
  t.pass.pass.count = after (after t.count (t.cycles 0)) (t.cycles 1)
  := rfl

theorem reread_count :
  t.reread.count = after (after (after t.count (t.cycles 0)) (t.cycles 1)) (t.cycles 2)
  := rfl

theorem reread_cycles (i : ℕ) : t.reread.cycles i = t.cycles (i + 3) := rfl

end Timer

/-- The timer as a device. -/
def timer : Device Timer where
  mapped a := a == VIA_T2CL || a == VIA_T2CH || a == VIA_ACR || a == VIA_IFR || a == VIA_IER
  read t a :=
    if a = VIA_T2CL then t.count.extractLsb' 0 8
    else if a = VIA_T2CH then t.count.extractLsb' 8 8
    else if a = VIA_ACR then t.control
    else if a = VIA_IFR then t.ifr
    else if t.enabled then 0xA0 else 0x80
  afterRead t a :=
    if a = VIA_T2CL then { t.pass with expired := false }
    else if a = VIA_T2CH then t.pass
    else t
  write t a b :=
    if a = VIA_T2CL then { t with latch := b }
    else if a = VIA_T2CH then { t with count := b ++ t.latch, started := true, expired := false }
    else if a = VIA_ACR then { t with control := b }
    else if a = VIA_IFR then { t with expired := t.expired && ! b.getLsbD 5 }
    else { t with enabled := if b.getLsbD 5 then b.msb else t.enabled }

/-! ### Reading the counter -/

theorem toNat_hi (w : Word) : (w.extractLsb' 8 8).toNat = w.toNat / 2 ^ 8 := by
  rw [BitVec.extractLsb'_toNat, Nat.shiftRight_eq_div_pow]
  omega

theorem toNat_lo (w : Word) : (w.extractLsb' 0 8).toNat = w.toNat % 2 ^ 8 := by
  rw [BitVec.extractLsb'_toNat, Nat.shiftRight_zero]

/-- The timer counts down modulo `2 ^ 16`. -/
theorem toNat_after (n : Word) (e : Fin 21) :
  (after n e).toNat = (n.toNat + 2 ^ 16 - e) % 2 ^ 16
  := by
  have he : (e : ℕ) % 2 ^ 16 = e := Nat.mod_eq_of_lt (by omega)
  have hsum : 2 ^ 16 - (e : ℕ) + n.toNat = n.toNat + 2 ^ 16 - e := by omega
  rw [after, BitVec.toNat_sub, BitVec.toNat_ofNat, he, hsum]

/-- A high byte and a low byte that are read one after the other belong together if the high byte has
not changed when it is read again. -/
theorem append_of_hi_eq {n : Word} {e₁ e₂ : Fin 21}
    (h : n.extractLsb' 8 8 = (after (after n e₁) e₂).extractLsb' 8 8) :
  n.extractLsb' 8 8 ++ (after n e₁).extractLsb' 0 8 = after n e₁
  := by
  have h' := congrArg BitVec.toNat h
  apply BitVec.eq_of_toNat_eq
  rw [append_toNat]
  simp only [toNat_hi, toNat_lo, toNat_after] at h' ⊢
  have hn := n.isLt
  have h₁ := e₁.isLt
  have h₂ := e₂.isLt
  omega

/-- After the high byte has changed, it does not change for some time. -/
theorem hi_eq_of_hi_ne {n : Word} {e₁ e₂ : Fin 21} (e₃ e₄ e₅ : Fin 21)
    (h : n.extractLsb' 8 8 ≠ (after (after n e₁) e₂).extractLsb' 8 8) :
  (after (after (after n e₁) e₂) e₃).extractLsb' 8 8
    = (after (after (after (after (after n e₁) e₂) e₃) e₄) e₅).extractLsb' 8 8
  := by
  have h' : (n.extractLsb' 8 8).toNat ≠ ((after (after n e₁) e₂).extractLsb' 8 8).toNat := by
    intro heq
    exact h (BitVec.eq_of_toNat_eq heq)
  apply BitVec.eq_of_toNat_eq
  simp only [toNat_hi, toNat_after] at h' ⊢
  have hn := n.isLt
  have h₁ := e₁.isLt
  have h₂ := e₂.isLt
  have h₃ := e₃.isLt
  have h₄ := e₄.isLt
  have h₅ := e₅.isLt
  omega

/-! ### The code -/

/-- The address of `__systick_value`, which the linker assigns in the RAM of the kernel.  The code that
initializes it stores to one byte after it. -/
structure Link where
  systickValue : Word
  ram_lo : 0x0200 ≤ systickValue.toNat
  ram_hi : systickValue.toNat + 5 < 0x1000

/-- The labels of the routines. -/
inductive Label where
  | systickIsr
  | systickIsrRestart
  | systickIsrEnd
  | sysMonoclock
  | sysClock
  deriving DecidableEq

namespace Link

variable (k : Link)

/-- `__do_init_systick` -/
def doInitSystick : List Op :=
  [ .lda (.imm 0),
    .sta (.abs k.systickValue),
    .sta (.abs (k.systickValue + 1)),
    .sta (.abs (k.systickValue + 2)),
    .sta (.abs (k.systickValue + 3)),
    .sta (.abs (k.systickValue + 4)),
    .sta (.abs (k.systickValue + 5)),
    .lda (.imm 0xA0),
    .sta (.abs VIA_IER),
    .lda (.imm 0x00),
    .sta (.abs VIA_ACR),
    .lda (.imm (T2COUNT.extractLsb' 0 8)),
    .sta (.abs VIA_T2CL),
    .lda (.imm (T2COUNT.extractLsb' 8 8)),
    .sta (.abs VIA_T2CH) ]

/-- `__systick_isr` -/
def systickIsr : List (Line Label) :=
  [ .label .systickIsr,
    .op (.lda (.abs VIA_IFR)),
    .op (.and (.imm 0x20)),
    .branch .eq .systickIsrEnd,
    .op (.inc (.abs k.systickValue)),
    .branch .ne .systickIsrRestart,
    .op (.inc (.abs (k.systickValue + 1))),
    .branch .ne .systickIsrRestart,
    .op (.inc (.abs (k.systickValue + 2))),
    .branch .ne .systickIsrRestart,
    .op (.inc (.abs (k.systickValue + 3))),
    .branch .ne .systickIsrRestart,
    .op (.inc (.abs (k.systickValue + 4))),
    .label .systickIsrRestart,
    .op (.ldx (.abs VIA_T2CH)),
    .op (.lda (.abs VIA_T2CL)),
    .op (.cpx (.abs VIA_T2CH)),
    .branch .ne .systickIsrRestart,
    .op .clc,
    .op (.adc (.imm ((T2COUNT - 24).extractLsb' 0 8))),
    .op (.sta (.abs VIA_T2CL)),
    .op .txa,
    .op (.adc (.imm ((T2COUNT - 24).extractLsb' 8 8))),
    .op (.sta (.abs VIA_T2CH)),
    .label .systickIsrEnd,
    .rts ]

/-- `sys_monoclock` -/
def sysMonoclock : List (Line Label) :=
  [ .label .sysMonoclock,
    .op (.ldy (.imm 0)),
    .op .sei,
    .op (.lda (.abs k.systickValue)),
    .op (.sta (.indY 2)),
    .op .iny,
    .op (.lda (.abs (k.systickValue + 1))),
    .op (.sta (.indY 2)),
    .op .iny,
    .op (.lda (.abs (k.systickValue + 2))),
    .op (.sta (.indY 2)),
    .op .iny,
    .op (.lda (.abs (k.systickValue + 3))),
    .op (.sta (.indY 2)),
    .op .iny,
    .op (.lda (.abs (k.systickValue + 4))),
    .op .cli,
    .op (.sta (.indY 2)),
    .op .iny,
    .op (.lda (.imm 0)),
    .op (.sta (.indY 2)),
    .op .iny,
    .op (.sta (.indY 2)),
    .op .iny,
    .op (.sta (.indY 2)),
    .rts ]

/-- `sys_clock` -/
def sysClock : List (Line Label) :=
  [ .label .sysClock,
    .op .sei,
    .op (.lda (.abs k.systickValue)),
    .op (.ldx (.abs (k.systickValue + 1))),
    .op .cli,
    .rts ]

/-- The routines of `systick.S`. -/
def code : List (Line Label) :=
  k.systickIsr ++ (k.sysMonoclock ++ k.sysClock)

/-! ### The number of ticks -/

/-- The addresses of the bytes of `__systick_value`. -/
def bytes : List Word :=
  [ k.systickValue, k.systickValue + 1, k.systickValue + 2, k.systickValue + 3, k.systickValue + 4 ]

/-- The number of ticks. -/
def ticks (m : Memory) : ℕ :=
  m.number k.bytes

theorem bytes_nodup : k.bytes.Nodup := by
  simp only [bytes, List.nodup_cons, List.mem_cons, List.not_mem_nil, or_false, not_or,
    not_false_eq_true, List.nodup_nil, and_true]
  bv_omega

/-- The bytes are in the RAM of the kernel. -/
theorem mem_bytes {a : Word} (ha : a ∈ k.bytes) : 0x0200 ≤ a.toNat ∧ a.toNat < 0x1000 := by
  have hlo := k.ram_lo
  have hhi := k.ram_hi
  simp only [bytes, List.mem_cons, List.not_mem_nil, or_false] at ha
  obtain rfl | rfl | rfl | rfl | rfl := ha
  all_goals bv_omega

/-- The registers of the VIA are not in the RAM of the kernel. -/
theorem mapped_of_lt {a : Word} (ha : a.toNat < 0x1000) : timer.mapped a = false := by
  have hne (b : Word) (hb : 0x1000 ≤ b.toNat) : (a == b) = false := by
    apply beq_eq_false_iff_ne.mpr
    rintro rfl
    omega
  simp only [timer, hne VIA_T2CL (by decide), hne VIA_T2CH (by decide), hne VIA_ACR (by decide),
    hne VIA_IFR (by decide), hne VIA_IER (by decide), Bool.or_false]

/-! ### The interrupt -/

/-- The registers of the VIA. -/
def registers : Set Word :=
  {a | timer.mapped a = true}

variable {k} {c : Cpu × Timer} {Q : List (Line Label) × Cpu × Timer → Prop}

/-- The code after the counter is read. -/
def restart : List (Line Label) :=
  [ .op .clc,
    .op (.adc (.imm ((T2COUNT - 24).extractLsb' 0 8))),
    .op (.sta (.abs VIA_T2CL)),
    .op .txa,
    .op (.adc (.imm ((T2COUNT - 24).extractLsb' 8 8))),
    .op (.sta (.abs VIA_T2CH)) ]

theorem goto_systickIsrEnd (k : Link) :
  goto k.code .systickIsrEnd = .label .systickIsrEnd :: .rts :: (k.sysMonoclock ++ k.sysClock)
  := rfl

theorem goto_systickIsrRestart (k : Link) :
  goto k.code .systickIsrRestart
    = .label .systickIsrRestart :: .op (.ldx (.abs VIA_T2CH)) :: .op (.lda (.abs VIA_T2CL))
      :: .op (.cpx (.abs VIA_T2CH)) :: .branch .ne .systickIsrRestart
      :: (restart ++ goto k.code .systickIsrEnd)
  := rfl

/-- The code of `systick_isr`. -/
theorem goto_systickIsr (k : Link) :
  goto k.code .systickIsr
    = .label .systickIsr :: .op (.lda (.abs VIA_IFR)) :: .op (.and (.imm 0x20))
      :: .branch .eq .systickIsrEnd
      :: (incChain .systickIsrRestart k.systickValue [k.systickValue + 1, k.systickValue + 2,
            k.systickValue + 3, k.systickValue + 4]
          ++ goto k.code .systickIsrRestart)
  := rfl

/-- The state after the timer is started with a count. -/
structure Started (n : Word) (c c' : Cpu × Timer) : Prop where
  y_eq : c'.1.y = c.1.y
  s_eq : c'.1.s = c.1.s
  eqOn : Set.EqOn c'.1.mem c.1.mem registersᶜ
  timer_eq : c'.2
    = { c.2 with count := n, latch := n.extractLsb' 0 8, started := true, expired := false }

/-- A sum of two bytes with a carry between them. -/
theorem append_sum (a₁ a₀ : Byte) (w : Word) :
  (sum a₁ (w.extractLsb' 8 8) (sum a₀ (w.extractLsb' 0 8) false).msb).setWidth 8
      ++ (sum a₀ (w.extractLsb' 0 8) false).setWidth 8
    = (a₁ ++ a₀) + w
  := by
  have h₀ := sum_toNat a₀ (w.extractLsb' 0 8) false
  have h₁ := sum_toNat a₁ (w.extractLsb' 8 8) (sum a₀ (w.extractLsb' 0 8) false).msb
  have hw := w.isLt
  apply BitVec.eq_of_toNat_eq
  rw [append_toNat, BitVec.toNat_add, append_toNat]
  rw [toNat_lo, Bool.toNat_false] at h₀
  rw [toNat_hi] at h₁
  omega

theorem sta_T2CL {rest : List (Line Label)}
    (h : timer.Leads k.code (rest, (Op.sta (.abs VIA_T2CL)).exec c.1, { c.2 with latch := c.1.a }) Q) :
  timer.Leads k.code (.op (.sta (.abs VIA_T2CL)) :: rest, c) Q
  := by
  apply Device.Leads.op
  rw [Device.exec_store (a := VIA_T2CL) rfl rfl rfl rfl]
  exact h

/-- A store to the high byte starts the timer. -/
theorem sta_T2CH {rest : List (Line Label)}
    (h : timer.Leads k.code (rest, (Op.sta (.abs VIA_T2CH)).exec c.1,
      { c.2 with count := c.1.a ++ c.2.latch, started := true, expired := false }) Q) :
  timer.Leads k.code (.op (.sta (.abs VIA_T2CH)) :: rest, c) Q
  := by
  apply Device.Leads.op
  rw [Device.exec_store (a := VIA_T2CH) rfl rfl rfl rfl]
  exact h

/-- The counter is set to the count in `X` and `A`, plus the period. -/
theorem restart_leads (k : Link) (c : Cpu × Timer) :
  timer.Leads k.code (restart ++ goto k.code .systickIsrEnd, c) fun q =>
    q.1.head? = some .rts ∧ Started ((c.1.x ++ c.1.a) + (T2COUNT - 24)) c q.2
  := by
  obtain ⟨cpu, t⟩ := c
  have hsum := append_sum cpu.x cpu.a (T2COUNT - 24)
  generalize hlo : (T2COUNT - 24).extractLsb' 0 8 = lo at hsum
  generalize hhi : (T2COUNT - 24).extractLsb' 8 8 = hi at hsum
  have hlatch : ((cpu.x ++ cpu.a) + (T2COUNT - 24)).extractLsb' 0 8
      = (sum cpu.a lo false).setWidth 8 := by
    rw [← hsum]
    apply (BitVec.extractLsb'_append_eq_of_add_le (by decide)).trans
    apply BitVec.extractLsb'_eq_self
  rw [restart, hlo, hhi]
  apply Device.Leads.internal rfl
  apply Device.Leads.internal rfl
  obtain ⟨cpu₁, hcpu₁⟩ : ∃ cpu₁, cpu₁ = (Op.adc (.imm lo)).exec (Op.clc.exec cpu) := ⟨_, rfl⟩
  have ha₁ : cpu₁.a = (sum cpu.a lo false).setWidth 8 := by rw [hcpu₁]; rfl
  have hc₁ : cpu₁.c = (sum cpu.a lo false).msb := by rw [hcpu₁]; rfl
  have hx₁ : cpu₁.x = cpu.x := by rw [hcpu₁]; rfl
  have hkeeps₁ : cpu₁.y = cpu.y ∧ cpu₁.s = cpu.s ∧ cpu₁.mem = cpu.mem := by
    rw [hcpu₁]
    exact ⟨rfl, rfl, rfl⟩
  dsimp only
  rw [← hcpu₁]
  clear hcpu₁
  apply sta_T2CL
  apply Device.Leads.internal rfl
  apply Device.Leads.internal rfl
  apply sta_T2CH
  rw [goto_systickIsrEnd]
  apply Device.Leads.label
  apply Device.Leads.refl
  have ha₂ : ((Op.adc (.imm hi)).exec (Op.txa.exec ((Op.sta (.abs VIA_T2CL)).exec cpu₁))).a
      = (sum cpu.x hi (sum cpu.a lo false).msb).setWidth 8 := by
    rw [← hx₁, ← hc₁]
    rfl
  refine ⟨rfl, hkeeps₁.1, hkeeps₁.2.1, ?_, ?_⟩
  · rw [← hkeeps₁.2.2]
    exact store_eqOn (store_eqOn (Set.eqOn_refl _ _) rfl) rfl
  · dsimp only
    rw [hlatch, ha₂, ha₁, hsum]

/-- One round of reading the counter, which is repeated if the high byte has changed. -/
theorem restart_round (k : Link) (cpu : Cpu) (t : Timer)
    (hdone : ∀ cpu' t', cpu'.y = cpu.y → cpu'.s = cpu.s → Set.EqOn cpu'.mem cpu.mem registersᶜ →
      t' = t.reread → cpu'.x ++ cpu'.a = t.pass.count →
      timer.Leads k.code (restart ++ goto k.code .systickIsrEnd, cpu', t') Q)
    (hagain : ∀ cpu' t', cpu'.y = cpu.y → cpu'.s = cpu.s → Set.EqOn cpu'.mem cpu.mem registersᶜ →
      t' = t.reread →
      t.count.extractLsb' 8 8 ≠ t.pass.pass.count.extractLsb' 8 8 →
      timer.Leads k.code (goto k.code .systickIsrRestart, cpu', t') Q) :
  timer.Leads k.code (goto k.code .systickIsrRestart, cpu, t) Q
  := by
  have hmem : ∀ b₁ b₂ b₃, Set.EqOn (((cpu.mem.store VIA_T2CH b₁).store VIA_T2CL b₂).store VIA_T2CH b₃)
      cpu.mem registersᶜ := by
    intro b₁ b₂ b₃
    exact store_eqOn (store_eqOn (store_eqOn (Set.eqOn_refl _ _) rfl) rfl) rfl
  rw [goto_systickIsrRestart]
  apply Device.Leads.label
  apply Device.Leads.op
  rw [Device.exec_load (a := VIA_T2CH) rfl rfl rfl rfl]
  apply Device.Leads.op
  rw [Device.exec_load (a := VIA_T2CL) rfl rfl rfl rfl]
  apply Device.Leads.op
  rw [Device.exec_load (a := VIA_T2CH) rfl rfl rfl rfl]
  by_cases heq : t.count.extractLsb' 8 8 = t.pass.pass.count.extractLsb' 8 8
  · apply Device.Leads.noBranch
    · apply Cond.not_holds_ne (r := t.count.extractLsb' 8 8 - t.pass.pass.count.extractLsb' 8 8) rfl
      exact sub_eq_zero.mpr heq
    · apply hdone
      · rfl
      · rfl
      · exact hmem _ _ _
      · rfl
      · exact append_of_hi_eq heq
  · apply Device.Leads.branch
    · apply Cond.holds_ne (r := t.count.extractLsb' 8 8 - t.pass.pass.count.extractLsb' 8 8) rfl
      exact sub_ne_zero.mpr heq
    · apply hagain
      · rfl
      · rfl
      · exact hmem _ _ _
      · rfl
      · exact heq

/-- The timer after it is started again: its count is what it has come to after at most 80 cycles, plus
the period. -/
structure Restarted (t t' : Timer) : Prop where
  started : t'.started = true
  expired : t'.expired = false
  enabled_eq : t'.enabled = t.enabled
  control_eq : t'.control = t.control
  flags_eq : t'.flags = t.flags
  count_eq : ∃ e ≤ 80, t'.count = t.count - BitVec.ofNat 16 e + (T2COUNT - 24)

/-- The count that is written, in terms of the count that was read. -/
theorem Started.restarted {n : Word} {t : Timer} {c' : Cpu × Timer} (h : Started n c c')
    (hkeeps : c.2.enabled = t.enabled ∧ c.2.control = t.control ∧ c.2.flags = t.flags)
    (hcount : ∃ e ≤ 80, n = t.count - BitVec.ofNat 16 e + (T2COUNT - 24)) :
  Restarted t c'.2
  := by
  have htimer := h.timer_eq
  constructor
  all_goals rw [htimer]
  · exact hkeeps.1
  · exact hkeeps.2.1
  · exact hkeeps.2.2
  · exact hcount

/-- The timer is started again, after one or two rounds of reading it. -/
theorem systickIsrRestart_leads (k : Link) (cpu : Cpu) (t : Timer) :
  timer.Leads k.code (goto k.code .systickIsrRestart, cpu, t) fun q =>
    q.1.head? = some .rts ∧ q.2.1.y = cpu.y ∧ q.2.1.s = cpu.s
      ∧ Set.EqOn q.2.1.mem cpu.mem registersᶜ ∧ Restarted t q.2.2
  := by
  apply restart_round
  · intro cpu₁ t₁ hy hs hmem ht hread
    apply (restart_leads k (cpu₁, t₁)).trans
    rintro q ⟨hrts, hstarted⟩
    apply Device.Leads.refl
    refine ⟨hrts, hstarted.y_eq.trans hy, hstarted.s_eq.trans hs, hstarted.eqOn.trans hmem, ?_⟩
    apply hstarted.restarted
    · rw [ht]
      exact ⟨rfl, rfl, rfl⟩
    · refine ⟨t.cycles 0, by omega, ?_⟩
      dsimp only
      rw [hread, Timer.pass_count, after]
  · intro cpu₁ t₁ hy hs hmem ht hne
    apply restart_round
    · intro cpu₂ t₂ hy' hs' hmem' ht' hread
      apply (restart_leads k (cpu₂, t₂)).trans
      rintro q ⟨hrts, hstarted⟩
      apply Device.Leads.refl
      refine ⟨hrts, hstarted.y_eq.trans (hy'.trans hy), hstarted.s_eq.trans (hs'.trans hs),
        hstarted.eqOn.trans (hmem'.trans hmem), ?_⟩
      apply hstarted.restarted
      · rw [ht', ht]
        exact ⟨rfl, rfl, rfl⟩
      · refine ⟨t.cycles 0 + t.cycles 1 + t.cycles 2 + t.cycles 3, by omega, ?_⟩
        have hcount : t₁.pass.count
            = after (after (after (after t.count (t.cycles 0)) (t.cycles 1)) (t.cycles 2))
              (t.cycles 3) := by
          rw [ht, Timer.pass_count, Timer.reread_count, Timer.reread_cycles]
        dsimp only
        rw [hread, hcount]
        simp only [after, BitVec.ofNat_add]
        ring
    · intro cpu₂ t₂ _ _ _ _ hne'
      rw [Timer.pass_pass_count] at hne
      rw [ht, Timer.pass_pass_count, Timer.reread_count, Timer.reread_cycles,
        Timer.reread_cycles] at hne'
      exact absurd (hi_eq_of_hi_ne _ _ _ hne) hne'

/-- The state after `__systick_isr`. -/
structure Ticked (k : Link) (c c' : Cpu × Timer) : Prop where
  y_eq : c'.1.y = c.1.y
  s_eq : c'.1.s = c.1.s
  eqOn : Set.EqOn c'.1.mem c.1.mem ({a | a ∈ k.bytes} ∪ registers)ᶜ
  idle : c.2.expired = false → c'.2 = c.2 ∧ k.ticks c'.1.mem = k.ticks c.1.mem
  tick : c.2.expired = true →
    Restarted c.2 c'.2 ∧ k.ticks c'.1.mem = (k.ticks c.1.mem + 1) % 2 ^ 40

/-- The interrupt flag of the timer in the byte that is read. -/
theorem ifr_and (t : Timer) : t.ifr &&& 0x20 = if t.expired then 0x20 else 0 := by
  rw [Timer.ifr]
  generalize t.flags = flags
  generalize t.expired = expired
  revert flags expired
  decide +kernel

/-- A change of the registers does not change the number of ticks. -/
theorem ticks_congr {m m' : Memory} (h : Set.EqOn m' m registersᶜ) : k.ticks m' = k.ticks m := by
  apply Memory.number_congr
  intro a ha
  apply h
  intro hmapped
  rw [registers, Set.mem_ofPred_eq, mapped_of_lt (k.mem_bytes ha).2] at hmapped
  cases hmapped

/-- `__systick_isr` returns, and has counted an expiration and started the timer again if there was
one. -/
theorem systickIsr_leads (k : Link) (c : Cpu × Timer) :
  timer.Leads k.code (goto k.code .systickIsr, c) fun q =>
    q.1.head? = some .rts ∧ k.Ticked c q.2
  := by
  obtain ⟨cpu, t⟩ := c
  have hmem : ∀ b, Set.EqOn (cpu.mem.store VIA_IFR b) cpu.mem registersᶜ := fun b =>
    store_eqOn (Set.eqOn_refl _ _) rfl
  rw [goto_systickIsr]
  apply Device.Leads.label
  apply Device.Leads.op
  rw [Device.exec_load (a := VIA_IFR) rfl rfl rfl rfl]
  apply Device.Leads.internal rfl
  cases hexpired : t.expired with
  | false =>
      apply Device.Leads.branch
      · apply beq_iff_eq.mpr
        have hifr : t.ifr &&& 0x20 = 0 := by
          rw [ifr_and, hexpired]
          rfl
        exact hifr
      rw [goto_systickIsrEnd]
      apply Device.Leads.label
      apply Device.Leads.refl
      refine ⟨rfl, rfl, rfl, ?_, ?_, ?_⟩
      · exact (hmem _).mono (Set.compl_subset_compl.mpr Set.subset_union_right)
      · intro _
        exact ⟨rfl, ticks_congr (hmem _)⟩
      · intro htrue
        rw [hexpired] at htrue
        cases htrue
  | true =>
      apply Device.Leads.noBranch
      · apply beq_eq_false_iff_ne.mpr
        have hifr : t.ifr &&& 0x20 ≠ 0 := by
          rw [ifr_and, hexpired]
          decide
        exact hifr
      apply (Device.incChain_leads rfl k.bytes_nodup
        fun a ha => mapped_of_lt (k.mem_bytes ha).2).trans
      rintro ⟨_, cpu₁, t₁⟩ ⟨rfl, ht₁, hinc⟩
      apply (systickIsrRestart_leads k cpu₁ t₁).trans
      rintro ⟨lines, cpu₂, t₂⟩ ⟨hrts, hy, hs, heqOn, hrestarted⟩
      obtain rfl : t₁ = t := ht₁
      have hticks : k.ticks cpu₁.mem = (k.ticks cpu.mem + 1) % 2 ^ 40 := by
        rw [← ticks_congr (hmem t₁.ifr)]
        exact hinc.number_eq
      apply Device.Leads.refl
      refine ⟨hrts, hy.trans hinc.y_eq, hs.trans hinc.s_eq, ?_, ?_, ?_⟩
      · intro a ha
        rw [Set.compl_union] at ha
        rw [heqOn ha.2, hinc.eqOn ha.1]
        exact hmem _ ha.2
      · intro hfalse
        rw [hexpired] at hfalse
        cases hfalse
      · intro _
        exact ⟨hrestarted, (ticks_congr heqOn).trans hticks⟩

/-! ### The initialization -/

/-- A store to the RAM of the kernel. -/
theorem exec_sta {a : Word} (ha : a.toNat < 0x1000) (c : Cpu × Timer) :
  timer.exec (.sta (.abs a)) c = ((Op.sta (.abs a)).exec c.1, c.2)
  :=
  Device.exec_plain (Device.plain_of_some rfl (mapped_of_lt ha))

/-- A store to a register of the VIA. -/
theorem exec_sta_register {a : Word} (ha : a ∈ registers) (c : Cpu × Timer) :
  timer.exec (.sta (.abs a)) c = ((Op.sta (.abs a)).exec c.1, timer.write c.2 a c.1.a)
  := by
  have hmem : ((Op.sta (.abs a)).exec c.1).mem a = c.1.a := Memory.store_self
  rw [Device.exec_store rfl ha rfl rfl, hmem]

/-- The state after `__do_init_systick`: the number of ticks is 0, and the timer is started. -/
structure Initialized (k : Link) (c c' : Cpu × Timer) : Prop where
  ticks_eq : k.ticks c'.1.mem = 0
  timer_eq : c'.2 = { c.2 with
    count := T2COUNT
    latch := T2COUNT.extractLsb' 0 8
    started := true
    expired := false
    enabled := true
    control := 0 }

/-- The first seven instructions clear the number of ticks. -/
theorem clear_initialized (k : Link) (c : Cpu × Timer) :
  ∃ cpu, (k.doInitSystick.take 7).foldl (fun c o => timer.exec o c) c = (cpu, c.2)
    ∧ k.ticks cpu.mem = 0
  := by
  have hlo := k.ram_lo
  have hhi := k.ram_hi
  refine ⟨run (k.doInitSystick.take 7) c.1, ?_, ?_⟩
  · simp only [doInitSystick, List.take, List.foldl, run]
    rw [exec_sta, exec_sta, exec_sta, exec_sta, exec_sta, exec_sta]
    · rfl
    all_goals bv_omega
  · have hzero (a : Word) (ha : a ∈ k.bytes) : (run (k.doInitSystick.take 7) c.1).mem a = 0 := by
      simp only [bytes, List.mem_cons, List.not_mem_nil, or_false] at ha
      simp only [doInitSystick, List.take, run, List.foldl, Op.exec, Memory.store, Mode.addr]
      obtain rfl | rfl | rfl | rfl | rfl := ha
      all_goals simp [Cpu.setNZ, Mode.read]
    have hnumber : k.ticks (run (k.doInitSystick.take 7) c.1).mem = Memory.number (fun _ => 0) k.bytes :=
      Memory.number_congr hzero
    rw [hnumber]
    rfl

/-- The timer is started with its period. -/
theorem doInitSystick_initialized (k : Link) (c : Cpu × Timer) :
  k.Initialized c (k.doInitSystick.foldl (fun c o => timer.exec o c) c)
  := by
  obtain ⟨cpu, hclear, hticks⟩ := k.clear_initialized c
  rw [← List.take_append_drop 7 k.doInitSystick, List.foldl_append, hclear]
  constructor
  · have hmem : ((k.doInitSystick.drop 7).foldl (fun c o => timer.exec o c) (cpu, c.2)).1.mem
        = (((cpu.mem.store VIA_IER 0xA0).store VIA_ACR 0).store VIA_T2CL
          (T2COUNT.extractLsb' 0 8)).store VIA_T2CH (T2COUNT.extractLsb' 8 8) := rfl
    rw [hmem, ← hticks]
    apply ticks_congr
    exact store_eqOn (store_eqOn (store_eqOn (store_eqOn (Set.eqOn_refl _ _) rfl) rfl) rfl) rfl
  · have htimer : ((k.doInitSystick.drop 7).foldl (fun c o => timer.exec o c) (cpu, c.2)).2
        = timer.write (timer.write (timer.write (timer.write c.2 VIA_IER 0xA0) VIA_ACR 0) VIA_T2CL
          (T2COUNT.extractLsb' 0 8)) VIA_T2CH (T2COUNT.extractLsb' 8 8) := by
      simp only [doInitSystick, List.drop, List.foldl]
      rw [exec_sta_register rfl, exec_sta_register rfl, exec_sta_register rfl, exec_sta_register rfl]
      rfl
    have hcount : T2COUNT.extractLsb' 8 8 ++ T2COUNT.extractLsb' 0 8 = T2COUNT := by decide
    rw [htimer, ← hcount]
    rfl

end Link

end Mosnix.Systick
