import Mosnix.Lib.Mos6502Io

/-!
# Counters of several bytes

A number is stored in bytes at any addresses, with the low byte first.  The 6502 increments it by
incrementing a byte, and the next one if the byte has become 0.
-/

namespace Memory

variable {m m' : Memory} {a : BitVec 16} {b : BitVec 8} {as : List (BitVec 16)}

/-- The number in the bytes at the addresses `as`, the low byte first. -/
def number (m : Memory) : List (BitVec 16) → ℕ
  | [] => 0
  | a :: as => (m a).toNat + 2 ^ 8 * m.number as

theorem number_lt (m : Memory) (as : List (BitVec 16)) : m.number as < 2 ^ (8 * as.length) := by
  induction as with
  | nil => exact Nat.one_pos
  | cons a as ih =>
      have ha := (m a).isLt
      rw [number, List.length_cons, Nat.mul_succ, Nat.pow_add]
      omega

/-- A number depends on its bytes only. -/
theorem number_congr (h : ∀ a ∈ as, m' a = m a) : m'.number as = m.number as := by
  induction as with
  | nil => rfl
  | cons a as ih =>
      rw [number, number, h a List.mem_cons_self, ih fun a ha => h a (List.mem_cons_of_mem _ ha)]

theorem number_store (h : a ∉ as) : (m.store a b).number as = m.number as := by
  apply number_congr
  intro a' ha'
  apply store_of_ne
  rintro rfl
  exact h ha'

end Memory

namespace Mos6502

variable {L : Type*} {δ : Type*} {d : Device δ} {prog rest : List (Line L)} {c : Cpu × δ} {l : L}
  {a : BitVec 16} {as : List (BitVec 16)}

/-- The code that increments the number in the bytes at `a` and `as`, up to a line that has the label
`l`. -/
def incChain (l : L) (a : BitVec 16) : List (BitVec 16) → List (Line L)
  | [] => [.op (.inc (.abs a))]
  | a' :: as => .op (.inc (.abs a)) :: .branch .ne l :: incChain l a' as

/-- The state `cpu'` is `cpu` after the number at the addresses `as` is incremented, except for the
flags. -/
structure Incremented (as : List (BitVec 16)) (cpu cpu' : Cpu) : Prop where
  number_eq : cpu'.mem.number as = (cpu.mem.number as + 1) % 2 ^ (8 * as.length)
  eqOn : Set.EqOn cpu'.mem cpu.mem {a | a ∈ as}ᶜ
  x_eq : cpu'.x = cpu.x
  y_eq : cpu'.y = cpu.y
  s_eq : cpu'.s = cpu.s

/-- The low byte does not become 0. -/
theorem incremented_of_ne (hnodup : (a :: as).Nodup) {cpu : Cpu} (hne : cpu.mem a + 1 ≠ 0) :
  Incremented (a :: as) cpu ((Op.inc (.abs a)).exec cpu)
  where
  number_eq := by
    have hmem : ((Op.inc (.abs a)).exec cpu).mem = cpu.mem.store a (cpu.mem a + 1) := rfl
    have hlt := (cpu.mem.store a (cpu.mem a + 1)).number_lt (a :: as)
    have hbyte : (cpu.mem a + 1).toNat = (cpu.mem a).toNat + 1 := by bv_omega
    rw [hmem]
    rw [Memory.number, Memory.store_self, Memory.number_store (List.nodup_cons.mp hnodup).1,
      hbyte] at hlt ⊢
    rw [Memory.number, Nat.mod_eq_of_lt (by omega)]
    omega
  eqOn := store_eqOn (Set.eqOn_refl _ _) List.mem_cons_self
  x_eq := rfl
  y_eq := rfl
  s_eq := rfl

/-- The low byte becomes 0, and the other bytes are incremented. -/
theorem Incremented.carry (hnodup : (a :: as).Nodup) {cpu cpu' : Cpu} (hzero : cpu.mem a + 1 = 0)
    (h : Incremented as ((Op.inc (.abs a)).exec cpu) cpu') :
  Incremented (a :: as) cpu cpu'
  where
  number_eq := by
    have hmem : ((Op.inc (.abs a)).exec cpu).mem = cpu.mem.store a (cpu.mem a + 1) := rfl
    have hnotMem := (List.nodup_cons.mp hnodup).1
    have hlow : (cpu'.mem a).toNat = 0 := by
      rw [h.eqOn hnotMem, hmem, Memory.store_self, hzero]
      rfl
    have hbyte : (cpu.mem a).toNat = 2 ^ 8 - 1 := by bv_omega
    have hnumber := h.number_eq
    rw [hmem, Memory.number_store hnotMem] at hnumber
    have hpow : 2 ^ (8 * (as.length + 1)) = 2 ^ 8 * 2 ^ (8 * as.length) := by
      rw [← Nat.pow_add]
      congr 1
      omega
    have hsum : 2 ^ 8 - 1 + 2 ^ 8 * cpu.mem.number as + 1 = 2 ^ 8 * (cpu.mem.number as + 1) := by
      omega
    rw [Memory.number, Memory.number, hlow, hnumber, hbyte, List.length_cons, hpow, hsum,
      Nat.mul_mod_mul_left, Nat.zero_add]
  eqOn := by
    intro a' ha'
    rw [Set.mem_compl_iff, Set.mem_ofPred_eq, List.mem_cons, not_or] at ha'
    rw [h.eqOn ha'.2]
    exact Memory.store_of_ne ha'.1
  x_eq := h.x_eq
  y_eq := h.y_eq
  s_eq := h.s_eq

/-- The number is incremented. -/
theorem Device.incChain_leads [DecidableEq L] (hgoto : goto prog l = rest)
    (hnodup : (a :: as).Nodup) (hplain : ∀ a' ∈ a :: as, d.mapped a' = false) :
  d.Leads prog (incChain l a as ++ rest, c) fun q =>
    q.1 = rest ∧ q.2.2 = c.2 ∧ Incremented (a :: as) c.1 q.2.1
  := by
  induction as generalizing a c with
  | nil =>
      apply Leads.ram rfl (hplain a List.mem_cons_self)
      apply Leads.refl
      refine ⟨rfl, rfl, ?_⟩
      by_cases hzero : c.1.mem a + 1 = 0
      · apply Incremented.carry hnodup hzero
        exact ⟨(Nat.mod_one _).symm, Set.eqOn_refl _ _, rfl, rfl, rfl⟩
      · apply incremented_of_ne hnodup hzero
  | cons a' as ih =>
      apply Leads.ram rfl (hplain a List.mem_cons_self)
      by_cases hzero : c.1.mem a + 1 = 0
      · apply Leads.noBranch
        · apply Cond.not_holds_ne (r := c.1.mem a + 1) rfl hzero
        apply (ih hnodup.of_cons fun a' ha' => hplain a' (List.mem_cons_of_mem _ ha')).trans
        rintro q ⟨hq, hdevice, hinc⟩
        apply Leads.refl
        exact ⟨hq, hdevice, hinc.carry hnodup hzero⟩
      · apply Leads.branch
        · apply Cond.holds_ne (r := c.1.mem a + 1) rfl hzero
        rw [hgoto]
        apply Leads.refl
        exact ⟨rfl, rfl, incremented_of_ne hnodup hzero⟩

end Mos6502
