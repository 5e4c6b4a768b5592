import Mosnix.Sched.Switcher

/-!
# Swapping a process out

The addresses that the context switch works with, the loops that it is made of, and the effect of
the code from `.Lswap_out_old` up to `.Lswap_in_new`, which is `SwappedOut`.
-/

namespace Mosnix.Switcher

open Mos6502 Memory

/-! ### Addresses -/

/-- The byte at an offset of the process block `p`. -/
def field (p : Word) (i : ℕ) : Word :=
  p + BitVec.ofNat 16 i

/-- The byte at an offset of the stack page. -/
def stackByte (i : ℕ) : Word :=
  CPU_STACK + BitVec.ofNat 16 i

/-- A process block is in the memory of the kernel, after the zero page and the stack page. -/
structure IsProc (p : Word) : Prop where
  lo : 0x200 ≤ p.toNat
  hi : p.toNat + SIZEOF_PROC_CONTEXT ≤ 2 ^ 16

/-- Two process blocks do not overlap. -/
def Apart (p q : Word) : Prop :=
  p.toNat + SIZEOF_PROC_CONTEXT ≤ q.toNat ∨ q.toNat + SIZEOF_PROC_CONTEXT ≤ p.toNat

/-- `current_proc` is `p`. -/
def Current (k : Link) (m : Memory) (p : Word) : Prop :=
  m k.cur' ++ m k.cur = p

variable {k : Link} {cpu : Cpu} {m m' : Memory} {p q a : Word} {i j : ℕ}

theorem toNat_field (hp : IsProc p) (hi : i < 81) : (field p i).toNat = p.toNat + i := by
  have hhi := hp.hi
  unfold field SIZEOF_PROC_CONTEXT at *
  bv_omega

theorem toNat_stackByte (hi : i < 256) : (stackByte i).toNat = 0x100 + i := by
  unfold stackByte CPU_STACK
  bv_omega

theorem toNat_cur : k.cur.toNat = k.currentProc.toNat := by
  unfold Link.cur
  bv_omega

theorem toNat_cur' : k.cur'.toNat = k.currentProc.toNat + 1 := by
  have hhi := k.currentProc_hi
  unfold Link.cur'
  bv_omega

/-- The pointer to the process is among the kernel's registers. -/
theorem cur_bounds : 32 ≤ k.currentProc.toNat ∧ k.currentProc.toNat < 63 :=
  ⟨k.currentProc_lo, k.currentProc_hi⟩

/-- An address that is different as a number. -/
theorem ne_of_toNat {a b : Word} (h : a.toNat ≠ b.toNat) : a ≠ b := by
  rintro rfl
  apply h rfl

/-- `current_proc` is only changed by a store to one of its bytes. -/
theorem Current.congr (h : Current k m p) (hlo : m' k.cur = m k.cur) (hhi : m' k.cur' = m k.cur') :
  Current k m' p
  := by
  rwa [Current, hlo, hhi]

/-- The pointer of an indirect access through `current_proc`. -/
theorem Current.word_eq (h : Current k m p) :
  m ((k.currentProc + 1).setWidth 16) ++ m (k.currentProc.setWidth 16) = p
  := h

/-- The fields of a block are apart. -/
theorem field_ne_field (hp : IsProc p) (hi : i < 81) (hj : j < 81) (hij : i ≠ j) :
  field p i ≠ field p j
  := by
  apply ne_of_toNat
  rw [toNat_field hp hi, toNat_field hp hj]
  omega

theorem field_ne_rc (hp : IsProc p) (hi : i < 81) (hj : j < 32) : field p i ≠ rc j := by
  have hlo := hp.lo
  apply ne_of_toNat
  rw [toNat_field hp hi, toNat_rc hj]
  omega

/-! ### The loops -/

/-- The address that a stack loop accesses when `Y` is `i`. -/
def stackLoopAddr (i : ℕ) : Word :=
  CPU_STACK - 3 + BitVec.ofNat 16 i

theorem toNat_stackLoopAddr (hi : i < 256) : (stackLoopAddr i).toNat = 0xFD + i := by
  unfold stackLoopAddr CPU_STACK
  bv_omega

/-- Memory outside the zero page does not hold `current_proc`. -/
theorem Current.store (h : Current k m p) (ha : 0x40 ≤ a.toNat) (b : Byte) :
  Current k (m.store a b) p
  := by
  have hcur := cur_bounds (k := k)
  apply h.congr
  · apply store_of_ne (ne_of_toNat _)
    rw [toNat_cur]
    omega
  · apply store_of_ne (ne_of_toNat _)
    rw [toNat_cur']
    omega

theorem stackLoopAddr_ne_field (hp : IsProc p) (hi : i < 67) (hj : j < 67) :
  stackLoopAddr i ≠ field p j
  := by
  have hlo := hp.lo
  apply ne_of_toNat
  rw [toNat_field hp (by omega), toNat_stackLoopAddr (by omega)]
  omega

/-- The loop that copies the stack to the process block. -/
theorem swapOutUstack_leads (hp : IsProc p) (hcur : Current k cpu.mem p) (hy : cpu.y ≤ 67) :
  Leads k.procSwitchTo (goto k.procSwitchTo .swapOutUstackLoop, cpu) fun q =>
    q.1 = goto k.procSwitchTo .swapOutUstackDone ∧ q.2.y = 67 ∧ q.2.s = cpu.s
      ∧ Copied cpu.mem q.2.mem stackLoopAddr (field p) cpu.y.toNat 67
  := by
  apply copyLoop_leads (I := fun m => Current k m p) (n := 67) rfl _ _ _ _ _ hcur hy
  · intro cpu _
    simp only [Mode.read, Mode.addr, stackLoopAddr, BitVec.ofNat_toNat]
  · intro cpu hcur
    simp only [Mode.addr, hcur.word_eq, field, BitVec.ofNat_toNat]
  · intro m i b hi hcur
    apply hcur.store
    have hlo := hp.lo
    rw [toNat_field hp (hi.trans (by decide))]
    omega
  · intro i j hi hj
    apply stackLoopAddr_ne_field hp hi hj
  · intro i j hi hj hij
    apply ne_of_toNat
    rw [toNat_field hp (hi.trans (by decide)), toNat_field hp (hj.trans (by decide))]
    omega

/-- The loop that copies the process block to the stack. -/
theorem swapInUstack_leads (hp : IsProc p) (hcur : Current k cpu.mem p) (hy : cpu.y ≤ 67) :
  Leads k.procSwitchTo (goto k.procSwitchTo .swapInUstackLoop, cpu) fun q =>
    q.1 = goto k.procSwitchTo .swapInKstack ∧ q.2.y = 67 ∧ q.2.s = cpu.s
      ∧ Copied cpu.mem q.2.mem (field p) stackLoopAddr cpu.y.toNat 67
  := by
  apply copyLoop_leads (I := fun m => Current k m p) (n := 67) rfl _ _ _ _ _ hcur hy
  · intro cpu hcur
    simp only [Mode.read, Mode.addr, hcur.word_eq, field, BitVec.ofNat_toNat]
  · intro cpu _
    simp only [Mode.addr, stackLoopAddr, BitVec.ofNat_toNat]
  · intro m i b hi hcur
    apply hcur.store
    rw [toNat_stackLoopAddr (hi.trans (by decide))]
    omega
  · intro i j hi hj
    apply (stackLoopAddr_ne_field hp hj hi).symm
  · intro i j hi hj hij
    apply ne_of_toNat
    rw [toNat_stackLoopAddr (hi.trans (by decide)), toNat_stackLoopAddr (hj.trans (by decide))]
    omega

section ImagRegs

variable {l : Label} {prog rest : List (Line Label)}

/-- The registers that the loop over the imaginary registers writes. -/
def loopReg (i : ℕ) : Word := rc (12 + i)

theorem toNat_loopReg (hi : i < 12) : (loopReg i).toNat = 12 + i := by
  unfold loopReg
  apply toNat_rc
  omega

theorem field_ne_loopReg (hp : IsProc p) (hi : i < 81) (hj : j < 12) : field p i ≠ loopReg j := by
  have hlo := hp.lo
  apply ne_of_toNat
  rw [toNat_field hp hi, toNat_loopReg hj]
  omega

theorem Current.loopReg (h : Current k m p) (hi : i < 12) (b : Byte) :
  Current k (m.store (loopReg i) b) p
  := by
  have hcur := cur_bounds (k := k)
  apply h.congr
  · apply store_of_ne (ne_of_toNat _)
    rw [toNat_cur, toNat_loopReg hi]
    omega
  · apply store_of_ne (ne_of_toNat _)
    rw [toNat_cur', toNat_loopReg hi]
    omega

/-- One round of the loop over the imaginary registers, up to the branch. -/
theorem imagRegs_round {Q : List (Line Label) × Cpu → Prop} (hcur : Current k cpu.mem p)
    (hx : cpu.x < 12) (hy : cpu.y.toNat = 68 + cpu.x.toNat)
    (hQ : ∀ cpu' : Cpu, cpu'.x = cpu.x + 1 → cpu'.y = cpu.y + 1 → cpu'.s = cpu.s →
      cpu'.z = (cpu.x + 1 - 12 == 0) →
      cpu'.mem = cpu.mem.store (Switcher.loopReg cpu.x.toNat)
        (cpu.mem (field p (69 + cpu.x.toNat))) →
      Leads prog (.branch .ne l :: rest, cpu') Q) :
  Leads prog ((k.imagRegs l).tail ++ rest, cpu) Q
  := by
  apply Leads.label
  apply Leads.op
  apply Leads.op
  apply Leads.op
  apply Leads.op
  apply Leads.op
  apply hQ
  · rfl
  · rfl
  · rfl
  · rfl
  · simp only [Op.exec, Cpu.setNZ, Cpu.compare, Mode.read, Mode.addr, hcur.word_eq]
    apply congrArg₂ (Memory.store cpu.mem)
    · unfold Switcher.loopReg rc
      bv_omega
    · apply congrArg cpu.mem
      unfold field
      bv_omega

/-- A register written before the others. -/
theorem copied_loopReg_cons (hp : IsProc p) (hi : i < 12)
    (h : Copied (m.store (loopReg i) (m (field p (69 + i)))) m' (fun j => field p (69 + j)) loopReg
      (i + 1) 12) :
  Copied m m' (fun j => field p (69 + j)) loopReg i 12
  := by
  apply h.cons hi
  · intro j _ hj
    apply field_ne_loopReg hp (by omega) hi
  · intro j hij hj
    apply ne_of_toNat
    rw [toNat_loopReg hj, toNat_loopReg hi]
    omega

/-- The loop over the imaginary registers copies twelve bytes of the process block. -/
theorem imagRegs_loop (cpu : Cpu) (hgoto : goto prog l = (k.imagRegs l).tail ++ rest) (hp : IsProc p)
    (hcur : Current k cpu.mem p) (hx : cpu.x < 12) (hy : cpu.y.toNat = 68 + cpu.x.toNat) :
  Leads prog (goto prog l, cpu) fun q =>
    q.1 = rest ∧ q.2.s = cpu.s ∧ q.2.z = true
      ∧ Copied cpu.mem q.2.mem (fun i => field p (69 + i)) loopReg cpu.x.toNat 12
  := by
  obtain ⟨n, hn⟩ := Nat.exists_eq_add_of_lt (show cpu.x.toNat < 12 from hx)
  induction n generalizing cpu with
  | zero =>
      rw [hgoto]
      apply imagRegs_round hcur hx hy
      intro cpu' hx' hy' hs' hz' hmem'
      have hz : cpu'.z = true := by
        rw [hz', beq_iff_eq]
        bv_omega
      apply Leads.noBranch
      · rw [Cond.holds, hz]
        rfl
      apply Leads.refl
      refine ⟨rfl, hs', hz, ?_⟩
      apply copied_loopReg_cons hp hx
      rw [← hmem', show cpu.x.toNat + 1 = 12 by omega]
      apply Copied.refl
  | succ n ih =>
      rw [hgoto]
      apply imagRegs_round hcur hx hy
      intro cpu' hx' hy' hs' hz' hmem'
      have hz : cpu'.z = false := by
        rw [hz', beq_eq_false_iff_ne]
        bv_omega
      have hsucc : cpu'.x.toNat = cpu.x.toNat + 1 := by
        rw [hx']
        bv_omega
      have hcur' : Current k cpu'.mem p := by
        rw [hmem']
        apply hcur.loopReg hx
      apply Leads.branch
      · rw [Cond.holds, hz]
        rfl
      apply (ih cpu' hcur' (by bv_omega) (by rw [hy']; bv_omega) (by omega)).trans
      rintro q ⟨hq, hqs, hqz, hcopied⟩
      apply Leads.refl
      refine ⟨hq, hqs.trans hs', hqz, ?_⟩
      apply copied_loopReg_cons hp hx
      rwa [hmem', hsucc] at hcopied

/-- The code that copies the saved registers of the process block. -/
theorem imagRegs_leads (hgoto : goto prog l = (k.imagRegs l).tail ++ rest) (hp : IsProc p)
    (hcur : Current k cpu.mem p) (hy : cpu.y = 68) :
  Leads prog (k.imagRegs l ++ rest, cpu) fun q =>
    q.1 = rest ∧ q.2.s = cpu.s ∧ q.2.z = true
      ∧ Copied cpu.mem q.2.mem (fun i => field p (69 + i)) loopReg 0 12
  := by
  apply Leads.op
  change Leads prog ((k.imagRegs l).tail ++ rest, _) _
  rw [← hgoto]
  apply imagRegs_loop ((Op.ldx (.imm 0)).exec cpu) hgoto hp hcur
  · rw [Op.exec]
    simp [Cpu.setNZ, Mode.read]
  · rw [Op.exec]
    simp [Cpu.setNZ, Mode.read, hy]

end ImagRegs

/-! ### Swapping out -/

/-- The memory after the return conditions are pushed and the stack pointer is saved. -/
def pushed (k : Link) (p : Word) (cpu : Cpu) (flags : Byte) : Memory :=
  (((cpu.mem.store (Cpu.stackAddr cpu.s) (k.swapInReturn.extractLsb' 8 8)).store
    (Cpu.stackAddr (cpu.s - 1)) (k.swapInReturn.extractLsb' 0 8)).store
    (Cpu.stackAddr (cpu.s - 1 - 1)) flags).store (field p 0) (cpu.s - 1 - 1 - 1)

theorem toNat_stackAddr (b : Byte) : (Cpu.stackAddr b).toNat = 0x100 + b.toNat := by
  unfold Cpu.stackAddr
  bv_omega

/-- The bytes of `current_proc` are not both zero if it is not NULL. -/
theorem Current.or_ne_zero (h : Current k m p) (hp : p ≠ 0) : m k.cur ||| m k.cur' ≠ 0 := by
  intro hor
  apply hp
  have hzero := BitVec.or_eq_zero_iff.mp hor
  rw [← h, hzero.1, hzero.2]
  rfl

/-- The code before the loop that copies the stack to the process block. -/
theorem swapOutOld_leads (hcur : Current k cpu.mem p) (hp : p ≠ 0) :
  Leads k.procSwitchTo (goto k.procSwitchTo .swapOutOld, cpu) fun q =>
    q.1 = goto k.procSwitchTo .swapOutUstackLoop ∧ q.2.s = cpu.s - 3 ∧ q.2.y = cpu.s + 1
      ∧ ∃ flags, q.2.mem = pushed k p cpu flags
  := by
  apply Leads.label
  apply Leads.op
  apply Leads.op
  apply Leads.noBranch
  · rw [Cond.holds]
    apply beq_eq_false_iff_ne.mpr
    exact hcur.or_ne_zero hp
  iterate 12 apply Leads.op
  apply Leads.refl
  refine ⟨rfl, ?_, ?_, ?_⟩
  · simp only [Op.exec, Cpu.setNZ, Cpu.push]
    bv_omega
  · change (Op.exec _ (.adc _)).a = _
    rw [Op.adc_a _ rfl]
    simp only [Op.exec, Cpu.setNZ, Cpu.push, Mode.read]
    bv_omega
  · have hpush (b : Byte) {m : Memory} (h : Current k m p) (v : Byte) :
        Current k (m.store (Cpu.stackAddr b) v) p := by
      apply h.store
      rw [toNat_stackAddr]
      omega
    refine ⟨_, congrArg₂ (Memory.store _) ?_ rfl⟩
    apply congrArg₂ (· + ·) _ rfl
    apply (hpush _ (hpush _ (hpush _ hcur _) _) _).word_eq

/-- The memory after the kernel stack pointer is saved. -/
def savedKstack (p : Word) (m : Memory) : Memory :=
  (m.store (field p 67) (m (rc 0))).store (field p 68) (m (rc 1))

/-- The code that saves the kernel stack pointer. -/
theorem saveKstack_leads {prog rest : List (Line Label)} (hp : IsProc p)
    (hcur : Current k cpu.mem p) (hy : cpu.y = 67) :
  Leads prog (k.swapOutKstack ++ rest, cpu) fun q =>
    q.1 = rest ∧ q.2.s = cpu.s ∧ q.2.y = 68 ∧ q.2.mem = savedKstack p cpu.mem
  := by
  have hcur' (b : Byte) : Current k (cpu.mem.store (field p 67) b) p := by
    have hlo := hp.lo
    apply hcur.store
    rw [toNat_field hp (by decide)]
    omega
  iterate 5 apply Leads.op
  apply Leads.refl
  refine ⟨rfl, rfl, ?_, ?_⟩
  · simp only [Op.exec, Cpu.setNZ, hy]
    rfl
  · have hrc (b : Byte) : cpu.mem.store (field p 67) b (rc 1) = cpu.mem (rc 1) :=
      store_of_ne (field_ne_rc hp (by decide) (by decide)).symm
    have hfield : p + (67 : Byte).setWidth 16 = field p 67 := rfl
    simp only [Op.exec, Cpu.setNZ, Mode.read, Mode.addr, hcur.word_eq, hy, hfield,
      (hcur' (cpu.mem (rc 0))).word_eq, hrc]
    rfl

/-- The memory `m'` has in the block of the process `p` what it has to save when it is swapped out
with the stack pointer `s` and the memory `m`: its stack pointer, above it the return to
`.Lswap_in_return`, its stack and its kernel stack pointer.  The field `kzp` is that of `m`. -/
structure Saved (k : Link) (p : Word) (s : Byte) (m m' : Memory) : Prop where
  s_eq : m' (field p 0) = s - 3
  retHi : m' (field p (s.toNat + 3)) = k.swapInReturn.extractLsb' 8 8
  retLo : m' (field p (s.toNat + 2)) = k.swapInReturn.extractLsb' 0 8
  stack : ∀ i, s.toNat < i → i < 64 → m' (field p (i + 3)) = m (stackByte i)
  rc0 : m' (field p 67) = m (rc 0)
  rc1 : m' (field p 68) = m (rc 1)
  kzp : ∀ i < 12, m' (field p (69 + i)) = m (field p (69 + i))

/-- The process `p` is swapped out, and the loop over the imaginary registers has read its
block. -/
structure SwappedOut (k : Link) (p : Word) (s : Byte) (m m' : Memory) : Prop
    extends Saved k p s m m' where
  loopRegs : ∀ i < 12, m' (loopReg i) = m (field p (69 + i))
  frame : ∀ a, (∀ i < 69, a ≠ field p i) → (∀ i < 12, a ≠ loopReg i) →
    a.toNat < 0x100 ∨ 0x200 ≤ a.toNat → m' a = m a

section Pushed

variable {flags : Byte}

/-- Memory outside the stack page is as before, except the saved stack pointer. -/
theorem pushed_frame (ha : a.toNat < 0x100 ∨ 0x200 ≤ a.toNat) (hp : a ≠ field p 0) :
  pushed k p cpu flags a = cpu.mem a
  := by
  have hstack (b : Byte) : a ≠ Cpu.stackAddr b := by
    apply ne_of_toNat
    rw [toNat_stackAddr]
    omega
  rw [pushed, store_of_ne hp, store_of_ne (hstack _), store_of_ne (hstack _),
    store_of_ne (hstack _)]

theorem pushed_field_zero : pushed k p cpu flags (field p 0) = cpu.s - 3 := by
  rw [pushed, store_self]
  bv_omega

theorem stackLoopAddr_ne_stackAddr {b : Byte} (hi : i < 67) (h : i ≠ b.toNat + 3) :
  stackLoopAddr i ≠ Cpu.stackAddr b
  := by
  apply ne_of_toNat
  rw [toNat_stackLoopAddr (by omega), toNat_stackAddr]
  omega

/-- The stack above the stack pointer. -/
theorem pushed_stack (hp : IsProc p) (hs : 3 ≤ cpu.s) (hsi : cpu.s.toNat < i) (hi : i < 64) :
  pushed k p cpu flags (stackLoopAddr (i + 3)) = cpu.mem (stackByte i)
  := by
  have hs' : 3 ≤ cpu.s.toNat := hs
  have haddr : stackLoopAddr (i + 3) = stackByte i := by
    unfold stackLoopAddr stackByte CPU_STACK
    bv_omega
  have hne (b : Byte) (hb : b ≤ cpu.s) : stackLoopAddr (i + 3) ≠ Cpu.stackAddr b := by
    apply stackLoopAddr_ne_stackAddr (by omega)
    bv_omega
  rw [pushed, store_of_ne (stackLoopAddr_ne_field hp (by omega) (by decide)),
    store_of_ne (hne _ (by bv_omega)), store_of_ne (hne _ (by bv_omega)),
    store_of_ne (hne _ (BitVec.le_refl _)), haddr]

/-- The high byte of the address that `swap_in` returns to. -/
theorem pushed_retHi (hp : IsProc p) (hs : 3 ≤ cpu.s) (hs' : cpu.s ≤ 63) :
  pushed k p cpu flags (stackLoopAddr (cpu.s.toNat + 3)) = k.swapInReturn.extractLsb' 8 8
  := by
  have hlt : cpu.s.toNat + 3 < 67 := by bv_omega
  have haddr : stackLoopAddr (cpu.s.toNat + 3) = Cpu.stackAddr cpu.s := by
    unfold stackLoopAddr Cpu.stackAddr CPU_STACK
    bv_omega
  rw [pushed, store_of_ne (stackLoopAddr_ne_field hp hlt (by decide)),
    store_of_ne (stackLoopAddr_ne_stackAddr hlt (by bv_omega)),
    store_of_ne (stackLoopAddr_ne_stackAddr hlt (by bv_omega)), haddr, store_self]

/-- The low byte of the address that `swap_in` returns to. -/
theorem pushed_retLo (hp : IsProc p) (hs : 3 ≤ cpu.s) (hs' : cpu.s ≤ 63) :
  pushed k p cpu flags (stackLoopAddr (cpu.s.toNat + 2)) = k.swapInReturn.extractLsb' 0 8
  := by
  have hlt : cpu.s.toNat + 2 < 67 := by bv_omega
  have haddr : stackLoopAddr (cpu.s.toNat + 2) = Cpu.stackAddr (cpu.s - 1) := by
    unfold stackLoopAddr Cpu.stackAddr CPU_STACK
    bv_omega
  rw [pushed, store_of_ne (stackLoopAddr_ne_field hp hlt (by decide)),
    store_of_ne (stackLoopAddr_ne_stackAddr hlt (by bv_omega)), haddr, store_self]

end Pushed

/-- The memory after the parts of the code that swaps a process out. -/
theorem swappedOut_of_parts {m₁ m₂ m₃ : Memory} {flags : Byte} (hp : IsProc p) (hs : 3 ≤ cpu.s)
    (hs' : cpu.s ≤ 63) (h₁ : m₁ = pushed k p cpu flags)
    (h₂ : Copied m₁ m₂ stackLoopAddr (field p) (cpu.s + 1).toNat 67) (h₃ : m₃ = savedKstack p m₂)
    (h₄ : Copied m₃ m' (fun i => field p (69 + i)) loopReg 0 12) :
  SwappedOut k p cpu.s cpu.mem m'
  := by
  have hsucc : (cpu.s + 1).toNat = cpu.s.toNat + 1 := by bv_omega
  have hle : 3 ≤ cpu.s.toNat := hs
  have hle' : cpu.s.toNat ≤ 63 := hs'
  rw [hsucc] at h₂
  have hlo := hp.lo
  have hregs (i : ℕ) (hi : i < 81) : m' (field p i) = m₃ (field p i) := by
    apply h₄.frame
    intro j _ hj
    apply field_ne_loopReg hp hi hj
  have hkstack (i : ℕ) (hi : i < 81) (h67 : i ≠ 67) (h68 : i ≠ 68) :
      m₃ (field p i) = m₂ (field p i) := by
    rw [h₃, savedKstack, store_of_ne (field_ne_field hp hi (by decide) h68),
      store_of_ne (field_ne_field hp hi (by decide) h67)]
  have hcopied (i : ℕ) (hi : cpu.s.toNat + 1 ≤ i) (hi' : i < 67) :
      m' (field p i) = pushed k p cpu flags (stackLoopAddr i) := by
    rw [hregs i (by omega), hkstack i (by omega) (by omega) (by omega), h₂.copied i hi hi', h₁]
  have hrc (i : ℕ) (hi : i < 32) : m₂ (rc i) = cpu.mem (rc i) := by
    rw [h₂.frame, h₁, pushed_frame _ (field_ne_rc hp (by decide) hi).symm]
    · rw [toNat_rc hi]
      omega
    · intro j _ hj
      apply (field_ne_rc hp (by omega) hi).symm
  have hkzp (i : ℕ) (hi : i < 12) : m₃ (field p (69 + i)) = cpu.mem (field p (69 + i)) := by
    rw [hkstack _ (by omega) (by omega) (by omega), h₂.frame, h₁, pushed_frame]
    · rw [toNat_field hp (by omega)]
      omega
    · apply field_ne_field hp (by omega) (by decide) (by omega)
    · intro j _ hj
      apply field_ne_field hp (by omega) (by omega) (by omega)
  refine ⟨⟨?_, ?_, ?_, ?_, ?_, ?_, ?_⟩, ?_, ?_⟩
  · rw [hregs 0 (by decide), hkstack 0 (by decide) (by decide) (by decide), h₂.frame, h₁,
      pushed_field_zero]
    intro j hj hj'
    apply field_ne_field hp (by decide) (by omega) (by omega)
  · rw [hcopied _ (by omega) (by omega), pushed_retHi hp hs hs']
  · rw [hcopied _ (by omega) (by omega), pushed_retLo hp hs hs']
  · intro i hsi hi
    rw [hcopied _ (by omega) (by omega), pushed_stack hp hs hsi hi]
  · rw [hregs 67 (by decide), h₃, savedKstack,
      store_of_ne (field_ne_field hp (by decide) (by decide) (by decide)), store_self,
      hrc 0 (by decide)]
  · rw [hregs 68 (by decide), h₃, savedKstack, store_self, hrc 1 (by decide)]
  · intro i hi
    rw [hregs _ (by omega), hkzp i hi]
  · intro i hi
    rw [h₄.copied i (Nat.zero_le i) hi, hkzp i hi]
  · intro a hfield hreg ha
    rw [h₄.frame a fun i _ hi => hreg i hi, h₃, savedKstack, store_of_ne (hfield 68 (by decide)),
      store_of_ne (hfield 67 (by decide)), h₂.frame a fun i _ hi => hfield i (by omega), h₁,
      pushed_frame ha (hfield 0 (by decide))]

/-- `current_proc` is kept by code that keeps the variables of the kernel. -/
theorem Current.of_frame (h : Current k m p)
    (hframe : ∀ a : Word, 0x20 ≤ a.toNat → a.toNat < 0x40 → m' a = m a) :
  Current k m' p
  := by
  have hcur := cur_bounds (k := k)
  apply h.congr
  · apply hframe
    · rw [toNat_cur]
      omega
    · rw [toNat_cur]
      omega
  · apply hframe
    · rw [toNat_cur']
      omega
    · rw [toNat_cur']
      omega

/-- Execution from `.Lswap_out_old` swaps the current process out. -/
theorem swapOut_leads (hp : IsProc p) (hcur : Current k cpu.mem p) (hs : 3 ≤ cpu.s)
    (hs' : cpu.s ≤ 63) :
  Leads k.procSwitchTo (goto k.procSwitchTo .swapOutOld, cpu) fun q =>
    q.1 = k.swapIn ∧ SwappedOut k p cpu.s cpu.mem q.2.mem
  := by
  have hlo := hp.lo
  have hp0 : p ≠ 0 := by bv_omega
  have hfield {a : Word} (ha : a.toNat < 0x40) {i : ℕ} (hi : i < 81) : a ≠ field p i := by
    apply ne_of_toNat
    rw [toNat_field hp hi]
    omega
  apply (swapOutOld_leads hcur hp0).trans
  rintro ⟨_, cpu₁⟩ ⟨rfl, -, hy₁, flags, hmem₁⟩
  have hcur₁ : Current k cpu₁.mem p := by
    apply hcur.of_frame
    intro a _ ha
    rw [hmem₁, pushed_frame (by omega) (hfield ha (by decide))]
  have hle : cpu₁.y ≤ 67 := by bv_omega
  apply (swapOutUstack_leads hp hcur₁ hle).trans
  rintro ⟨_, cpu₂⟩ ⟨rfl, hy₂, -, hcopied⟩
  have hcur₂ : Current k cpu₂.mem p := by
    apply hcur₁.of_frame
    intro a _ ha
    apply hcopied.frame
    intro i _ hi
    apply hfield ha (by omega)
  apply Leads.label
  apply (saveKstack_leads hp hcur₂ hy₂).trans
  rintro ⟨_, cpu₃⟩ ⟨rfl, -, hy₃, hmem₃⟩
  have hcur₃ : Current k cpu₃.mem p := by
    apply hcur₂.of_frame
    intro a _ ha
    rw [hmem₃, savedKstack, store_of_ne (hfield ha (by decide)),
      store_of_ne (hfield ha (by decide))]
  apply (imagRegs_leads rfl hp hcur₃ hy₃).trans
  rintro ⟨_, cpu₄⟩ ⟨rfl, -, -, hregs⟩
  apply Leads.refl
  rw [hy₁] at hcopied
  exact ⟨rfl, swappedOut_of_parts hp hs hs' hmem₁ hcopied hmem₃ hregs⟩

end Mosnix.Switcher
