import Mosnix.Target.Spi

/-!
# Transfers over the SPI interface

The routines `spi_send` and `spi_receive` of `spi.S`, which transfer a number of bytes: 256 for each
page in `X`, and those in `A`.  For every size they send the bits of the bytes, or store the bytes
that they receive, in order and from the high bit on, and change nothing else but the imaginary
registers and the stack (`spi_transfer`).
-/

namespace Mosnix.Spi

open Mos6502

/-! ### Calls -/

/-- The addresses that the call of a routine for a byte changes. -/
def callScratch (s : Byte) : Set Word :=
  byteScratch ∪ {Cpu.stackAddr s, Cpu.stackAddr (s - 1), Cpu.stackAddr (s - 2)}

section Calls

variable {k : Link} {w : Wires} {c : Cpu × Via} {mosi : Bool} {sent : List Bool} {ret : Word}
  {rest : List (Line Label)}

/-- A slot of the stack that a routine for a byte does not change. -/
theorem stackAddr_notMem {s t : Byte} (h : s ≠ t) :
  Cpu.stackAddr s ∈ (insert (Cpu.stackAddr t) byteScratch)ᶜ
  := by
  rintro (heq | heq | heq)
  · exact h (Cpu.stackAddr_inj.mp heq)
  · exact stackAddr_ne_port _ heq
  · exact stackAddr_ne_rc _ (by decide) heq

/-- The stack and the memory after a routine for a byte was called. -/
theorem called_of_eqOn {cpu cpu' : Cpu} (hs : cpu'.s = (cpu.call ret).s)
    (hmem : Set.EqOn cpu'.mem (cpu.call ret).mem
      (insert (Cpu.stackAddr (cpu.call ret).s) byteScratch)ᶜ) :
  cpu.Called ret cpu' ∧ Set.EqOn cpu'.mem cpu.mem (callScratch cpu.s)ᶜ
  := by
  have hcalled := cpu.call_called ret
  rw [hcalled.s_eq] at hs hmem
  refine ⟨⟨hs, ?_, ?_⟩, ?_⟩
  · rw [hmem (stackAddr_notMem (by bv_omega)), hcalled.low]
  · rw [hmem (stackAddr_notMem (by bv_omega)), hcalled.high]
  · intro a ha
    simp only [callScratch, Set.mem_compl_iff, Set.mem_union, Set.mem_insert_iff,
      Set.mem_singleton_iff, not_or] at ha
    obtain ⟨hbyte, h₀, h₁, h₂⟩ := ha
    rw [hmem]
    · exact (Memory.store_of_ne h₁).trans (Memory.store_of_ne h₀)
    · rintro (heq | heq)
      · exact h₂ heq
      · exact hbyte heq

/-- The state `c'` after a call in the state `c` that has sent `bits`. -/
structure CallDone (bits sent : List Bool) (c c' : Cpu × Via) : Prop where
  x_eq : c'.1.x = c.1.x
  y_eq : c'.1.y = c.1.y
  s_eq : c'.1.s = c.1.s
  mem_eq : Set.EqOn c'.1.mem c.1.mem (callScratch c.1.s)ᶜ
  driven : ∃ mosi, Driven false mosi (sent ++ bits) c'.2

/-- A call of `spi_send_byte`. -/
theorem sendCall_leads (hresume : resume k.code ret = some rest)
    (hdriven : Driven false mosi sent c.2) :
  (via w).Leads k.code (.jsr ret .spiSendByte :: rest, c) fun q =>
    q.1 = rest ∧ CallDone (byteBits c.1.a) sent c q.2
  := by
  apply Device.Leads.call hresume
  apply (spiSendByte_leads (c := (c.1.call ret, c.2)) hdriven).trans
  rintro q ⟨hrts, h⟩
  obtain ⟨hcalled, hmem⟩ := called_of_eqOn h.s_eq h.mem_eq
  apply Device.Leads.refl
  exact ⟨hrts, hcalled, h.x_eq, h.y_eq, rfl, hmem, h.driven⟩

/-- A call of `spi_receive_byte`. -/
theorem receiveCall_leads (hresume : resume k.code ret = some rest)
    (hdriven : Driven false mosi sent c.2) :
  (via w).Leads k.code (.jsr ret .spiReceiveByte :: rest, c) fun q =>
    q.1 = rest ∧ (q.2.1.a = misoByte w sent.length
      ∧ CallDone (List.replicate 8 true) sent c q.2)
  := by
  apply Device.Leads.call hresume (P := fun c' =>
    c'.1.a = misoByte w sent.length ∧ CallDone (List.replicate 8 true) sent c c')
  apply (spiReceiveByte_leads (c := (c.1.call ret, c.2)) hdriven).trans
  rintro q ⟨hrts, h⟩
  obtain ⟨hcalled, hmem⟩ := called_of_eqOn h.s_eq h.mem_eq
  apply Device.Leads.refl
  exact ⟨hrts, hcalled, h.a_eq, h.x_eq, h.y_eq, rfl, hmem, _, h.driven⟩

end Calls

/-! ### The bytes of a transfer -/

/-- The pointer `data`. -/
def ptr (m : Memory) : Word :=
  m (rc 3) ++ m (rc 2)

/-- The argument `size`. -/
def size (cpu : Cpu) : ℕ :=
  256 * cpu.x.toNat + cpu.a.toNat

/-- The addresses that a transfer uses. -/
def reserved (s : Byte) : Set Word :=
  callScratch s ∪ {rc 2, rc 3, rc 4, SPI_DDR}

/-- The addresses that a transfer changes. -/
def scratch (s : Byte) : Set Word :=
  callScratch s ∪ {rc 3, rc 4}

/-- The `n` bytes at `data` are not among the addresses that a transfer uses. -/
def Apart (data : Word) (n : ℕ) (s : Byte) : Prop :=
  ∀ i < n, data + BitVec.ofNat 16 i ∉ reserved s

/-- The state during a transfer: the memory is `m`, and `out` was sent. -/
structure Progress (m : Memory) (out : List Bool) (s a : Byte) (c : Cpu × Via) : Prop where
  s_eq : c.1.s = s
  low_eq : c.1.mem (rc 4) = a
  mem_eq : Set.EqOn c.1.mem m (scratch s)ᶜ
  driven : ∃ mosi, Driven false mosi out c.2

section Progress

variable {k : Link} {w : Wires} {c : Cpu × Via} {m : Memory} {out : List Bool} {s a h₀ : Byte}
  {i n : ℕ} {data : Word}

/-- The registers and the pointer may change. -/
theorem Progress.congr (h : Progress m out s a c) (cpu : Cpu) (hs : cpu.s = c.1.s)
    (hmem : Set.EqOn cpu.mem c.1.mem {rc 3}ᶜ) :
  Progress m out s a (cpu, c.2)
  where
  s_eq := hs.trans h.s_eq
  low_eq := by
    have hne : rc 4 ∈ ({rc 3} : Set Word)ᶜ := by decide
    rw [hmem hne, h.low_eq]
  mem_eq := by
    intro x hx
    have hne : x ∈ ({rc 3} : Set Word)ᶜ := fun heq => hx (.inr (.inl heq))
    rw [hmem hne, h.mem_eq hx]
  driven := h.driven

theorem rc_notMem {j : ℕ} (hj : j < 5) : rc j ∈ (callScratch s)ᶜ := by
  rintro ((heq | heq) | (heq | heq | heq))
  · rw [rc, SPI_PORT] at heq
    bv_omega
  · rw [Set.mem_singleton_iff, rc, rc] at heq
    bv_omega
  all_goals exact stackAddr_ne_rc _ (by omega) heq.symm

theorem rc2_notMem : rc 2 ∈ (scratch s)ᶜ := by
  rintro (hmem | heq | heq)
  · exact rc_notMem (by decide) hmem
  · exact absurd heq (by decide)
  · exact absurd heq (by decide)

/-- The address of a byte in round `i`. -/
theorem addr_round (h l : Byte) (i : ℕ) :
  ((h + BitVec.ofNat 8 (i / 256)) ++ l) + (BitVec.ofNat 8 i).setWidth 16
    = (h ++ l) + BitVec.ofNat 16 i
  := by
  apply BitVec.eq_of_toNat_eq
  simp only [BitVec.toNat_add, append_toNat, BitVec.toNat_setWidth, BitVec.toNat_ofNat]
  omega

/-- The address that the operand `(__rc2),y` has in round `i`. -/
theorem indY_addr {K : ℕ → Cpu × Via → Prop} (h : AtRound K (rc 3) h₀ i c) :
  (Mode.indY 2).addr c.1 = (h₀ ++ c.1.mem (rc 2)) + BitVec.ofNat 16 i
  := by
  rw [← addr_round, ← h.hi_eq, ← h.y_eq]
  rfl

/-- A byte of the transfer is not a register of the VIA. -/
theorem Apart.not_mapped (h : Apart data n s) (hi : i < n) :
  (via w).mapped (data + BitVec.ofNat 16 i) = false
  := by
  have hport : data + BitVec.ofNat 16 i ≠ SPI_PORT := fun heq => h i hi (.inl (.inl (.inl heq)))
  have hddr : data + BitVec.ofNat 16 i ≠ SPI_DDR :=
    fun heq => h i hi (.inr (.inr (.inr (.inr heq))))
  rw [via, Bool.or_eq_false_iff, beq_eq_false_iff_ne, beq_eq_false_iff_ne]
  exact ⟨hport, hddr⟩

theorem scratch_subset : scratch s ⊆ reserved s := by
  rintro x (hx | rfl | rfl)
  · exact .inl hx
  · exact .inr (.inr (.inl rfl))
  · exact .inr (.inr (.inr (.inl rfl)))

/-- A byte of the transfer is not changed by the calls. -/
theorem Apart.notMem_scratch (h : Apart data n s) (hi : i < n) :
  data + BitVec.ofNat 16 i ∈ (scratch s)ᶜ
  := fun hmem => h i hi (scratch_subset hmem)

/-- The state after the call of a routine for a byte. -/
theorem Progress.call {bits : List Bool} {c' : Cpu × Via} (h : Progress m out s a c)
    (hdone : CallDone bits out c c') :
  Progress m (out ++ bits) s a c'
  := by
  have hmem := hdone.mem_eq
  rw [h.s_eq] at hmem
  refine ⟨hdone.s_eq.trans h.s_eq, ?_, ?_, hdone.driven⟩
  · rw [hmem (rc_notMem (by decide)), h.low_eq]
  · intro x hx
    rw [hmem (fun hcall => hx (.inl hcall)), h.mem_eq hx]

/-- The state after a byte is stored. -/
theorem Progress.store {x : Word} (h : Progress m out s a c) (hx : x ∉ reserved s) (b : Byte) :
  Progress (m.store x b) out s a (c.1.poke x b, c.2)
  where
  s_eq := h.s_eq
  low_eq := by
    apply (Memory.store_of_ne _).trans h.low_eq
    rintro rfl
    exact hx (.inr (.inr (.inr (.inl rfl))))
  mem_eq := by
    intro y hy
    by_cases hyx : y = x
    · rw [hyx, Memory.store_self]
      exact Memory.store_self
    · rw [Memory.store_of_ne hyx, ← h.mem_eq hy]
      exact Memory.store_of_ne hyx
  driven := h.driven

end Progress

/-! ### Sending -/

/-- The body of a round of `spi_send`. -/
def sendBody (ret : Word) : List (Line Label) :=
  [.op (.lda (.indY 2)), .jsr ret .spiSendByte]

/-- The bits of `i` bytes at `data`. -/
def bytesBits (m : Memory) (data : Word) (i : ℕ) : List Bool :=
  (List.range i).flatMap fun j => byteBits (m (data + BitVec.ofNat 16 j))

/-- The bits of one more byte. -/
theorem bytesBits_succ (m : Memory) (data : Word) (i : ℕ) :
  bytesBits m data (i + 1) = bytesBits m data i ++ byteBits (m (data + BitVec.ofNat 16 i))
  := by
  rw [bytesBits, List.range_succ, List.flatMap_append, List.flatMap_singleton]
  rfl

section

variable {k : Link} {w : Wires} {c : Cpu × Via} {m : Memory} {sent : List Bool} {s a h₀ : Byte}
  {i n : ℕ} {ret : Word} {tail : List (Line Label)}

/-- A round of `spi_send`. -/
theorem send_round (hresume : resume k.code ret = some tail)
    (hapart : Apart (h₀ ++ m (rc 2)) n s) (hi : i < n) :
  (via w).Rounds k.code (sendBody ret) tail
    (fun i => Progress m (sent ++ bytesBits m (h₀ ++ m (rc 2)) i) s a) (rc 3) h₀ i
  := by
  intro c h
  have hprogress := h.inv
  have hrc2 : c.1.mem (rc 2) = m (rc 2) := hprogress.mem_eq rc2_notMem
  have haddr : (Mode.indY 2).addr c.1 = (h₀ ++ m (rc 2)) + BitVec.ofNat 16 i := by
    rw [indY_addr h, hrc2]
  have hread : (Mode.indY 2).read c.1 = m ((h₀ ++ m (rc 2)) + BitVec.ofNat 16 i) := by
    rw [← hprogress.mem_eq (hapart.notMem_scratch hi), ← haddr]
    rfl
  obtain ⟨mosi, hdriven⟩ := hprogress.driven
  apply Device.Leads.plain
  · apply Device.plain_of_some rfl
    rw [haddr]
    apply hapart.not_mapped hi
  apply (sendCall_leads (c := ((Op.lda (.indY 2)).exec c.1, c.2)) hresume hdriven).trans
  rintro ⟨_, c'⟩ ⟨rfl, hdone⟩
  have ha : ((Op.lda (.indY 2)).exec c.1).a = m ((h₀ ++ m (rc 2)) + BitVec.ofNat 16 i) := hread
  rw [ha] at hdone
  apply Device.Leads.refl
  refine ⟨rfl, hdone.x_eq, hdone.y_eq, ?_, ?_⟩
  · apply hdone.mem_eq (rc_notMem (by decide))
  · dsimp only
    rw [bytesBits_succ, ← List.append_assoc]
    apply (hprogress.congr ((Op.lda (.indY 2)).exec c.1) rfl (Set.eqOn_refl _ _)).call hdone

/-! ### Receiving -/

/-- The body of a round of `spi_receive`. -/
def receiveBody (ret : Word) : List (Line Label) :=
  [.jsr ret .spiReceiveByte, .op (.sta (.indY 2))]

/-- The memory after `i` bytes were received to `data`, from the pulse `p` on. -/
def receivedImage (w : Wires) (p : ℕ) (m : Memory) (data : Word) (i : ℕ) : Memory := fun x =>
  if (x - data).toNat < i then misoByte w (p + 8 * (x - data).toNat) else m x

theorem receivedImage_zero (w : Wires) (p : ℕ) (m : Memory) (data : Word) :
  receivedImage w p m data 0 = m
  := by
  funext x
  rw [receivedImage, if_neg (Nat.not_lt_zero _)]

/-- One more byte is stored. -/
theorem receivedImage_succ (w : Wires) (p : ℕ) (m : Memory) (data : Word) (hi : i < 0x10000) :
  receivedImage w p m data (i + 1)
    = (receivedImage w p m data i).store (data + BitVec.ofNat 16 i) (misoByte w (p + 8 * i))
  := by
  funext x
  by_cases hx : x = data + BitVec.ofNat 16 i
  · have hsub : (x - data).toNat = i := by
      rw [hx]
      bv_omega
    rw [hx, Memory.store_self, ← hx, receivedImage, hsub, if_pos (Nat.lt_succ_self i)]
  · have hsub : (x - data).toNat ≠ i := by bv_omega
    rw [Memory.store_of_ne hx, receivedImage, receivedImage]
    apply if_congr _ rfl rfl
    omega

/-- The bytes that were received. -/
theorem receivedImage_data (w : Wires) (p : ℕ) (m : Memory) (data : Word) (hi : i < n)
    (hn : n ≤ 0x10000) :
  receivedImage w p m data n (data + BitVec.ofNat 16 i) = misoByte w (p + 8 * i)
  := by
  have hsub : (data + BitVec.ofNat 16 i - data).toNat = i := by bv_omega
  rw [receivedImage, hsub, if_pos hi]

/-- Another byte is not changed. -/
theorem receivedImage_of_ne (w : Wires) (p : ℕ) (m : Memory) {data x : Word}
    (hx : ∀ i < n, x ≠ data + BitVec.ofNat 16 i) :
  receivedImage w p m data n x = m x
  := by
  rw [receivedImage, if_neg]
  intro hlt
  apply hx _ hlt
  rw [BitVec.ofNat_toNat, BitVec.setWidth_eq, add_sub_cancel]

/-- A round of `spi_receive`. -/
theorem receive_round (hresume : resume k.code ret = some (.op (.sta (.indY 2)) :: tail))
    (hapart : Apart (h₀ ++ m (rc 2)) n s) (hi : i < n) (hn : n ≤ 0x10000) :
  (via w).Rounds k.code (receiveBody ret) tail
    (fun i => Progress (receivedImage w sent.length m (h₀ ++ m (rc 2)) i)
      (sent ++ List.replicate (8 * i) true) s a) (rc 3) h₀ i
  := by
  intro c h
  have hprogress := h.inv
  have hrc2 : c.1.mem (rc 2) = m (rc 2) := by
    rw [hprogress.mem_eq rc2_notMem, receivedImage_of_ne]
    intro j hj heq
    apply hapart j (hj.trans hi)
    rw [← heq]
    exact .inr (.inl rfl)
  obtain ⟨mosi, hdriven⟩ := hprogress.driven
  apply (receiveCall_leads hresume hdriven).trans
  rintro ⟨_, c'⟩ ⟨rfl, ha, hdone⟩
  dsimp only at ha hdone
  have hmem := hdone.mem_eq
  rw [hprogress.s_eq] at hmem
  have hround : AtRound (fun _ _ => True) (rc 3) h₀ i c' := by
    refine ⟨hdone.y_eq.trans h.y_eq, ?_, trivial⟩
    rw [hmem (rc_notMem (by decide)), h.hi_eq]
  have haddr : (Mode.indY 2).addr c'.1 = (h₀ ++ m (rc 2)) + BitVec.ofNat 16 i := by
    rw [indY_addr hround, hmem (rc_notMem (by decide)), hrc2]
  rw [List.length_append, List.length_replicate] at ha
  have hsta : (Op.sta (.indY 2)).exec c'.1
      = c'.1.poke ((h₀ ++ m (rc 2)) + BitVec.ofNat 16 i) (misoByte w (sent.length + 8 * i)) := by
    rw [← haddr, ← ha]
    rfl
  apply Device.Leads.plain
  · apply Device.plain_of_some rfl
    rw [haddr]
    apply hapart.not_mapped hi
  rw [hsta]
  apply Device.Leads.refl
  refine ⟨rfl, hdone.x_eq, hdone.y_eq, ?_, ?_⟩
  · apply (Memory.store_of_ne _).trans (hmem (rc_notMem (by decide)))
    intro heq
    apply hapart i hi
    rw [← heq]
    exact .inr (.inr (.inl rfl))
  · have hout : sent ++ List.replicate (8 * (i + 1)) true
        = (sent ++ List.replicate (8 * i) true) ++ List.replicate 8 true := by
      rw [List.append_assoc, List.replicate_append_replicate, Nat.mul_succ]
    dsimp only
    rw [receivedImage_succ _ _ _ _ (by omega), hout]
    apply (hprogress.call hdone).store (hapart i hi)

/-! ### The routines -/

/-- `spi_send` is a loop with a 16-bit count. -/
theorem isCounted_spiSend (k : Link) :
  IsCounted k.code .spiSend1 .spiSend2 .spiSend3 .spiSendDone (sendBody k.ret₁) (sendBody k.ret₂)
    (rc 4) (rc 3) (.rts :: k.spiReceive)
  :=
  ⟨rfl, rfl, rfl, rfl⟩

/-- `spi_receive` is a loop with a 16-bit count. -/
theorem isCounted_spiReceive (k : Link) :
  IsCounted k.code .spiReceive1 .spiReceive2 .spiReceive3 .spiReceiveDone (receiveBody k.ret₃)
    (receiveBody k.ret₄) (rc 4) (rc 3) [.rts]
  :=
  ⟨rfl, rfl, rfl, rfl⟩

/-- The four calls in the routines. -/
theorem resume_code (k : Link) (ret : Word) :
  resume k.code ret =
    if k.ret₁ = ret then some (pagesEnd .spiSend1 (rc 3) (goto k.code .spiSend2))
    else if k.ret₂ = ret then some (roundsEnd .spiSend3 (goto k.code .spiSendDone))
    else if k.ret₃ = ret then
      some (.op (.sta (.indY 2)) :: pagesEnd .spiReceive1 (rc 3) (goto k.code .spiReceive2))
    else if k.ret₄ = ret then
      some (.op (.sta (.indY 2)) :: roundsEnd .spiReceive3 (goto k.code .spiReceiveDone))
    else none
  := rfl

theorem resume_send (k : Link) :
  resume k.code k.ret₁ = some (pagesEnd .spiSend1 (rc 3) (goto k.code .spiSend2))
    ∧ resume k.code k.ret₂ = some (roundsEnd .spiSend3 (goto k.code .spiSendDone))
  := by
  have h := k.nodup
  simp only [List.nodup_cons, List.mem_cons, List.not_mem_nil, not_or, or_false] at h
  rw [resume_code, resume_code, if_pos rfl, if_neg h.1.1, if_pos rfl]
  exact ⟨rfl, rfl⟩

theorem resume_receive (k : Link) :
  resume k.code k.ret₃
      = some (.op (.sta (.indY 2)) :: pagesEnd .spiReceive1 (rc 3) (goto k.code .spiReceive2))
    ∧ resume k.code k.ret₄
      = some (.op (.sta (.indY 2)) :: roundsEnd .spiReceive3 (goto k.code .spiReceiveDone))
  := by
  have h := k.nodup
  simp only [List.nodup_cons, List.mem_cons, List.not_mem_nil, not_or, or_false] at h
  rw [resume_code, resume_code, if_neg h.1.2.1, if_neg h.2.1.1, if_pos rfl, if_neg h.1.2.2,
    if_neg h.2.1.2, if_neg h.2.2.1, if_pos rfl]
  exact ⟨rfl, rfl⟩

/-- The size is a number of 16 bits. -/
theorem size_lt (cpu : Cpu) : size cpu < 0x10000 := by
  rw [size]
  bv_omega

variable (hdriven : ∃ mosi, Driven false mosi sent c.2)

include hdriven

/-- The state at the start of a transfer. -/
theorem progress_start :
  Progress c.1.mem sent c.1.s c.1.a ((Op.sta (.abs (rc 4))).exec c.1, c.2)
  where
  s_eq := rfl
  low_eq := Memory.store_self (m := c.1.mem) (a := rc 4)
  mem_eq := store_eqOn (Set.eqOn_refl _ _) (.inr (.inr rfl))
  driven := hdriven

/-- `spi_send` sends the bits of the bytes. -/
theorem spiSend_leads (hapart : Apart (ptr c.1.mem) (size c.1) c.1.s) :
  (via w).Leads k.code (goto k.code .spiSend, c) fun q =>
    q.1.head? = some .rts
      ∧ Progress c.1.mem (sent ++ bytesBits c.1.mem (ptr c.1.mem) (size c.1)) c.1.s c.1.a q.2
  := by
  have hstart := progress_start hdriven
  rw [← List.append_nil sent] at hstart
  apply Device.Leads.label
  apply (Device.counted_leads (K := fun i => Progress c.1.mem
      (sent ++ bytesBits c.1.mem (ptr c.1.mem) i) c.1.s c.1.a)
    (fun i c cpu h hs hmem => h.congr cpu hs hmem) (isCounted_spiSend k) rfl rfl (by decide)
    (fun i c' h => h.low_eq) (fun i hi => send_round (resume_send k).1 hapart hi)
    (fun i hi => send_round (resume_send k).2 hapart hi) hstart).trans
  rintro ⟨_, c'⟩ ⟨rfl, h⟩
  apply Device.Leads.refl
  exact ⟨rfl, h⟩

/-- `spi_receive` stores the bytes that it receives. -/
theorem spiReceive_leads (hapart : Apart (ptr c.1.mem) (size c.1) c.1.s) :
  (via w).Leads k.code (goto k.code .spiReceive, c) fun q =>
    q.1.head? = some .rts
      ∧ Progress (receivedImage w sent.length c.1.mem (ptr c.1.mem) (size c.1))
        (sent ++ List.replicate (8 * size c.1) true) c.1.s c.1.a q.2
  := by
  have hstart := progress_start hdriven
  have hn := (size_lt c.1).le
  rw [← List.append_nil sent, ← receivedImage_zero w sent.length c.1.mem (ptr c.1.mem)] at hstart
  apply Device.Leads.label
  apply (Device.counted_leads (K := fun i => Progress
      (receivedImage w sent.length c.1.mem (ptr c.1.mem) i) (sent ++ List.replicate (8 * i) true)
      c.1.s c.1.a)
    (fun i c cpu h hs hmem => h.congr cpu hs hmem) (isCounted_spiReceive k) rfl rfl (by decide)
    (fun i c' h => h.low_eq) (fun i hi => receive_round (resume_receive k).1 hapart hi hn)
    (fun i hi => receive_round (resume_receive k).2 hapart hi hn) hstart).trans
  rintro ⟨_, c'⟩ ⟨rfl, h⟩
  apply Device.Leads.refl
  exact ⟨rfl, h⟩

end

/-! ### The state that the transfers need -/

/-- SCLK is driven low, MOSI is an output, and MISO is an input. -/
def Ready (v : Via) : Prop :=
  ∃ mosi, Driven false mosi v.sent v

section Init

variable {w : Wires} {c : Cpu × Via}

theorem exec_lda_port :
  ((via w).exec (.lda port) c).1.a = c.2.pins w
    ∧ ((via w).exec (.lda port) c).2 = { c.2 with reads := c.2.reads + 1 }
  :=
  ⟨fetched_mem_port, rfl⟩

/-- A change after which SCLK is low. -/
theorem drive_of_low {v v' : Via} (h : v'.ora.getLsbD 0 = false) : v.drive v' = v' := by
  rw [Via.drive, Via.sclk, Via.sclk, h, Bool.false_and, Bool.and_false, if_neg Bool.false_ne_true]

/-- A store to the port that does not pulse SCLK. -/
theorem exec_sta_port (h : c.1.a.getLsbD 0 = false) :
  ((via w).exec (.sta port) c).2 = { c.2 with ora := c.1.a }
  := by
  have hstore : ((Op.sta port).exec c.1).mem SPI_PORT = c.1.a :=
    Memory.store_self (m := c.1.mem) (a := SPI_PORT)
  have hexec : ((via w).exec (.sta port) c).2
      = c.2.drive { c.2 with ora := ((Op.sta port).exec c.1).mem SPI_PORT } := rfl
  rw [hexec, hstore, drive_of_low h]

theorem exec_lda_ddr :
  ((via w).exec (.lda (.abs SPI_DDR)) c).1.a = c.2.ddr
    ∧ ((via w).exec (.lda (.abs SPI_DDR)) c).2 = c.2
  :=
  ⟨Memory.store_self (m := c.1.mem) (a := SPI_DDR), rfl⟩

theorem exec_sta_ddr (h : c.2.ora.getLsbD 0 = false) :
  ((via w).exec (.sta (.abs SPI_DDR)) c).2 = { c.2 with ddr := c.1.a }
  := by
  have hstore : ((Op.sta (.abs SPI_DDR)).exec c.1).mem SPI_DDR = c.1.a :=
    Memory.store_self (m := c.1.mem) (a := SPI_DDR)
  have hexec : ((via w).exec (.sta (.abs SPI_DDR)) c).2
      = c.2.drive { c.2 with ddr := ((Op.sta (.abs SPI_DDR)).exec c.1).mem SPI_DDR } := rfl
  rw [hexec, hstore, drive_of_low]
  exact h

end Init

theorem getLsbD_initPort (b : Byte) : (b &&& 0xFC ||| 0x20).getLsbD 0 = false := by
  revert b
  decide +kernel

theorem getLsbD_initDdr (b : Byte) :
  ((b ||| 0x23) &&& 0xBF).getLsbD 0 = true ∧ ((b ||| 0x23) &&& 0xBF).getLsbD 1 = true
    ∧ ((b ||| 0x23) &&& 0xBF).getLsbD 6 = false
  := by
  revert b
  decide +kernel

/-- The part of `spi_init` that sets the directions of the pins. -/
theorem initDdr_leads {k : Link} {w : Wires} {c : Cpu × Via} {rest : List (Line Label)}
    (hsclk : c.2.ora.getLsbD 0 = false) :
  (via w).Leads k.code (.op (.lda (.abs SPI_DDR)) :: .op (.ora (.imm 0x23)) :: .op (.and (.imm 0xBF))
      :: .op (.sta (.abs SPI_DDR)) :: .rts :: rest, c) fun q =>
    q.1.head? = some .rts ∧ Ready q.2.2 ∧ q.2.2.sent = c.2.sent
  := by
  obtain ⟨-, hv₁⟩ := exec_lda_ddr (w := w) (c := c)
  apply Device.Leads.op
  generalize (via w).exec (.lda (.abs SPI_DDR)) c = c₁ at *
  apply Device.Leads.internal rfl
  apply Device.Leads.internal rfl
  apply Device.Leads.op
  apply Device.Leads.refl
  have hv₂ := exec_sta_ddr (w := w) (c := (run [.ora (.imm 0x23), .and (.imm 0xBF)] c₁.1, c₁.2))
    (by rw [hv₁]; exact hsclk)
  have hv₃ : ((via w).exec (.sta (.abs SPI_DDR))
      (run [.ora (.imm 0x23), .and (.imm 0xBF)] c₁.1, c₁.2)).2
      = { c.2 with ddr := (c₁.1.a ||| 0x23) &&& 0xBF } := by
    rw [hv₂, hv₁]
    rfl
  obtain ⟨h₀, h₁, h₆⟩ := getLsbD_initDdr c₁.1.a
  refine ⟨rfl, ?_⟩
  have hready : Ready { c.2 with ddr := (c₁.1.a ||| 0x23) &&& 0xBF } :=
    ⟨c.2.ora.getLsbD 1, hsclk, rfl, h₀, h₁, h₆, rfl⟩
  exact hv₃ ▸ ⟨hready, rfl⟩

/-- `spi_init` makes the VIA ready, without a pulse of SCLK. -/
theorem spiInit_leads (k : Link) (w : Wires) (c : Cpu × Via) :
  (via w).Leads k.code (goto k.code .spiInit, c) fun q =>
    q.1.head? = some .rts ∧ Ready q.2.2 ∧ q.2.2.sent = c.2.sent
  := by
  apply Device.Leads.label
  obtain ⟨-, hv₁⟩ := exec_lda_port (w := w) (c := c)
  apply Device.Leads.op
  generalize (via w).exec (.lda port) c = c₁ at *
  apply Device.Leads.internal rfl
  apply Device.Leads.internal rfl
  have hsclk : (run [.and (.imm 0xFC), .ora (.imm 0x20)] c₁.1).a.getLsbD 0 = false :=
    getLsbD_initPort c₁.1.a
  have hv₂ := exec_sta_port (w := w)
    (c := (run [.and (.imm 0xFC), .ora (.imm 0x20)] c₁.1, c₁.2)) hsclk
  have hsent : ((via w).exec (.sta port)
      (run [.and (.imm 0xFC), .ora (.imm 0x20)] c₁.1, c₁.2)).2.sent = c.2.sent := by
    rw [hv₂, hv₁]
  apply Device.Leads.op
  rw [← hsent]
  apply initDdr_leads
  exact hv₂ ▸ hsclk

/-! ### Transfers of every size -/

/-- The `n` addresses from `data` on. -/
def dataBytes (data : Word) (n : ℕ) : Set Word :=
  {x | ∃ i < n, x = data + BitVec.ofNat 16 i}

/-- For every size, `spi_receive` gives 8 pulses for each byte and stores the levels of MISO in these,
and `spi_send` sends the bits of the bytes; they change nothing else but the registers `rc3`, `rc4`
and `rc5` and the stack below the return address. -/
theorem spi_transfer (k : Link) (w : Wires) (c : Cpu × Via) (hready : Ready c.2)
    (hapart : Apart (ptr c.1.mem) (size c.1) c.1.s) :
  ((via w).Leads k.code (goto k.code .spiReceive, c) fun q =>
    q.1.head? = some .rts ∧ q.2.1.s = c.1.s ∧ Ready q.2.2
      ∧ q.2.2.sent.length = c.2.sent.length + 8 * size c.1
      ∧ (∀ i < size c.1, byteBits (q.2.1.mem (ptr c.1.mem + BitVec.ofNat 16 i))
          = misoBits w (c.2.sent.length + 8 * i) 8)
      ∧ Set.EqOn q.2.1.mem c.1.mem (scratch c.1.s ∪ dataBytes (ptr c.1.mem) (size c.1))ᶜ)
  ∧ (via w).Leads k.code (goto k.code .spiSend, c) fun q =>
    q.1.head? = some .rts ∧ q.2.1.s = c.1.s ∧ Ready q.2.2
      ∧ q.2.2.sent = c.2.sent ++ bytesBits c.1.mem (ptr c.1.mem) (size c.1)
      ∧ Set.EqOn q.2.1.mem c.1.mem (scratch c.1.s)ᶜ
  := by
  have hn := (size_lt c.1).le
  constructor
  · apply (spiReceive_leads hready hapart).trans
    rintro q ⟨hrts, h⟩
    obtain ⟨mosi, hdriven⟩ := h.driven
    apply Device.Leads.refl
    refine ⟨hrts, h.s_eq, ⟨mosi, hdriven.sent_eq ▸ hdriven⟩, ?_, ?_, ?_⟩
    · rw [hdriven.sent_eq, List.length_append, List.length_replicate]
    · intro i hi
      rw [h.mem_eq (hapart.notMem_scratch hi), receivedImage_data _ _ _ _ hi hn,
        byteBits_misoByte]
    · intro x hx
      rw [h.mem_eq (fun hmem => hx (.inl hmem)), receivedImage_of_ne]
      intro i hi heq
      exact hx (.inr ⟨i, hi, heq⟩)
  · apply (spiSend_leads hready hapart).trans
    rintro q ⟨hrts, h⟩
    obtain ⟨mosi, hdriven⟩ := h.driven
    apply Device.Leads.refl
    exact ⟨hrts, h.s_eq, ⟨mosi, hdriven.sent_eq ▸ hdriven⟩, hdriven.sent_eq, h.mem_eq⟩

/-- A link. -/
def linkRom : Link := ⟨0xA100, 0xA110, 0xA120, 0xA130, by decide⟩

/-- MISO is high in every third pulse. -/
def wiresThird : Wires where
  miso := fun i => i % 3 == 0
  inputs := fun _ => 0

/-- The arguments `data = 0x0300` and `size = 257`, with the VIA as `spi_init` leaves it. -/
def call257 : Cpu × Via where
  fst :=
    { a := 1
      x := 1
      y := 0
      s := 0xF0
      n := false
      v := false
      d := false
      i := false
      z := false
      c := false
      mem := fun x => if x = 3 then 3 else 0 }
  snd := ⟨0x20, 0x23, 0, []⟩

theorem apart_call257 : Apart (ptr call257.1.mem) (size call257.1) call257.1.s := by
  have hptr : ptr call257.1.mem = 0x0300 := by decide
  have hsize : size call257.1 = 257 := by decide
  rw [hptr, hsize]
  intro i hi
  simp only [reserved, callScratch, byteScratch, Set.mem_union, Set.mem_insert_iff,
    Set.mem_singleton_iff, not_or, rc, SPI_PORT, SPI_DDR, Cpu.stackAddr]
  bv_omega

/-- A transfer of 257 bytes from the first pulse on: the last byte has the bits 2048 to 2055. -/
theorem spi_transfer_257 :
  (via wiresThird).Leads linkRom.code (goto linkRom.code .spiReceive, call257) fun q =>
    q.2.2.sent.length = 2056
      ∧ byteBits (q.2.1.mem 0x0400) = [false, true, false, false, true, false, false, true]
  := by
  have hready : Ready call257.2 := ⟨false, by decide, by decide, by decide, by decide, by decide, rfl⟩
  apply (spi_transfer linkRom wiresThird call257 hready apart_call257).1.trans
  rintro q ⟨-, -, -, hlength, hdata, -⟩
  apply Device.Leads.refl
  have hptr : ptr call257.1.mem = 0x0300 := by decide
  have hsize : size call257.1 = 257 := by decide
  rw [hptr, hsize] at hdata
  rw [hsize] at hlength
  exact ⟨hlength, (hdata 256 (by decide)).trans (by decide)⟩

end Mosnix.Spi
