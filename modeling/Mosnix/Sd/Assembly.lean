import Mosnix.Fat.Volume
import Mosnix.Lib.Mos6502Long
import Mosnix.Target.Registers

/-!
# The mapping of clusters in assembly code

The routine `sd_cluster_to_block` of `sdasm.S`, which computes with the four bytes of a cluster
number in `A`, `X` and imaginary registers.  It returns what `sd_cluster_to_block` of `sdcard.c`
does.
-/

namespace Mosnix.SdAsm

open Mos6502

/-- The size of `sd_info_t`. -/
def SIZEOF_SD_INFO : ℕ := 557

def ofs_cluster_shift : ℕ := 3
def ofs_cluster_offset : ℕ := 28
def ofs_cluster_count : ℕ := 32
def ofs_block : ℕ := 45

/-- The address of `sd_info`, which the linker assigns.  The variable does not overlap the imaginary
registers. -/
structure Link where
  sdInfo : Word
  sdInfo_lo : 0x20 ≤ sdInfo
  sdInfo_hi : sdInfo.toNat + SIZEOF_SD_INFO ≤ 0x10000

/-- The labels of the routines. -/
inductive Label where
  | clusterToBlockOk
  | clusterToBlockShift
  | clusterToBlockShiftDone
  | clusterToBlockError
  | getSizeV1
  | getSizeV2
  | getSizeShift
  | getSizeShiftDone
  deriving DecidableEq

/-- The 32-bit value in `A:X:rc2:rc3`. -/
def axValue (cpu : Cpu) : Long :=
  Mos6502.long (cpu.mem (rc 3)) (cpu.mem (rc 2)) cpu.x cpu.a

/-- The 32-bit value that the routines keep in `rc4:rc5:rc2:rc3`. -/
def work : Place := ⟨rc 4, rc 5, rc 2, rc 3, by decide⟩

theorem rc4_mem : rc 4 ∈ work.bytes := .inl rfl
theorem rc2_mem : rc 2 ∈ work.bytes := .inr (.inr (.inl rfl))
theorem rc3_mem : rc 3 ∈ work.bytes := .inr (.inr (.inr rfl))

namespace Link

variable (k : Link) {m m' : Memory}

/-- The address of a byte of `sd_info`. -/
def addr (offset : ℕ) : Word :=
  k.sdInfo + BitVec.ofNat 16 offset

/-- A byte of `sd_info` as an operand. -/
def field (offset : ℕ) : Mode := .abs (k.addr offset)

/-- The value of `sd_info` in a memory. -/
def info (m : Memory) : Fat.SdInfo where
  clusterSize := m (k.addr 2)
  clusterShift := m (k.addr ofs_cluster_shift)
  fat1 := Fat.long (fun i => m (k.addr i)) 12
  root := Fat.long (fun i => m (k.addr i)) 24
  clusterOffset := Fat.long (fun i => m (k.addr i)) ofs_cluster_offset
  clusterCount := Fat.long (fun i => m (k.addr i)) ofs_cluster_count
  block := fun i => m (k.addr (ofs_block + i))

/-! ### The code -/

/-- The subtraction of 2. -/
def subtractOps : List Op :=
  [ .sec,
    .sbc (.imm 2),
    .sta (reg 4),
    .txa,
    .sbc (.imm 0),
    .sta (reg 5),
    .lda (reg 2),
    .sbc (.imm 0),
    .sta (reg 2),
    .lda (reg 3),
    .sbc (.imm 0),
    .sta (reg 3) ]

/-- The subtraction, and the test for a cluster number less than 2. -/
def clusterSubtract : List (Line Label) :=
  subtractOps.map .op ++ [.branch .cc .clusterToBlockError]

/-- The test against the number of clusters. -/
def clusterCompare : List (Line Label) :=
  [ .op (.cmp (k.field (ofs_cluster_count + 3))),
    .branch .cc .clusterToBlockOk,
    .branch .ne .clusterToBlockError,
    .op (.lda (reg 2)),
    .op (.cmp (k.field (ofs_cluster_count + 2))),
    .branch .cc .clusterToBlockOk,
    .branch .ne .clusterToBlockError,
    .op (.lda (reg 5)),
    .op (.cmp (k.field (ofs_cluster_count + 1))),
    .branch .cc .clusterToBlockOk,
    .branch .ne .clusterToBlockError,
    .op (.lda (reg 4)),
    .op (.cmp (k.field ofs_cluster_count)),
    .branch .cs .clusterToBlockError ]

/-- The shift by the size of a cluster. -/
def clusterShift : List (Line Label) :=
  [ .label .clusterToBlockOk,
    .op (.ldx (k.field ofs_cluster_shift)),
    .branch .eq .clusterToBlockShiftDone,
    .label .clusterToBlockShift,
    .op (.asl (reg 4)),
    .op (.rol (reg 5)),
    .op (.rol (reg 2)),
    .op (.rol (reg 3)),
    .op .dex,
    .branch .ne .clusterToBlockShift ]

/-- The addition of the start of the clusters. -/
def addOps : List Op :=
  [ .lda (reg 4),
    .clc,
    .adc (k.field ofs_cluster_offset),
    .sta (reg 4),
    .lda (reg 5),
    .adc (k.field (ofs_cluster_offset + 1)),
    .tax,
    .lda (reg 2),
    .adc (k.field (ofs_cluster_offset + 2)),
    .sta (reg 2),
    .lda (reg 3),
    .adc (k.field (ofs_cluster_offset + 3)),
    .sta (reg 3),
    .lda (reg 4) ]

/-- The addition, and the return. -/
def clusterAdd : List (Line Label) :=
  .label .clusterToBlockShiftDone :: k.addOps.map .op ++ [.rts]

/-- The instructions that return 0; both routines contain them. -/
def zeroOps : List Op :=
  [ .lda (.imm 0),
    .tax,
    .sta (reg 2),
    .sta (reg 3) ]

/-- The exit for an error. -/
def clusterError : List (Line Label) :=
  .label .clusterToBlockError :: zeroOps.map .op ++ [.rts]

/-- `sd_cluster_to_block` -/
def sdClusterToBlock : List (Line Label) :=
  clusterSubtract ++ k.clusterCompare ++ k.clusterShift ++ k.clusterAdd ++ clusterError

/-! ### Addresses -/

/-- The address of a byte of `sd_info` is not that of an imaginary register. -/
theorem addr_ne_rc {offset i : ℕ} (hoffset : offset < SIZEOF_SD_INFO) (hi : i < 0x20) :
  k.addr offset ≠ rc i
  := by
  have hlo := k.sdInfo_lo
  have hhi := k.sdInfo_hi
  simp only [SIZEOF_SD_INFO] at hoffset hhi
  simp only [addr, rc]
  bv_omega

/-- A byte of `sd_info` after a store to an imaginary register. -/
theorem store_rc_addr {offset i : ℕ} {b : Byte} (hoffset : offset < SIZEOF_SD_INFO)
    (hi : i < 0x20) :
  (m.store (rc i) b) (k.addr offset) = m (k.addr offset)
  :=
  Memory.store_of_ne (k.addr_ne_rc hoffset hi)

/-- The information is apart from the registers. -/
theorem addr_notMem_work {offset : ℕ} (hoffset : offset < SIZEOF_SD_INFO) :
  k.addr offset ∉ work.bytes
  := by
  simp only [Place.bytes, work, Set.mem_insert_iff, Set.mem_singleton_iff, not_or]
  refine ⟨?_, ?_, ?_, ?_⟩ <;> exact k.addr_ne_rc hoffset (by decide)

/-- The routines do not change the fields that they read. -/
theorem addr_of_eqOn {offset : ℕ} (h : Set.EqOn m' m work.bytesᶜ)
    (hoffset : offset < SIZEOF_SD_INFO) :
  m' (k.addr offset) = m (k.addr offset)
  :=
  h (k.addr_notMem_work hoffset)

theorem fat_long_eq (block : ℕ → Byte) (i : ℕ) :
  Fat.long block i = Mos6502.long (block (i + 3)) (block (i + 2)) (block (i + 1)) (block i)
  := by
  apply BitVec.eq_of_toNat_eq
  rw [long_toNat]
  simp only [Fat.long, Fat.word, append_toNat]
  have hsucc : i + 2 + 1 = i + 3 := rfl
  rw [hsucc]
  omega

/-! ### The subtraction -/

/-- The number of the cluster without the two reserved ones. -/
theorem subtractOps_get (cpu : Cpu) :
  work.get (run subtractOps cpu).mem = axValue cpu - 2
  := by
  have h := sums_sub (cpu.mem (rc 3)) (cpu.mem (rc 2)) cpu.x cpu.a 0 0 0 2
  have h' : work.get (run subtractOps cpu).mem = _ := work.get_store
  apply h'.trans
  apply h

theorem subtractOps_eqOn (cpu : Cpu) :
  Set.EqOn (run subtractOps cpu).mem cpu.mem work.bytesᶜ
  :=
  work.store_eqOn_bytes

/-- The carry tells whether the cluster is a reserved one. -/
theorem subtractOps_c (cpu : Cpu) : (run subtractOps cpu).c = decide (2 ≤ axValue cpu) :=
  sums_sub_carry (cpu.mem (rc 3)) (cpu.mem (rc 2)) cpu.x cpu.a 0 0 0 2

/-! ### The comparison -/

/-- The cluster number is compared with the number of clusters from the high byte down. -/
theorem lt_clusterCount_iff (m : Memory) :
  work.get m < (k.info m).clusterCount
    ↔ m (rc 3) < m (k.addr 35) ∨ m (rc 3) = m (k.addr 35)
      ∧ (m (rc 2) < m (k.addr 34) ∨ m (rc 2) = m (k.addr 34)
        ∧ (m (rc 5) < m (k.addr 33) ∨ m (rc 5) = m (k.addr 33) ∧ m (rc 4) < m (k.addr 32)))
  := by
  simp only [info, fat_long_eq]
  apply long_lt_iff

/-- The rest of the routine after the subtraction. -/
theorem clusterCompare_leads {cpu : Cpu} {Q : List (Line Label) × Cpu → Prop}
    (ha : cpu.a = cpu.mem (rc 3))
    (hok : work.get cpu.mem < (k.info cpu.mem).clusterCount →
      ∀ cpu' : Cpu, cpu'.mem = cpu.mem → cpu'.s = cpu.s →
        Leads k.sdClusterToBlock (goto k.sdClusterToBlock .clusterToBlockOk, cpu') Q)
    (herror : ¬ work.get cpu.mem < (k.info cpu.mem).clusterCount →
      ∀ cpu' : Cpu, cpu'.mem = cpu.mem → cpu'.s = cpu.s →
        Leads k.sdClusterToBlock (goto k.sdClusterToBlock .clusterToBlockError, cpu') Q) :
  Leads k.sdClusterToBlock
    (k.clusterCompare ++ (k.clusterShift ++ (k.clusterAdd ++ clusterError)), cpu) Q
  := by
  rw [lt_clusterCount_iff, ← ha] at hok herror
  apply Leads.compare
  · intro hlt
    apply hok (.inl hlt) <;> rfl
  · intro (hgt : cpu.mem (k.addr 35) < cpu.a)
    apply herror (by bv_omega) <;> rfl
  intro (h₃ : cpu.a = cpu.mem (k.addr 35))
  apply Leads.op
  apply Leads.compare
  · intro hlt
    apply hok (.inr ⟨h₃, .inl hlt⟩) <;> rfl
  · intro (hgt : cpu.mem (k.addr 34) < cpu.mem (rc 2))
    apply herror (by bv_omega) <;> rfl
  intro (h₂ : cpu.mem (rc 2) = cpu.mem (k.addr 34))
  apply Leads.op
  apply Leads.compare
  · intro hlt
    apply hok (.inr ⟨h₃, .inr ⟨h₂, .inl hlt⟩⟩) <;> rfl
  · intro (hgt : cpu.mem (k.addr 33) < cpu.mem (rc 5))
    apply herror (by bv_omega) <;> rfl
  intro (h₁ : cpu.mem (rc 5) = cpu.mem (k.addr 33))
  apply Leads.op
  apply Leads.op
  by_cases h₀ : cpu.mem (rc 4) < cpu.mem (k.addr 32)
  · apply Leads.noBranch
    · apply decide_eq_false (BitVec.not_le.mpr h₀)
    · apply hok (.inr ⟨h₃, .inr ⟨h₂, .inr ⟨h₁, h₀⟩⟩⟩) <;> rfl
  · apply Leads.branch
    · apply decide_eq_true (BitVec.not_lt.mp h₀)
    · apply herror (by bv_omega) <;> rfl

/-! ### The shift -/

/-- The loop shifts by the size of a cluster. -/
theorem clusterShift_leads (cpu : Cpu) :
  Leads k.sdClusterToBlock (goto k.sdClusterToBlock .clusterToBlockOk, cpu) fun q =>
    q.1 = k.clusterAdd.tail ++ clusterError ∧ q.2.s = cpu.s
      ∧ work.Shifted (k.info cpu.mem).clusterShift.toNat cpu.mem q.2.mem
  := by
  apply Leads.label
  apply Leads.op
  apply work.shiftBy_leads [] <;> rfl

/-! ### The addition -/

/-- The sums of the bytes, where the bytes `b₀` and `b₂` are stored before others are read. -/
theorem addOps_sums (cpu : Cpu) :
  ∃ b₀ b₂, axValue (run k.addOps cpu)
    = (sums (cpu.mem (rc 3)) (cpu.mem (rc 2)) (cpu.mem (rc 5)) (cpu.mem (rc 4))
        (((cpu.mem.store (rc 4) b₀).store (rc 2) b₂) (k.addr 31))
        ((cpu.mem.store (rc 4) b₀) (k.addr 30)) ((cpu.mem.store (rc 4) b₀) (k.addr 29))
        (cpu.mem (k.addr 28)) false).1
  :=
  ⟨_, _, rfl⟩

/-- The offset of the clusters is added. -/
theorem addOps_value (cpu : Cpu) :
  axValue (run k.addOps cpu) = work.get cpu.mem + (k.info cpu.mem).clusterOffset
  := by
  obtain ⟨b₀, b₂, hsums⟩ := k.addOps_sums cpu
  rw [hsums, sums_add]
  simp only [info, fat_long_eq]
  rw [k.store_rc_addr (by decide) (by decide), k.store_rc_addr (by decide) (by decide),
    k.store_rc_addr (by decide) (by decide), k.store_rc_addr (by decide) (by decide)]
  rfl

theorem addOps_eqOn (cpu : Cpu) :
  Set.EqOn (run k.addOps cpu).mem cpu.mem work.bytesᶜ
  :=
  store_eqOn (store_eqOn (store_eqOn (Set.eqOn_refl _ _) rc4_mem) rc2_mem) rc3_mem

/-! ### The exit for an error -/

theorem zeroOps_value (cpu : Cpu) : axValue (run zeroOps cpu) = 0 := by
  have hzero : Mos6502.long 0 0 0 0 = 0 := by decide
  exact hzero

theorem zeroOps_s (cpu : Cpu) : (run zeroOps cpu).s = cpu.s := rfl

theorem zeroOps_eqOn (cpu : Cpu) : Set.EqOn (run zeroOps cpu).mem cpu.mem work.bytesᶜ :=
  store_eqOn (store_eqOn (Set.eqOn_refl _ _) rc2_mem) rc3_mem

/-! ### The routine -/

/-- The routine has returned, with a value in `A:X:rc2:rc3`.  It has changed no byte outside the
imaginary registers that it may change. -/
structure Returned (cpu : Cpu) (value : Long) (q : List (Line Label) × Cpu) : Prop where
  rts : q.1.head? = some .rts
  value_eq : axValue q.2 = value
  s_eq : q.2.s = cpu.s
  eqOn : Set.EqOn q.2.mem cpu.mem work.bytesᶜ

/-- A return from a part of the routine is one from the routine. -/
theorem Returned.of_eqOn {cpu cpu' : Cpu} {value : Long} {q : List (Line Label) × Cpu}
    (h : Returned cpu' value q) (hs : cpu'.s = cpu.s)
    (hmem : Set.EqOn cpu'.mem cpu.mem work.bytesᶜ) :
  Returned cpu value q
  where
  rts := h.rts
  value_eq := h.value_eq
  s_eq := h.s_eq.trans hs
  eqOn := h.eqOn.trans hmem

/-- Block 0 is returned for a wrong cluster. -/
theorem clusterError_leads (cpu : Cpu) :
  Leads k.sdClusterToBlock (goto k.sdClusterToBlock .clusterToBlockError, cpu) (Returned cpu 0)
  := by
  apply Leads.label
  apply Leads.ops zeroOps
  apply Leads.refl
  exact ⟨rfl, zeroOps_value cpu, zeroOps_s cpu, zeroOps_eqOn cpu⟩

/-- The offset is added, and the sum returned. -/
theorem clusterAdd_leads (cpu : Cpu) :
  Leads k.sdClusterToBlock (k.clusterAdd.tail ++ clusterError, cpu)
    (Returned cpu (work.get cpu.mem + (k.info cpu.mem).clusterOffset))
  := by
  apply Leads.ops k.addOps
  apply Leads.refl
  exact ⟨rfl, k.addOps_value cpu, rfl, k.addOps_eqOn cpu⟩

/-- The fields of `sd_info` after a part of the routine. -/
theorem info_of_eqOn (h : Set.EqOn m' m work.bytesᶜ) :
  (k.info m').clusterShift = (k.info m).clusterShift
    ∧ (k.info m').clusterOffset = (k.info m).clusterOffset
    ∧ (k.info m').clusterCount = (k.info m).clusterCount
  := by
  simp (disch := decide) only [info, fat_long_eq, k.addr_of_eqOn h, and_self]

/-- The first block of the cluster is returned. -/
theorem clusterOk_leads (cpu : Cpu) :
  Leads k.sdClusterToBlock (goto k.sdClusterToBlock .clusterToBlockOk, cpu)
    (Returned cpu ((k.info cpu.mem).clusterOffset
      + work.get cpu.mem <<< (k.info cpu.mem).clusterShift.toNat))
  := by
  apply (k.clusterShift_leads cpu).trans
  rintro ⟨_, cpu'⟩ ⟨rfl, hs, hshifted⟩
  apply (k.clusterAdd_leads cpu').trans
  intro q hq
  apply Leads.refl
  obtain ⟨-, hoffset, -⟩ := k.info_of_eqOn hshifted.eqOn
  rw [hshifted.get_eq, hoffset, BitVec.add_comm] at hq
  apply hq.of_eqOn hs hshifted.eqOn

/-- The routine returns the block that the C code computes. -/
theorem sdClusterToBlock_returned (cpu : Cpu) :
  Leads k.sdClusterToBlock (k.sdClusterToBlock, cpu)
    (Returned cpu (Fat.sdClusterToBlock (k.info cpu.mem) (axValue cpu)))
  := by
  apply Leads.ops subtractOps
  have hc := subtractOps_c cpu
  have hget := subtractOps_get cpu
  have hs₀ : (run subtractOps cpu).s = cpu.s := rfl
  have hframe := subtractOps_eqOn cpu
  obtain ⟨hshift, hoffset, hcount⟩ := k.info_of_eqOn hframe
  rw [Fat.sdClusterToBlock]
  by_cases hlt : axValue cpu < 2
  · rw [if_pos hlt]
    apply Leads.branch
    · rw [Cond.holds, hc, decide_eq_false (BitVec.not_le.mpr hlt), Bool.not_false]
    · apply (k.clusterError_leads _).trans
      intro q hq
      apply Leads.refl
      apply hq.of_eqOn hs₀ hframe
  rw [if_neg hlt]
  apply Leads.noBranch
  · rw [Cond.holds, hc, decide_eq_true (BitVec.not_lt.mp hlt), Bool.not_true]
  apply k.clusterCompare_leads rfl
  · rw [hget, hcount]
    intro hin cpu' hmem hs
    rw [if_neg (BitVec.not_le.mpr hin)]
    apply (k.clusterOk_leads cpu').trans
    intro q hq
    rw [hmem, hget, hoffset, hshift] at hq
    rw [← hmem] at hframe
    apply Leads.refl
    apply hq.of_eqOn (hs.trans hs₀) hframe
  · rw [hget, hcount]
    intro hout cpu' hmem hs
    rw [if_pos (BitVec.not_lt.mp hout)]
    apply (k.clusterError_leads cpu').trans
    intro q hq
    rw [← hmem] at hframe
    apply Leads.refl
    apply hq.of_eqOn (hs.trans hs₀) hframe

end Link

/-- The variable `sd_info` at the address `0x0200`. -/
def link0200 : Link where
  sdInfo := 0x0200
  sdInfo_lo := by decide
  sdInfo_hi := by decide

/-- A volume with 10 clusters of 4 blocks, the first of which is the block 100. -/
def volumeMemory : Memory := fun a =>
  if a = link0200.addr ofs_cluster_shift then 2
  else if a = link0200.addr ofs_cluster_offset then 100
  else if a = link0200.addr ofs_cluster_count then 10
  else 0

/-- The cluster 5 is the fourth one. -/
theorem sdClusterToBlock_returned_five :
  Leads link0200.sdClusterToBlock (link0200.sdClusterToBlock, { Cpu.ofMemory volumeMemory with a := 5 })
    fun q => q.1.head? = some .rts ∧ axValue q.2 = 112
  := by
  apply (link0200.sdClusterToBlock_returned _).trans
  intro q hq
  apply Leads.refl
  exact ⟨hq.rts, hq.value_eq.trans (by decide)⟩

end Mosnix.SdAsm
