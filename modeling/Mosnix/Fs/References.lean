import Mosnix.Fs.WellFormed

/-!
# References to inodes

`Extends s s' held infos` says that `s'` is the file system `s` with the references `held` in
addition.  A reference is to an inode of `s`, or to an inode of the FAT file system that `s` does
not have.  The buffers `infos` are information about files that no inode of `s'` has.

Taking a reference, giving one up, and the creation of an inode of the FAT file system change the
references that are held, and nothing else.  A file system that extends another one without any
references is the same (`Extends.unchanged`).
-/

namespace Mosnix.Fs

open Fat Program

variable {σ : Type} {s s' s'' : FileSystem σ} {b c j : BufId} {i : Inode}
  {held held' infos infos' : List BufId}

/-! ### The relation -/

/-- The contents of a buffer with `n` references in addition. -/
def Buffer.addRefs (n : ℕ) : Buffer → Buffer
  | .inode i => .inode { i with count := i.count + n }
  | x => x

/-- A buffer `b` that is free in the buffers `m` is free in `m'`, or it is used for an inode, for the
information of such an inode, or for other information. -/
inductive New (m m' : BufId → Buffer) (held infos : List BufId) (b : BufId) : Prop where
  | raw (hbuf : m' b = .raw)
  | inode (i : Inode) (hbuf : m' b = .inode i) (hop : i.op = .fatfs)
      (hcount : i.count = held.count b) (hheld : b ∈ held)
  | owned (b' : BufId) (i : Inode) (hfree : m b' = .raw) (hbuf : m' b' = .inode i)
      (hinfo : i.fatfsInfo = some b)
  | info (hmem : b ∈ infos)

/-- The file system `s'` is `s` with the references `held` and the information `infos` in
addition. -/
structure Extends (s s' : FileSystem σ) (held infos : List BufId) : Prop extends FreeListOk s' where
  root_eq : s'.root = s.root
  old : ∀ b, s.buf b ≠ .raw → s'.buf b = (s.buf b).addRefs (held.count b)
  new : ∀ b, s.buf b = .raw → New s.buf s'.buf held infos b
  held_inode : ∀ b ∈ held, ∃ i, s'.buf b = .inode i
  owner : ∀ b i, s.buf b = .raw → s'.buf b = .inode i →
    ∃ j x, i.fatfsInfo = some j ∧ s.buf j = .raw ∧ s'.buf j = .info x ∧ j ∉ infos
  owner_unique : ∀ b c i i' j, s.buf b = .raw → s.buf c = .raw → s'.buf b = .inode i →
    s'.buf c = .inode i' → i.fatfsInfo = some j → i'.fatfsInfo = some j → b = c
  infos_nodup : infos.Nodup
  infos_new : ∀ b ∈ infos, s.buf b = .raw ∧ ∃ x, s'.buf b = .info x

@[simp]
theorem Buffer.addRefs_zero (x : Buffer) : x.addRefs 0 = x := by
  cases x with
  | inode i => simp [Buffer.addRefs]
  | _ => rfl

theorem Buffer.addRefs_add (x : Buffer) (m n : ℕ) : (x.addRefs m).addRefs n = x.addRefs (n + m) := by
  cases x with
  | inode i =>
      simp only [Buffer.addRefs, Buffer.inode.injEq, Inode.mk.injEq, true_and, and_true]
      omega
  | _ => rfl

theorem Buffer.addRefs_ne_raw {x : Buffer} {n : ℕ} (h : x ≠ .raw) : x.addRefs n ≠ .raw := by
  cases x with
  | raw => contradiction
  | _ => simp [Buffer.addRefs]

/-- An inode with more references comes from an inode. -/
theorem Buffer.addRefs_eq_inode {x : Buffer} {n : ℕ} (h : x.addRefs n = .inode i) :
  ∃ i', x = .inode i' ∧ i = { i' with count := i'.count + n }
  := by
  cases x with
  | inode i' => exact ⟨i', rfl, (Buffer.inode.inj h).symm⟩
  | _ => cases h

namespace Extends

/-- A well-formed file system extends itself without references. -/
theorem refl (hs : WellFormed s) : Extends s s [] [] where
  root_eq := rfl
  toFreeListOk := hs.toFreeListOk
  old b _ := by simp
  new b hb := .raw hb
  held_inode b hb := by simp at hb
  owner b i hb hi := by simp [hb] at hi
  owner_unique b c i i' j hb hc hi := by simp [hb] at hi
  infos_nodup := List.nodup_nil
  infos_new b hb := by simp at hb

variable (h : Extends s s' held infos)

include h

/-- The order of the references does not matter. -/
theorem perm (hperm : held.Perm held') :
  Extends s s' held' infos
  where
  root_eq := h.root_eq
  toFreeListOk := h.toFreeListOk
  old b hb := by rw [h.old b hb, hperm.count_eq]
  new b hb := by
    cases h.new b hb with
    | raw hbuf => apply New.raw hbuf
    | inode i hbuf hop hcount hheld =>
        apply New.inode i hbuf hop _ (hperm.mem_iff.mp hheld)
        rw [hcount, hperm.count_eq]
    | owned b' i hfree hbuf hinfo => apply New.owned b' i hfree hbuf hinfo
    | info hmem => apply New.info hmem
  held_inode b hb := h.held_inode b (hperm.mem_iff.mpr hb)
  owner := h.owner
  owner_unique := h.owner_unique
  infos_nodup := h.infos_nodup
  infos_new := h.infos_new

theorem perm_infos (hperm : infos.Perm infos') :
  Extends s s' held infos'
  where
  root_eq := h.root_eq
  toFreeListOk := h.toFreeListOk
  old := h.old
  new b hb := by
    cases h.new b hb with
    | raw hbuf => apply New.raw hbuf
    | inode i hbuf hop hcount hheld => apply New.inode i hbuf hop hcount hheld
    | owned b' i hfree hbuf hinfo => apply New.owned b' i hfree hbuf hinfo
    | info hmem => apply New.info (hperm.mem_iff.mp hmem)
  held_inode := h.held_inode
  owner b i hb hi := by
    obtain ⟨j, x, hj, hjraw, hx, hmem⟩ := h.owner b i hb hi
    exact ⟨j, x, hj, hjraw, hx, fun hj' => hmem (hperm.mem_iff.mpr hj')⟩
  owner_unique := h.owner_unique
  infos_nodup := hperm.nodup_iff.mp h.infos_nodup
  infos_new b hb := h.infos_new b (hperm.mem_iff.mpr hb)

/-- A buffer that is not free stays so. -/
theorem ne_raw (hb : s.buf b ≠ .raw) : s'.buf b ≠ .raw := by
  rw [h.old b hb]
  apply Buffer.addRefs_ne_raw hb

/-- A buffer that is not an inode stays as it is. -/
theorem dirent_eq {e : RamfsDirent} (hb : s.buf b = .dirent e) :
  s'.buf b = .dirent e
  := by
  rw [h.old b (by simp [hb]), hb]
  rfl

theorem info_eq {x : FatfsInodeInfo} (hb : s.buf b = .info x) :
  s'.buf b = .info x
  := by
  rw [h.old b (by simp [hb]), hb]
  rfl

/-- An inode that was there has the references that are held in addition. -/
theorem inode_eq (hb : s.buf b = .inode i) :
  s'.buf b = .inode { i with count := i.count + held.count b }
  := by
  rw [h.old b (by simp [hb]), hb]
  rfl

/-- An inode of the extended file system that is not an inode of the file system is one of the FAT
file system, with a reference. -/
theorem inode_cases (hb : s'.buf b = .inode i) :
  (∃ i', s.buf b = .inode i' ∧ i = { i' with count := i'.count + held.count b })
    ∨ s.buf b = .raw ∧ i.op = .fatfs ∧ i.count = held.count b ∧ b ∈ held
  := by
  by_cases hraw : s.buf b = .raw
  · right
    cases h.new b hraw with
    | raw hbuf => simp [hbuf] at hb
    | inode i' hbuf hop hcount hheld =>
        rw [hbuf] at hb
        cases hb
        exact ⟨hraw, hop, hcount, hheld⟩
    | owned b' i' hfree hbuf hinfo =>
        obtain ⟨j, x, hj, -, hx, -⟩ := h.owner b' i' hfree hbuf
        rw [hinfo] at hj
        cases hj
        simp [hx] at hb
    | info hmem =>
        obtain ⟨-, x, hx⟩ := h.infos_new b hmem
        simp [hx] at hb
  · left
    rw [h.old b hraw] at hb
    obtain ⟨i', hi', rfl⟩ := Buffer.addRefs_eq_inode hb
    exact ⟨i', hi', rfl⟩

/-- A file system that extends a well-formed one is well formed. -/
theorem wellFormed (hs : WellFormed s) : WellFormed s' where
  toFreeListOk := h.toFreeListOk
  root := by
    obtain ⟨i, hi⟩ := hs.root
    rw [h.root_eq]
    exact ⟨_, h.inode_eq hi⟩
  inodeOk b i hi := by
    obtain ⟨i', hi', rfl⟩ | ⟨hraw, hop, hcount, hheld⟩ := h.inode_cases hi
    · have hok := hs.inodeOk b i' hi'
      constructor
      · have hpos := hok.count_pos
        dsimp only
        omega
      · intro hop
        obtain ⟨j, x, hj, hx⟩ := hok.info hop
        exact ⟨j, x, hj, h.info_eq hx⟩
      · intro hop hdir
        obtain ⟨l, hl, hinodes⟩ := hok.chain hop hdir
        refine ⟨l, hl.congr fun b e => h.dirent_eq, ?_⟩
        intro e he
        obtain ⟨c, ci, hc, hci⟩ := hinodes e he
        exact ⟨c, _, hc, h.inode_eq hci⟩
      · intro hop hdir m hm
        obtain ⟨mi, hmi, hfat⟩ := hok.mount hop hdir m hm
        exact ⟨_, h.inode_eq hmi, hfat⟩
    · constructor
      · have hpos := List.count_pos_iff.mpr hheld
        omega
      · intro _
        obtain ⟨j, x, hj, -, hx, -⟩ := h.owner b i hraw hi
        exact ⟨j, x, hj, hx⟩
      · intro hram
        simp [hram] at hop
      · intro hram
        simp [hram] at hop

/-- The driver of the SD card does not change the references. -/
theorem callSd (sd : σ) :
  Extends s { s' with sd := sd } held infos
  where
  root_eq := h.root_eq
  free_nodup := h.free_nodup
  mem_free := h.mem_free
  old := h.old
  new := h.new
  held_inode := h.held_inode
  owner := h.owner
  owner_unique := h.owner_unique
  infos_nodup := h.infos_nodup
  infos_new := h.infos_new

/-- A buffer that is free was free. -/
theorem raw_of_raw (hb : s'.buf b = .raw) : s.buf b = .raw := by
  by_contra hne
  apply h.ne_raw hne hb

/-- The inode of an extension of an extension. -/
theorem trans_inode (h' : Extends s' s'' held' infos') (hb : s.buf b = .raw)
    (hi : s''.buf b = .inode i) :
  ∃ j x, i.fatfsInfo = some j ∧ s.buf j = .raw ∧ s''.buf j = .info x ∧ j ∉ infos' ++ infos
    ∧ (s'.buf j = .raw ↔ s'.buf b = .raw)
  := by
  obtain ⟨i', hi', rfl⟩ | ⟨hraw, -, -, -⟩ := h'.inode_cases hi
  · obtain ⟨j, x, hj, hjraw, hx, hinfos⟩ := h.owner b i' hb hi'
    refine ⟨j, x, hj, hjraw, h'.info_eq hx, ?_, by simp [hx, hi']⟩
    rw [List.mem_append, not_or]
    refine ⟨?_, hinfos⟩
    intro hmem
    have hnew := (h'.infos_new j hmem).1
    simp [hx] at hnew
  · obtain ⟨j, x, hj, hjraw, hx, hinfos⟩ := h'.owner b i hraw hi
    refine ⟨j, x, hj, h.raw_of_raw hjraw, hx, ?_, by simp [hjraw, hraw]⟩
    rw [List.mem_append, not_or]
    refine ⟨hinfos, ?_⟩
    intro hmem
    obtain ⟨-, y, hy⟩ := h.infos_new j hmem
    simp [hy] at hjraw

/-- Extensions add up. -/
theorem trans (h' : Extends s' s'' held' infos') :
  Extends s s'' (held' ++ held) (infos' ++ infos)
  where
  root_eq := h'.root_eq.trans h.root_eq
  toFreeListOk := h'.toFreeListOk
  old b hb := by
    rw [h'.old b (h.ne_raw hb), h.old b hb, Buffer.addRefs_add, List.count_append]
  new b hb := by
    by_cases hraw : s'.buf b = .raw
    · cases h'.new b hraw with
      | raw hbuf => apply New.raw hbuf
      | inode i hbuf hop hcount hheld =>
          apply New.inode i hbuf hop _ (List.mem_append_left _ hheld)
          have hzero : held.count b = 0 := by
            rw [List.count_eq_zero]
            intro hmem
            obtain ⟨i', hi'⟩ := h.held_inode b hmem
            simp [hi'] at hraw
          rw [hcount, List.count_append, hzero]
          simp
      | owned b' i hfree hbuf hinfo =>
          apply New.owned b' i (h.raw_of_raw hfree) hbuf hinfo
      | info hmem => apply New.info (List.mem_append_left _ hmem)
    · cases h.new b hb with
      | raw hbuf => contradiction
      | inode i hbuf hop hcount hheld =>
          apply New.inode _ (h'.inode_eq hbuf) hop _ (List.mem_append_right _ hheld)
          rw [hcount, List.count_append]
          push_cast
          ring
      | owned b' i hfree hbuf hinfo =>
          apply New.owned b' _ hfree (h'.inode_eq hbuf) hinfo
      | info hmem => apply New.info (List.mem_append_right _ hmem)
  held_inode b hb := by
    obtain hb | hb := List.mem_append.mp hb
    · apply h'.held_inode b hb
    · obtain ⟨i, hi⟩ := h.held_inode b hb
      exact ⟨_, h'.inode_eq hi⟩
  owner b i hb hi := by
    obtain ⟨j, x, hj, hjraw, hx, hinfos, -⟩ := h.trans_inode h' hb hi
    exact ⟨j, x, hj, hjraw, hx, hinfos⟩
  owner_unique b c i i' j hb hc hi hi' hj hj' := by
    obtain ⟨k, -, hk, -, -, -, hiff⟩ := h.trans_inode h' hb hi
    obtain ⟨k', -, hk', -, -, -, hiff'⟩ := h.trans_inode h' hc hi'
    cases hj.symm.trans hk
    cases hj'.symm.trans hk'
    have hbc : s'.buf b = .raw ↔ s'.buf c = .raw := hiff.symm.trans hiff'
    obtain ⟨i₁, hi₁, rfl⟩ | ⟨hraw, -⟩ := h'.inode_cases hi
    · obtain ⟨i₂, hi₂, rfl⟩ | ⟨hraw', -⟩ := h'.inode_cases hi'
      · apply h.owner_unique b c i₁ i₂ j hb hc hi₁ hi₂ hj hj'
      · simp [hi₁, hraw'] at hbc
    · apply h'.owner_unique b c i i' j hraw (hbc.mp hraw) hi hi' hj hj'
  infos_nodup := by
    apply h'.infos_nodup.append h.infos_nodup
    intro b hb hb'
    obtain ⟨-, x, hx⟩ := h.infos_new b hb'
    have hraw := (h'.infos_new b hb).1
    simp [hx] at hraw
  infos_new b hb := by
    obtain hb | hb := List.mem_append.mp hb
    · obtain ⟨hraw, hx⟩ := h'.infos_new b hb
      exact ⟨h.raw_of_raw hraw, hx⟩
    · obtain ⟨hraw, x, hx⟩ := h.infos_new b hb
      exact ⟨hraw, x, h'.info_eq hx⟩

end Extends

/-! ### Taking a reference -/

/-- A reference to an inode. -/
theorem WellFormed.ref (hs : WellFormed s) (hb : s.buf b = .inode i) :
  Extends s (s.set b (.inode { i with count := i.count + 1 })) [b] []
  := by
  have hne {c : BufId} (hc : s.buf c = .raw) : c ≠ b := by
    rintro rfl
    simp [hb] at hc
  constructor
  · exact hs.set (by simp [hb]) (by simp)
  · rfl
  · intro c hc
    obtain rfl | hcb := eq_or_ne c b
    · simp [hb, Buffer.addRefs]
    · simp [FileSystem.set_buf_of_ne hcb, Ne.symm hcb]
  · intro c hc
    apply New.raw
    rw [FileSystem.set_buf_of_ne (hne hc), hc]
  · intro c hc
    rw [List.mem_singleton] at hc
    rw [hc]
    exact ⟨_, FileSystem.set_buf_self⟩
  · intro c i' hc hi'
    rw [FileSystem.set_buf_of_ne (hne hc), hc] at hi'
    cases hi'
  · intro c c' i₁ i₂ j hc _ hi₁
    rw [FileSystem.set_buf_of_ne (hne hc), hc] at hi₁
    cases hi₁
  · apply List.nodup_nil
  · intro c hc
    simp at hc

/-! ### Giving up a reference -/

/-- The file system after a buffer is freed. -/
def FileSystem.free (s : FileSystem σ) (b : BufId) : FileSystem σ :=
  { s.set b .raw with freeBuffers := b :: s.freeBuffers }

theorem kmallocBufFree_eq : kmallocBufFree (some b) s = some ((), s.free b) := rfl

@[simp]
theorem FileSystem.free_buf_self : (s.free b).buf b = .raw := FileSystem.set_buf_self

theorem FileSystem.free_buf_of_ne (h : c ≠ b) : (s.free b).buf c = s.buf c :=
  FileSystem.set_buf_of_ne h

/-- A buffer that is in use is freed. -/
theorem FreeListOk.free (h : FreeListOk s) (hb : s.buf b ≠ .raw) : FreeListOk (s.free b) where
  free_nodup := by
    apply List.nodup_cons.mpr ⟨_, h.free_nodup⟩
    rw [h.mem_free]
    exact hb
  mem_free c := by
    change c ∈ b :: s.freeBuffers ↔ _
    by_cases hcb : c = b
    · simp [hcb]
    · rw [FileSystem.free_buf_of_ne hcb, ← h.mem_free]
      simp [hcb]

/-- A reference that is not the last one is given up. -/
theorem inodeDeref_of_lt (hb : s.buf b = .inode i) (hcount : 1 < i.count) :
  inodeDeref b s = some (0, s.set b (.inode { i with count := i.count - 1 }))
  := by
  have hpos : ¬ i.count - 1 ≤ 0 := by omega
  have hread := readInode_eq hb
  change (readInode b s).bind _ = _
  rw [hread]
  change (if i.count - 1 ≤ 0 then _ else (pure 0 : FsM σ Int)) (s.set b _) = _
  rw [if_neg hpos]
  rfl

/-- The last reference to an inode of the FAT file system is given up, and the inode is freed with its
information. -/
theorem inodeDeref_of_fatfs (hb : s.buf b = .inode i) (hcount : i.count = 1) (hop : i.op = .fatfs)
    {info : Option BufId} (hinfo : i.fatfsInfo = info) :
  inodeDeref b s = some (0, (info.elim id (fun j t => t.free j)
    (s.set b (.inode { i with count := i.count - 1 }))).free b)
  := by
  have hle : i.count - 1 ≤ 0 := by omega
  have hread := readInode_eq hb
  change (readInode b s).bind _ = _
  rw [hread]
  change (if i.count - 1 ≤ 0 then _ else (pure 0 : FsM σ Int)) (s.set b _) = _
  rw [if_pos hle]
  change (InodeOps.release (inodeDerefLoop _) { i with count := i.count - 1 } (s.set b _)).bind _ = _
  rw [InodeOps.release]
  dsimp only
  rw [hop]
  dsimp only [fatfsRelease]
  rw [hinfo]
  cases info <;> rfl

namespace Extends

variable (h : Extends s s' (b :: held) infos)

include h

/-- A reference is given up, to an inode that stays. -/
theorem deref_keep (hb : s'.buf b = .inode i) (hkeep : s.buf b = .raw → b ∈ held) :
  Extends s (s'.set b (.inode { i with count := i.count - 1 })) held infos
  := by
  have hinfo {c : BufId} {x : FatfsInodeInfo} (hc : s'.buf c = .info x) : c ≠ b := by
    rintro rfl
    simp [hb] at hc
  have hinode {c : BufId} {i₁ : Inode}
      (hc : (s'.set b (.inode { i with count := i.count - 1 })).buf c = .inode i₁) :
      ∃ i₂, s'.buf c = .inode i₂ ∧ i₂.fatfsInfo = i₁.fatfsInfo := by
    obtain rfl | hne := eq_or_ne c b
    · rw [FileSystem.set_buf_self] at hc
      cases hc
      exact ⟨i, hb, rfl⟩
    · rw [FileSystem.set_buf_of_ne hne] at hc
      exact ⟨i₁, hc, rfl⟩
  constructor
  · exact h.set (by simp [hb]) (by simp)
  · apply h.root_eq
  · intro c hc
    have hold := h.old c hc
    obtain rfl | hne := eq_or_ne c b
    · rw [hb] at hold
      obtain ⟨i', hi', rfl⟩ := Buffer.addRefs_eq_inode hold.symm
      rw [FileSystem.set_buf_self, hi', Buffer.addRefs, List.count_cons_self]
      congr 2
      push_cast
      ring
    · rw [FileSystem.set_buf_of_ne hne, hold, List.count_cons_of_ne (Ne.symm hne)]
  · intro c hc
    cases h.new c hc with
    | raw hbuf =>
        apply New.raw
        rw [FileSystem.set_buf_of_ne, hbuf]
        rintro rfl
        simp [hb] at hbuf
    | inode i₁ hbuf hop hcount hheld =>
        obtain rfl | hne := eq_or_ne c b
        · rw [hb] at hbuf
          cases hbuf
          apply New.inode { i with count := i.count - 1 } FileSystem.set_buf_self hop _ (hkeep hc)
          rw [hcount, List.count_cons_self]
          push_cast
          ring
        · apply New.inode i₁ _ hop _ (List.mem_of_ne_of_mem hne hheld)
          · rw [FileSystem.set_buf_of_ne hne, hbuf]
          · rw [hcount, List.count_cons_of_ne (Ne.symm hne)]
    | owned b' i₁ hfree hbuf hinfo =>
        obtain rfl | hne := eq_or_ne b' b
        · rw [hb] at hbuf
          cases hbuf
          apply New.owned b' { i with count := i.count - 1 } hfree FileSystem.set_buf_self hinfo
        · apply New.owned b' i₁ hfree _ hinfo
          rw [FileSystem.set_buf_of_ne hne, hbuf]
    | info hmem => apply New.info hmem
  · intro c hc
    obtain ⟨i₁, hi₁⟩ := h.held_inode c (List.mem_cons_of_mem _ hc)
    obtain rfl | hne := eq_or_ne c b
    · exact ⟨_, FileSystem.set_buf_self⟩
    · exact ⟨i₁, by rw [FileSystem.set_buf_of_ne hne, hi₁]⟩
  · intro c i₁ hc hi₁
    obtain ⟨i₂, hi₂, heq⟩ := hinode hi₁
    obtain ⟨j, x, hj, hjraw, hx, hmem⟩ := h.owner c i₂ hc hi₂
    refine ⟨j, x, heq ▸ hj, hjraw, ?_, hmem⟩
    rw [FileSystem.set_buf_of_ne (hinfo hx), hx]
  · intro c c' i₁ i₁' j hc hc' hi₁ hi₁' hj hj'
    obtain ⟨i₂, hi₂, heq⟩ := hinode hi₁
    obtain ⟨i₂', hi₂', heq'⟩ := hinode hi₁'
    apply h.owner_unique c c' i₂ i₂' j hc hc' hi₂ hi₂' (heq.trans hj) (heq'.trans hj')
  · apply h.infos_nodup
  · intro c hc
    obtain ⟨hraw, x, hx⟩ := h.infos_new c hc
    exact ⟨hraw, x, by rw [FileSystem.set_buf_of_ne (hinfo hx), hx]⟩

/-- The last reference to an inode of the FAT file system is given up, and the inode is freed with
its information. -/
theorem deref_free (hb : s'.buf b = .inode i) (hraw : s.buf b = .raw) (hheld : b ∉ held)
    (hj : i.fatfsInfo = some j) {y : Buffer} (hy : y ≠ .raw) :
  Extends s (((s'.set b y).free j).free b) held infos
  := by
  obtain ⟨j', x, hj', hjraw, hx, hinfos⟩ := h.owner b i hraw hb
  rw [hj] at hj'
  cases hj'
  have hjb : j ≠ b := by
    rintro rfl
    simp [hb] at hx
  have hbuf_b : (((s'.set b y).free j).free b).buf b = .raw := FileSystem.free_buf_self
  have hbuf_j : (((s'.set b y).free j).free b).buf j = .raw := by
    rw [FileSystem.free_buf_of_ne hjb, FileSystem.free_buf_self]
  have hbuf {c : BufId} (hcb : c ≠ b) (hcj : c ≠ j) :
      (((s'.set b y).free j).free b).buf c = s'.buf c := by
    rw [FileSystem.free_buf_of_ne hcb, FileSystem.free_buf_of_ne hcj,
      FileSystem.set_buf_of_ne hcb]
  have hof_ne {c : BufId} (hc : (((s'.set b y).free j).free b).buf c ≠ .raw) :
      c ≠ b ∧ c ≠ j := by
    constructor
    · rintro rfl
      apply hc hbuf_b
    · rintro rfl
      apply hc hbuf_j
  constructor
  · apply ((h.set (by simp [hb]) hy).free _).free _
    · rw [FileSystem.set_buf_of_ne hjb, hx]
      simp
    · rw [FileSystem.free_buf_of_ne (Ne.symm hjb), FileSystem.set_buf_self]
      exact hy
  · apply h.root_eq
  · intro c hc
    have hcb : c ≠ b := by
      rintro rfl
      contradiction
    have hcj : c ≠ j := by
      rintro rfl
      contradiction
    rw [hbuf hcb hcj, h.old c hc, List.count_cons_of_ne (Ne.symm hcb)]
  · intro c hc
    by_cases hcb : c = b
    · rw [hcb]
      apply New.raw hbuf_b
    by_cases hcj : c = j
    · rw [hcj]
      apply New.raw hbuf_j
    cases h.new c hc with
    | raw hc' =>
        apply New.raw
        rw [hbuf hcb hcj, hc']
    | inode i₁ hi₁ hop hcount hmem =>
        apply New.inode i₁ _ hop _ (List.mem_of_ne_of_mem hcb hmem)
        · rw [hbuf hcb hcj, hi₁]
        · rw [hcount, List.count_cons_of_ne (Ne.symm hcb)]
    | owned b' i₁ hfree hi₁ hinfo =>
        apply New.owned b' i₁ hfree _ hinfo
        rw [hbuf _ _, hi₁]
        · rintro rfl
          rw [hb] at hi₁
          cases hi₁
          rw [hj] at hinfo
          cases hinfo
          contradiction
        · rintro rfl
          simp [hx] at hi₁
    | info hmem => apply New.info hmem
  · intro c hc
    obtain ⟨i₁, hi₁⟩ := h.held_inode c (List.mem_cons_of_mem _ hc)
    refine ⟨i₁, ?_⟩
    rw [hbuf _ _, hi₁]
    · rintro rfl
      contradiction
    · rintro rfl
      simp [hx] at hi₁
  · intro c i₁ hc hi₁
    obtain ⟨hcb, hcj⟩ := hof_ne (by rw [hi₁]; simp)
    rw [hbuf hcb hcj] at hi₁
    obtain ⟨k, x', hk, hkraw, hx', hkinfos⟩ := h.owner c i₁ hc hi₁
    refine ⟨k, x', hk, hkraw, ?_, hkinfos⟩
    rw [hbuf _ _, hx']
    · rintro rfl
      simp [hb] at hx'
    · rintro rfl
      apply hcb (h.owner_unique c b i₁ i k hc hraw hi₁ hb hk hj)
  · intro c c' i₁ i₁' k hc hc' hi₁ hi₁' hk hk'
    obtain ⟨hcb, hcj⟩ := hof_ne (by rw [hi₁]; simp)
    obtain ⟨hcb', hcj'⟩ := hof_ne (by rw [hi₁']; simp)
    rw [hbuf hcb hcj] at hi₁
    rw [hbuf hcb' hcj'] at hi₁'
    apply h.owner_unique c c' i₁ i₁' k hc hc' hi₁ hi₁' hk hk'
  · apply h.infos_nodup
  · intro c hc
    obtain ⟨hcraw, x', hx'⟩ := h.infos_new c hc
    refine ⟨hcraw, x', ?_⟩
    rw [hbuf _ _, hx']
    · rintro rfl
      simp [hb] at hx'
    · rintro rfl
      contradiction

/-- `inode_deref` gives up a reference that is held. -/
theorem inodeDeref_ends (hs : WellFormed s) :
  Ends (inodeDeref b) s' fun _ s'' => Extends s s'' held infos
  := by
  obtain ⟨i, hi⟩ := h.held_inode b List.mem_cons_self
  obtain ⟨i', hi', rfl⟩ | ⟨hraw, hop, hcount, -⟩ := h.inode_cases hi
  · have hpos := (hs.inodeOk b i' hi').count_pos
    refine ⟨0, _, inodeDeref_of_lt hi ?_, h.deref_keep hi ?_⟩
    · rw [List.count_cons_self]
      push_cast
      omega
    · intro hraw
      simp [hi'] at hraw
  · rw [List.count_cons_self] at hcount
    by_cases hheld : b ∈ held
    · have hpos := List.count_pos_iff.mpr hheld
      refine ⟨0, _, inodeDeref_of_lt hi (by omega), h.deref_keep hi fun _ => hheld⟩
    · obtain ⟨j, x, hj, -⟩ := h.owner b i hraw hi
      rw [List.count_eq_zero.mpr hheld] at hcount
      refine ⟨0, _, inodeDeref_of_fatfs hi hcount hop hj, h.deref_free hi hraw hheld hj (by simp)⟩

end Extends

/-! ### Creating an inode of the FAT file system -/

/-- A file system with the same buffers and the same free list. -/
theorem WellFormed.extends_of_eq (hs : WellFormed s) (hbuf : s'.buf = s.buf)
    (hfree : s'.freeBuffers = s.freeBuffers) (hroot : s'.root = s.root) :
  Extends s s' [] []
  := by
  have heq : s' = { s with sd := s'.sd } := by
    obtain ⟨buf, freeBuffers, root, sd⟩ := s'
    dsimp only at hbuf hfree hroot
    rw [hbuf, hfree, hroot]
  rw [heq]
  apply (Extends.refl hs).callSd

/-- Two free buffers are used for an inode and its information. -/
theorem FreeListOk.extends_fresh (hs' : FreeListOk s') {x : FatfsInodeInfo} (hbraw : s.buf b = .raw)
    (hjraw : s.buf j = .raw) (hroot : s'.root = s.root) (hb : s'.buf b = .inode i)
    (hj : s'.buf j = .info x) (hbuf : ∀ c, c ≠ b → c ≠ j → s'.buf c = s.buf c) (hop : i.op = .fatfs)
    (hcount : i.count = 1) (hinfo : i.fatfsInfo = some j) :
  Extends s s' [b] []
  := by
  have hinode {c : BufId} {i' : Inode} (hc : s.buf c = .raw) (hi' : s'.buf c = .inode i') :
      c = b ∧ i' = i := by
    by_cases hcb : c = b
    · rw [hcb, hb] at hi'
      exact ⟨hcb, (Buffer.inode.inj hi').symm⟩
    · by_cases hcj : c = j
      · rw [hcj, hj] at hi'
        cases hi'
      · rw [hbuf c hcb hcj, hc] at hi'
        cases hi'
  constructor
  · apply hs'
  · apply hroot
  · intro c hc
    have hcb : c ≠ b := by
      rintro rfl
      contradiction
    have hcj : c ≠ j := by
      rintro rfl
      contradiction
    simp [hbuf c hcb hcj, Ne.symm hcb]
  · intro c hc
    by_cases hcb : c = b
    · rw [hcb]
      apply New.inode i hb hop _ (by simp)
      rw [hcount]
      simp
    · by_cases hcj : c = j
      · rw [hcj]
        apply New.owned b i hbraw hb hinfo
      · apply New.raw
        rw [hbuf c hcb hcj, hc]
  · intro c hc
    rw [List.mem_singleton] at hc
    rw [hc]
    exact ⟨i, hb⟩
  · intro c i' hc hi'
    obtain ⟨-, rfl⟩ := hinode hc hi'
    exact ⟨j, x, hinfo, hjraw, hj, by simp⟩
  · intro c c' i₁ i₂ k hc hc' hi₁ hi₂ _ _
    rw [(hinode hc hi₁).1, (hinode hc' hi₂).1]
  · apply List.nodup_nil
  · intro c hc
    simp at hc

/-- An inode of the FAT file system with its information is allocated, or nothing if there are no
two free buffers. -/
theorem WellFormed.fatfsNewInode_ends (hs : WellFormed s) (mode : Word) (x : FatfsInodeInfo) :
  Ends (fatfsNewInode mode x) s fun r s' =>
    r = none ∧ Extends s s' [] []
      ∨ ∃ b, r = some b ∧ s.buf b = .raw ∧ Extends s s' [b] []
  := by
  cases hfree : s.freeBuffers with
  | nil =>
      apply Ends.bind_of_eq (inodeAlloc_nil hfree)
      apply Ends.pure
      left
      exact ⟨rfl, Extends.refl hs⟩
  | cons b free =>
      have hbraw : s.buf b = .raw := by
        rw [← hs.mem_free, hfree]
        simp
      obtain ⟨s₁, halloc, hbuf₁, hfree₁, hroot₁, -⟩ := inodeAlloc_cons .fatfs hfree
      have hb₁ : s₁.buf b = .inode { op := .fatfs, count := 1 } := by simp [hbuf₁]
      apply Ends.bind_of_eq halloc
      cases free with
      | nil =>
          apply Ends.bind_of_eq (kmallocBufAlloc_nil hfree₁)
          apply Ends.bind_discard_of_eq (inodeDeref_of_fatfs hb₁ rfl rfl rfl)
          apply Ends.pure
          left
          refine ⟨rfl, hs.extends_of_eq ?_ ?_ hroot₁⟩
          · simp [FileSystem.free, FileSystem.set, hbuf₁, ← hbraw]
          · simp [FileSystem.free, FileSystem.set, hfree, hfree₁]
      | cons j free =>
          have hjb : j ≠ b := by
            have hnodup := hs.free_nodup
            rw [hfree] at hnodup
            rintro rfl
            simp at hnodup
          obtain ⟨s₂, halloc₂, hbuf₂, hfree₂, hroot₂, -⟩ := kmallocBufAlloc_cons hfree₁
          have hb₂ : s₂.buf b = .inode { op := .fatfs, count := 1 } := by
            simp [hbuf₂, hb₁, Ne.symm hjb]
          apply Ends.bind_of_eq halloc₂
          apply Ends.bind_of_eq (readInode_eq hb₂)
          apply Ends.bind_of_eq store_eq
          apply Ends.bind_of_eq store_eq
          apply Ends.pure
          right
          refine ⟨b, rfl, hbraw, ?_⟩
          have hjraw : s.buf j = .raw := by
            rw [← hs.mem_free, hfree]
            simp
          have hbuf {y z : Buffer} (c : BufId) (hcb : c ≠ b) (hcj : c ≠ j) :
              ((s₂.set j y).set b z).buf c = s.buf c := by
            rw [FileSystem.set_buf_of_ne hcb, FileSystem.set_buf_of_ne hcj, hbuf₂,
              Function.update_of_ne hcj, hbuf₁, Function.update_of_ne hcb]
          refine FreeListOk.extends_fresh (hs.take (l := [b, j]) ?_ ?_ ?_) hbraw hjraw
            (hroot₂.trans hroot₁) FileSystem.set_buf_self (x := x) ?_ hbuf rfl rfl rfl
          · simp [FileSystem.set, hfree, hfree₂]
          · simp [FileSystem.set, hjb]
          · intro c hc
            rw [List.mem_pair, not_or] at hc
            apply hbuf c hc.1 hc.2
          · rw [FileSystem.set_buf_of_ne hjb, FileSystem.set_buf_self]

end Mosnix.Fs
