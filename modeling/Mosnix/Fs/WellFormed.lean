import Mosnix.Fs.Lookup

/-!
# Well-formed file systems

A file system is well formed if its free list has exactly the free buffers, and if the pointers in
the inodes lead to what they should: the entries of a directory form a finite chain, every entry
has an inode, a mount point has an inode of the FAT file system, and an inode of the FAT file system
has its information.  Every inode has a reference.
-/

namespace Mosnix.Fs

open Fat Program

variable {σ : Type} {s s' s'' : FileSystem σ} {b c d : BufId} {i : Inode} {p : Option BufId}

/-! ### Stores -/

variable {x : Buffer} {l : List (BufId × RamfsDirent)}

@[simp]
theorem FileSystem.set_buf_self : (s.set b x).buf b = x := by
  simp [FileSystem.set]

/-- The other buffers are as they were. -/
theorem FileSystem.set_buf_of_ne (h : c ≠ b) : (s.set b x).buf c = s.buf c := by
  simp [FileSystem.set, h]

theorem readInode_eq (h : s.buf b = .inode i) : readInode b s = some (i, s) := by
  simp [readInode, h]

theorem readDirent_eq {e : RamfsDirent} (h : s.buf b = .dirent e) :
  readDirent b s = some (e, s)
  := by
  simp [readDirent, h]

theorem readInfo_eq {x : FatfsInodeInfo} (h : s.buf b = .info x) :
  readInfo (some b) s = some (x, s)
  := by
  simp [readInfo, h]

theorem store_eq : store b x s = some ((), s.set b x) := rfl

/-- A reference is taken. -/
theorem inodeRef_eq (hb : s.buf b = .inode i) :
  inodeRef b s = some ((), s.set b (.inode { i with count := i.count + 1 }))
  := by
  change (readInode b s).bind _ = _
  rw [readInode_eq hb]
  rfl

/-- There is no free buffer. -/
theorem kmallocBufAlloc_nil (hfree : s.freeBuffers = []) :
  kmallocBufAlloc s = some (none, s)
  := by
  simp [kmallocBufAlloc, hfree]

/-- The first buffer of the free list is allocated. -/
theorem kmallocBufAlloc_cons {free : List BufId} (hfree : s.freeBuffers = b :: free) :
  ∃ s', kmallocBufAlloc s = some (some b, s') ∧ s'.buf = Function.update s.buf b .raw
    ∧ s'.freeBuffers = free ∧ s'.root = s.root ∧ s'.sd = s.sd
  := by
  refine ⟨{ s.set b .raw with freeBuffers := free }, ?_, rfl, rfl, rfl, rfl⟩
  simp [kmallocBufAlloc, hfree]

theorem inodeAlloc_nil {op : InodeOps} (hfree : s.freeBuffers = []) :
  inodeAlloc op s = some (none, s)
  := by
  change (kmallocBufAlloc s).bind _ = _
  rw [kmallocBufAlloc_nil hfree]
  rfl

/-- The first buffer of the free list is allocated for an inode. -/
theorem inodeAlloc_cons (op : InodeOps) {free : List BufId} (hfree : s.freeBuffers = b :: free) :
  ∃ s', inodeAlloc op s = some (some b, s')
    ∧ s'.buf = Function.update s.buf b (.inode { op := op, count := 1 })
    ∧ s'.freeBuffers = free ∧ s'.root = s.root ∧ s'.sd = s.sd
  := by
  obtain ⟨s₁, halloc, hbuf, hfree₁, hroot, hsd⟩ := kmallocBufAlloc_cons hfree
  refine ⟨s₁.set b (.inode { op := op, count := 1 }), ?_, ?_, hfree₁, hroot, hsd⟩
  · change (kmallocBufAlloc s).bind _ = _
    rw [halloc]
    rfl
  · rw [FileSystem.set, hbuf, Function.update_idem]

/-! ### Directories -/

/-- The chain of the entries of a directory, from the pointer `p` to the first entry. -/
def Chain (s : FileSystem σ) : Option BufId → List (BufId × RamfsDirent) → Prop
  | p, [] => p = none
  | p, e :: l => p = some e.1 ∧ s.buf e.1 = .dirent e.2 ∧ Chain s e.2.next l

/-- The pointers in an inode lead to what they should. -/
structure InodeOk (s : FileSystem σ) (i : Inode) : Prop where
  count_pos : 1 ≤ i.count
  info : i.op = .fatfs → ∃ j x, i.fatfsInfo = some j ∧ s.buf j = .info x
  chain : i.op = .ramfs → S_ISDIR i.mode = true → ∃ l, Chain s i.ramfsDir l ∧
    ∀ e ∈ l, ∃ c ci, e.2.inode = some c ∧ s.buf c = .inode ci
  mount : i.op = .ramfs → S_ISDIR i.mode = true → ∀ m, i.ramfsMount = some m →
    ∃ mi, s.buf m = .inode mi ∧ mi.op = .fatfs

/-- The free list has the buffers that are free, each of them once. -/
structure FreeListOk (s : FileSystem σ) : Prop where
  free_nodup : s.freeBuffers.Nodup
  mem_free : ∀ b, b ∈ s.freeBuffers ↔ s.buf b = .raw

/-- A store to a buffer that is in use. -/
theorem FreeListOk.set (h : FreeListOk s) (hb : s.buf b ≠ .raw) (hx : x ≠ .raw) :
  FreeListOk (s.set b x)
  where
  free_nodup := h.free_nodup
  mem_free c := by
    change c ∈ s.freeBuffers ↔ _
    by_cases hcb : c = b
    · simp [hcb, h.mem_free, hb, hx]
    · rw [FileSystem.set_buf_of_ne hcb, h.mem_free]

/-- The first buffers of the free list are used. -/
theorem FreeListOk.take (h : FreeListOk s) {l : List BufId}
    (hfree : s.freeBuffers = l ++ s'.freeBuffers) (hl : ∀ b ∈ l, s'.buf b ≠ .raw)
    (hbuf : ∀ b ∉ l, s'.buf b = s.buf b) :
  FreeListOk s'
  := by
  have hnodup := h.free_nodup
  rw [hfree, List.nodup_append'] at hnodup
  refine ⟨hnodup.2.1, fun b => ?_⟩
  by_cases hb : b ∈ l
  · exact iff_of_false (hnodup.2.2 hb) (hl b hb)
  · rw [hbuf b hb, ← h.mem_free, hfree, List.mem_append, or_iff_right hb]

/-- A well-formed file system. -/
structure WellFormed (s : FileSystem σ) : Prop extends FreeListOk s where
  root : ∃ i, s.buf s.root = .inode i
  inodeOk : ∀ b i, s.buf b = .inode i → InodeOk s i

/-- A chain depends only on its entries. -/
theorem Chain.congr (h : Chain s p l) (hbuf : ∀ b e, s.buf b = .dirent e → s'.buf b = .dirent e) :
  Chain s' p l
  := by
  induction l generalizing p with
  | nil => exact h
  | cons e l ih =>
      obtain ⟨hp, he, hl⟩ := h
      exact ⟨hp, hbuf _ _ he, ih hl⟩

/-- The entries of a chain are determined by the first pointer. -/
theorem Chain.unique {l' : List (BufId × RamfsDirent)} (h : Chain s p l) (h' : Chain s p l') :
  l = l'
  := by
  induction l generalizing p l' with
  | nil =>
      cases l' with
      | nil => rfl
      | cons e l' =>
          rw [Chain] at h
          rw [h] at h'
          cases h'.1
  | cons e l ih =>
      obtain ⟨rfl, he, hl⟩ := h
      cases l' with
      | nil => cases h'
      | cons e' l' =>
          obtain ⟨hp, he', hl'⟩ := h'
          have hfst : e.1 = e'.1 := Option.some.inj hp
          rw [← hfst, he] at he'
          have hee : e = e' := Prod.ext hfst (Buffer.dirent.inj he')
          rw [hee] at hl ⊢
          rw [ih hl hl']

/-- The part of a chain from one of its entries on. -/
theorem Chain.suffix {l₁ l₂ : List (BufId × RamfsDirent)} {e : BufId × RamfsDirent}
    (h : Chain s p (l₁ ++ e :: l₂)) :
  Chain s (some e.1) (e :: l₂)
  := by
  induction l₁ generalizing p with
  | nil =>
      obtain ⟨-, he, hl⟩ := h
      exact ⟨rfl, he, hl⟩
  | cons e' l ih => apply ih h.2.2

/-- No buffer occurs twice in a chain. -/
theorem Chain.nodup (h : Chain s p l) :
  (l.map Prod.fst).Nodup
  := by
  induction l generalizing p with
  | nil => simp
  | cons e l ih =>
      rw [List.map_cons, List.nodup_cons]
      refine ⟨?_, ih h.2.2⟩
      intro hmem
      obtain ⟨e', he', hfst⟩ := List.mem_map.mp hmem
      obtain ⟨l₁, l₂, rfl⟩ := List.append_of_mem he'
      have hsuffix : Chain s (some e'.1) (e' :: l₂) := h.2.2.suffix
      have hwhole : Chain s (some e'.1) (e :: (l₁ ++ e' :: l₂)) := by
        rw [hfst]
        exact ⟨rfl, h.2⟩
      have hlen := congrArg List.length (hsuffix.unique hwhole)
      simp at hlen
      omega

/-- A chain has at most as many entries as there are buffers. -/
theorem Chain.length_le (h : Chain s p l) :
  l.length ≤ CONFIG_NUM_BUFFERS
  := by
  have hcard := h.nodup.length_le_card
  simpa using hcard

/-! ### The file system at boot -/

/-- The buffer of the root inode, which is the first one that is allocated. -/
def bootRoot : BufId := ⟨99, by decide⟩

/-- The other buffers. -/
def bootFree : List BufId := (List.finRange CONFIG_NUM_BUFFERS).reverse.tail

/-- The file system after `ramfs_init`. -/
def boot (sd : σ) : FileSystem σ where
  buf := Function.update (fun _ => .raw) bootRoot
    (.inode { op := .ramfs, count := 3, mode := rootMode })
  freeBuffers := bootFree
  root := bootRoot
  sd := sd

theorem bootRoot_cons_bootFree :
  (List.finRange CONFIG_NUM_BUFFERS).reverse = bootRoot :: bootFree
  := by
  decide +kernel

/-- All buffers but one are free at boot. -/
theorem mem_bootFree : b ∈ bootFree ↔ b ≠ bootRoot := by
  have hmem : b ∈ bootRoot :: bootFree := by
    rw [← bootRoot_cons_bootFree]
    simp
  have hnodup : (bootRoot :: bootFree).Nodup := by
    rw [← bootRoot_cons_bootFree, List.nodup_reverse]
    apply List.nodup_finRange
  constructor
  · rintro hb rfl
    exact (List.nodup_cons.mp hnodup).1 hb
  · intro hne
    apply List.mem_of_ne_of_mem hne hmem

/-- The file system at boot is the one that `ramfs_init` makes. -/
theorem ramfsInit_ends (sd : σ) : Ends ramfsInit (kmallocInit sd) fun _ s => s = boot sd := by
  have hfree : (kmallocInit sd).freeBuffers = bootRoot :: bootFree := bootRoot_cons_bootFree
  obtain ⟨s₁, halloc, hbuf, hfree₁, -, hsd⟩ := inodeAlloc_cons .ramfs hfree
  have hroot : s₁.buf bootRoot = .inode { op := .ramfs, count := 1 } := by simp [hbuf]
  apply Ends.bind_of_eq halloc
  apply Ends.bind_of_eq (readInode_eq hroot)
  apply Ends.bind_of_eq store_eq
  apply Ends.bind_of_eq (inodeRef_eq FileSystem.set_buf_self)
  apply Ends.bind_of_eq (inodeRef_eq FileSystem.set_buf_self)
  apply Ends.modify
  apply FileSystem.ext
  · simp [FileSystem.set, hbuf, boot, kmallocInit]
  · exact hfree₁
  · rfl
  · exact hsd

/-- The file system at boot is well formed. -/
theorem wellFormed_boot (sd : σ) : WellFormed (boot sd) where
  free_nodup := by
    have hnodup := List.nodup_finRange CONFIG_NUM_BUFFERS
    rw [← List.nodup_reverse, bootRoot_cons_bootFree] at hnodup
    apply (List.nodup_cons.mp hnodup).2
  mem_free b := by
    rw [show (boot sd).freeBuffers = bootFree from rfl, mem_bootFree]
    by_cases hb : b = bootRoot
    · simp [boot, hb]
    · simp [boot, hb]
  root := ⟨{ op := .ramfs, count := 3, mode := rootMode }, by simp [boot]⟩
  inodeOk b i hi := by
    have hb : i = { op := .ramfs, count := 3, mode := rootMode } := by
      by_cases hb : b = bootRoot
      · simpa [boot, hb, eq_comm] using hi
      · simp [boot, hb] at hi
    rw [hb]
    constructor
    · decide
    · intro hop
      cases hop
    · intro _ _
      exact ⟨[], rfl, by simp⟩
    · intro _ _ m hm
      cases hm

end Mosnix.Fs
