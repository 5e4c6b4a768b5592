import Mosnix.Fs.Tree

/-!
# Lookups and references

`inode_lookup` holds one reference while it walks along a path: to the node that it is at.  Every
way out of the function gives that reference up, or returns it.  The main result,
`inodeLookup_neutral`, says that a lookup that fails leaves the file system unchanged, that a lookup
that succeeds adds a reference to the inode that it returns, and that a lookup that creates a node
adds one directory entry and one inode.
-/

namespace Mosnix.Fs

open Fat Program

variable {σ : Type} {sd : SdDriver σ} {s s' s'' : FileSystem σ} {b c j dir : BufId} {i : Inode}
  {name : List Byte} {held : List BufId}

/-! ### What a lookup changes -/

/-- The file system `s'` has the same inodes with the same reference counts, the same directories
and the same free buffers as `s`. -/
structure Unchanged (s s' : FileSystem σ) : Prop where
  buf_eq : s'.buf = s.buf
  mem_free : ∀ c, c ∈ s'.freeBuffers ↔ c ∈ s.freeBuffers
  root_eq : s'.root = s.root

/-- The file system `s'` is `s` with one more reference to the inode `b`, or with the new inode `b`
of the FAT file system and its information. -/
inductive Referenced (s s' : FileSystem σ) (b : BufId) : Prop where
  | old (i : Inode) (hb : s.buf b = .inode i)
      (hbuf : s'.buf = Function.update s.buf b (.inode { i with count := i.count + 1 }))
      (hfree : ∀ c, c ∈ s'.freeBuffers ↔ c ∈ s.freeBuffers) (hroot : s'.root = s.root)
  | new (i : Inode) (j : BufId) (x : FatfsInodeInfo) (hb : s.buf b = .raw) (hj : s.buf j = .raw)
      (hbuf : s'.buf = Function.update (Function.update s.buf j (.info x)) b (.inode i))
      (hop : i.op = .fatfs) (hcount : i.count = 1) (hinfo : i.fatfsInfo = some j)
      (hfree : ∀ c, c ∈ s'.freeBuffers ↔ c ∈ s.freeBuffers ∧ c ≠ b ∧ c ≠ j)
      (hroot : s'.root = s.root)

/-- A file system without references in addition is unchanged. -/
theorem Extends.unchanged (h : Extends s s' [] []) (hs : WellFormed s) : Unchanged s s' := by
  have hinode {b : BufId} {i : Inode} (hb : s.buf b = .raw) (hi : s'.buf b = .inode i) : False := by
    obtain ⟨i', hi', -⟩ | ⟨-, -, -, hmem⟩ := h.inode_cases hi
    · simp [hb] at hi'
    · simp at hmem
  have hbuf : s'.buf = s.buf := by
    funext b
    by_cases hraw : s.buf b = .raw
    · rw [hraw]
      cases h.new b hraw with
      | raw hbuf => apply hbuf
      | inode i hbuf => cases hinode hraw hbuf
      | owned b' i hfree hbuf => cases hinode hfree hbuf
      | info hmem => simp at hmem
    · simpa using h.old b hraw
  refine ⟨hbuf, ?_, h.root_eq⟩
  intro c
  rw [h.mem_free, hs.mem_free, hbuf]

/-- The information of the inode of the one reference, if the inode is new. -/
theorem Extends.info_of_new (h : Extends s s' [b] []) (hb : s.buf b = .raw) :
  ∃ i j x, s'.buf b = .inode i ∧ i.op = .fatfs ∧ i.count = 1 ∧ i.fatfsInfo = some j
    ∧ s.buf j = .raw ∧ s'.buf j = .info x
  := by
  obtain ⟨i, hi⟩ := h.held_inode b (by simp)
  obtain ⟨i', hi', -⟩ | ⟨-, hop, hcount, -⟩ := h.inode_cases hi
  · simp [hb] at hi'
  · obtain ⟨j, x, hj, hjraw, hx, -⟩ := h.owner b i hb hi
    refine ⟨i, j, x, hi, hop, ?_, hj, hjraw, hx⟩
    simpa using hcount

/-- A file system with one reference in addition. -/
theorem Extends.referenced (h : Extends s s' [b] []) (hs : WellFormed s) : Referenced s s' b := by
  have hinode {c : BufId} {i : Inode} (hc : s.buf c = .raw) (hi : s'.buf c = .inode i) :
      c = b := by
    obtain ⟨i', hi', -⟩ | ⟨-, -, -, hmem⟩ := h.inode_cases hi
    · simp [hc] at hi'
    · simpa using hmem
  have hold {c : BufId} (hc : s.buf c ≠ .raw) (hcb : c ≠ b) : s'.buf c = s.buf c := by
    rw [h.old c hc]
    simp [Ne.symm hcb]
  by_cases hb : s.buf b = .raw
  · obtain ⟨i, j, x, hi, hop, hcount, hj, hjraw, hx⟩ := h.info_of_new hb
    have hjb : j ≠ b := by
      rintro rfl
      simp [hx] at hi
    have hbuf : s'.buf = Function.update (Function.update s.buf j (.info x)) b (.inode i) := by
      funext c
      by_cases hcb : c = b
      · simp [hcb, hi]
      rw [Function.update_of_ne hcb]
      by_cases hcj : c = j
      · simp [hcj, hx]
      rw [Function.update_of_ne hcj]
      by_cases hraw : s.buf c = .raw
      · rw [hraw]
        cases h.new c hraw with
        | raw hbuf => apply hbuf
        | inode i' hbuf => cases hcb (hinode hraw hbuf)
        | owned b' i' hfree hbuf hinfo =>
            cases hinode hfree hbuf
            rw [hi] at hbuf
            cases hbuf
            rw [hj] at hinfo
            cases hinfo
            contradiction
        | info hmem => simp at hmem
      · apply hold hraw hcb
    apply Referenced.new i j x hb hjraw hbuf hop hcount hj _ h.root_eq
    intro c
    rw [h.mem_free, hs.mem_free, hbuf]
    by_cases hcb : c = b
    · simp [hcb]
    · by_cases hcj : c = j
      · simp [hcj, hjb]
      · simp [hcb, hcj]
  · obtain ⟨i, hi⟩ := h.held_inode b (by simp)
    obtain ⟨i', hi', rfl⟩ | ⟨hraw, -⟩ := h.inode_cases hi
    · have hbuf : s'.buf = Function.update s.buf b (.inode { i' with count := i'.count + 1 }) := by
        funext c
        by_cases hcb : c = b
        · rw [hcb, hi]
          simp
        rw [Function.update_of_ne hcb]
        by_cases hraw : s.buf c = .raw
        · rw [hraw]
          cases h.new c hraw with
          | raw hbuf => apply hbuf
          | inode i hbuf => cases hcb (hinode hraw hbuf)
          | owned b' i hfree hbuf =>
              cases hinode hfree hbuf
              contradiction
          | info hmem => simp at hmem
        · apply hold hraw hcb
      apply Referenced.old i' hi' hbuf _ h.root_eq
      intro c
      rw [h.mem_free, hs.mem_free, hbuf]
      by_cases hcb : c = b
      · simp [hcb, hi']
      · simp [hcb]
    · contradiction

/-! ### The lookups of the file systems -/

/-- What a lookup of the name `name` in the directory `dir` does: it fails and changes nothing, or
returns a reference to the inode of an entry or to a new inode. -/
def Found (s : FileSystem σ) (dir : BufId) (name : List Byte) (r : Int × Option BufId)
    (s' : FileSystem σ) : Prop :=
  r.1 < 0 ∧ Vacant s dir name ∧ Extends s s' [] []
    ∨ r.1 = 0 ∧ ∃ c, r.2 = some c ∧ (Entry s dir name c ∨ s.buf c = .raw) ∧ Extends s s' [c] []

/-- A call of the driver of the SD card changes its state only. -/
theorem callSd_ends {α : Type} (hs : WellFormed s) (f : StateM σ α) :
  Ends (callSd f) s fun a s' => a = (f s.sd).1 ∧ Extends s s' [] []
  :=
  ⟨_, _, rfl, rfl, (Extends.refl hs).callSd _⟩

/-- Only directories of the RAM file system have entries. -/
theorem vacant_of_not_ramDir (hi : s.buf dir = .inode i) (hno : ¬ RamDir s dir i) :
  Vacant s dir name
  := by
  intro i' l hdir
  have heq := hdir.buf_eq
  rw [hi] at heq
  cases heq
  contradiction

/-- The inode that is looked up in the FAT file system is new. -/
theorem fatfsLookup_ends (hs : WellFormed s) (hi : s.buf dir = .inode i) (hop : i.op = .fatfs) :
  Ends (fatfsLookup sd dir name) s fun r s' => r.1 < 0 ∧ Extends s s' [] []
    ∨ r.1 = 0 ∧ ∃ c, r.2 = some c ∧ s.buf c = .raw ∧ Extends s s' [c] []
  := by
  apply Ends.bind_of_eq (readInode_eq hi)
  split_ifs with hdir
  · obtain ⟨j, x, hj, hx⟩ := (hs.inodeOk dir i hi).info hop
    rw [hj]
    apply Ends.bind_of_eq (readInfo_eq hx)
    apply Ends.bind (callSd_ends hs _)
    rintro r s₁ ⟨hr, h₁⟩
    cases r with
    | error e =>
        apply Ends.pure
        left
        exact ⟨fatfsFindEntry_error sd hr.symm, h₁⟩
    | ok entry =>
        apply Ends.bind ((h₁.wellFormed hs).fatfsNewInode_ends (fatMode entry) (fatInfo entry))
        rintro _ s₂ (⟨rfl, h₂⟩ | ⟨b, rfl, hraw, h₂⟩)
        · apply Ends.pure
          left
          exact ⟨by decide, h₁.trans h₂⟩
        · apply Ends.pure
          right
          exact ⟨rfl, b, rfl, h₁.raw_of_raw hraw, h₁.trans h₂⟩
  · apply Ends.pure
    left
    exact ⟨by decide, Extends.refl hs⟩

/-- A lookup that is passed on to the FAT file system. -/
theorem fatfsLookup_found {b : BufId} {bi : Inode} (hs : WellFormed s) (hb : s.buf b = .inode bi)
    (hop : bi.op = .fatfs) (hi : s.buf dir = .inode i) (hno : ¬ RamDir s dir i) :
  Ends (fatfsLookup sd b name) s (Found s dir name)
  := by
  apply (fatfsLookup_ends hs hb hop).mono
  rintro r s' (⟨hr, h⟩ | ⟨hr, c, hc, hraw, h⟩)
  · left
    exact ⟨hr, vacant_of_not_ramDir hi hno, h⟩
  · right
    exact ⟨hr, c, hc, Or.inr hraw, h⟩

theorem ramfsLookup_ends (hs : WellFormed s) (hi : s.buf dir = .inode i) (hop : i.op = .ramfs) :
  Ends (ramfsLookup sd dir name) s (Found s dir name)
  := by
  have hok := hs.inodeOk dir i hi
  by_cases hram : RamDir s dir i
  · obtain ⟨l, hl, hinodes⟩ := hok.chain hop hram.isDir
    obtain hnone | ⟨l₁, e, l₂, rfl, he, hl₁⟩ := exists_first_name name l
    · refine ⟨(-ENOENT, none), s, ?_, ?_⟩
      · rw [hram.ramfsLookup_eq]
        apply ramfsLookupLoop_of_notMem hl hl.length_le hnone
      · left
        refine ⟨by decide, ?_, Extends.refl hs⟩
        intro i' l' hdir' hl'
        have heq := hdir'.buf_eq
        rw [hi] at heq
        cases heq
        rwa [hl'.unique hl]
    · obtain ⟨c, ci, hc, hci⟩ := hinodes e (by simp)
      have hentry : Entry s dir name c := ⟨i, l₁, e, l₂, hram, hl, he, hc, hl₁⟩
      refine ⟨_, _, hentry.ramfsLookup_eq hci, ?_⟩
      right
      exact ⟨rfl, c, rfl, Or.inl hentry, hs.ref hci⟩
  · apply Ends.bind_of_eq (readInode_eq hi)
    split_ifs with hdir hmount
    · cases hm : i.ramfsMount with
      | none =>
          apply Ends.pure
          left
          exact ⟨by decide, vacant_of_not_ramDir hi hram, Extends.refl hs⟩
      | some mount =>
          obtain ⟨mi, hmi, hfat⟩ := hok.mount hop hdir mount hm
          apply Ends.bind_of_eq (readInode_eq hmi)
          rw [hfat]
          apply fatfsLookup_found hs hmi hfat hi hram
    · cases hram ⟨hi, hop, hdir, by simpa using hmount⟩
    · apply Ends.pure
      left
      exact ⟨by decide, vacant_of_not_ramDir hi hram, Extends.refl hs⟩

/-- `lookup` finds the entry or reports its absence. -/
theorem lookup_ends (hs : WellFormed s) (hi : s.buf dir = .inode i) :
  Ends (InodeOps.lookup sd i.op dir name) s (Found s dir name)
  := by
  cases hop : i.op with
  | ramfs => apply ramfsLookup_ends hs hi hop
  | fatfs =>
      apply fatfsLookup_found hs hi hop hi
      intro hram
      rw [hram.op_eq] at hop
      cases hop

/-! ### Creating a node -/

/-- The buffers after the entry `d` is linked to the end of the directory `dir` with the inode `i`
and the entries `l`. -/
def linkEntry (s : FileSystem σ) (dir : BufId) (i : Inode) (l : List (BufId × RamfsDirent))
    (d : BufId) : BufId → Buffer :=
  match l.getLast? with
  | none => Function.update s.buf dir (.inode { i with ramfsDir := some d })
  | some e => Function.update s.buf e.1 (.dirent { e.2 with next := some d })

/-- The inode of a new node of the RAM file system. -/
def newInode (mode : Word) (count : Int) : Inode :=
  { op := .ramfs, count := count, mode := mode }

/-- The file system `s'` is `s` with one more entry `d` at the end of the directory `dir`, for the
new inode `c` with the contents `child`. -/
structure Created (s s' : FileSystem σ) (dir : BufId) (name : List Byte) (child : Inode)
    (d c : BufId) : Prop where
  name_le : name.length ≤ RAMFS_MAX_NAME
  dirent_raw : s.buf d = .raw
  inode_raw : s.buf c = .raw
  ne : d ≠ c
  buf_eq : ∃ i l, s.buf dir = .inode i ∧ i.op = .ramfs ∧ S_ISDIR i.mode = true
    ∧ Chain s i.ramfsDir l
    ∧ s'.buf = Function.update (Function.update (linkEntry s dir i l d) d
        (.dirent { name := name, inode := some c })) c (.inode child)
  free_nodup : s'.freeBuffers.Nodup
  mem_free : ∀ b, b ∈ s'.freeBuffers ↔ b ∈ s.freeBuffers ∧ b ≠ d ∧ b ≠ c
  root_eq : s'.root = s.root

section Append

variable {p : Option BufId} {l : List (BufId × RamfsDirent)} {e : BufId × RamfsDirent} {d : BufId}
  {fuel : ℕ}

/-- The entry after the last one is linked to it. -/
theorem appendDirent_eq (h : Chain s (some b) (l ++ [e])) (hfuel : (l ++ [e]).length ≤ fuel) :
  appendDirent d fuel b s = some ((), s.set e.1 (.dirent { e.2 with next := some d }))
  := by
  induction l generalizing b fuel with
  | nil =>
      obtain ⟨hb, hbuf, hnext⟩ := h
      cases hb
      cases fuel with
      | zero => simp at hfuel
      | succ n =>
          apply (bind_eq (readDirent_eq hbuf)).trans
          rw [show e.2.next = none from hnext]
          rfl
  | cons e' l ih =>
      obtain ⟨hb, hbuf, hl⟩ := h
      cases hb
      cases fuel with
      | zero => simp at hfuel
      | succ n =>
          apply (bind_eq (readDirent_eq hbuf)).trans
          cases hnext : e'.2.next with
          | none =>
              rw [hnext] at hl
              cases l with
              | nil => cases hl.1
              | cons _ _ => cases hl.1
          | some b' =>
              rw [hnext] at hl
              apply ih hl (by simpa using hfuel)

/-- An entry is linked to the end of a directory. -/
theorem ramfsAddDirent_eq (h : Chain s i.ramfsDir l) :
  ramfsAddDirent dir i d s = some ((), { s with buf := linkEntry s dir i l d })
  := by
  cases l using List.reverseRecOn with
  | nil =>
      rw [ramfsAddDirent, show i.ramfsDir = none from h]
      rfl
  | append_singleton l e =>
      rw [linkEntry, List.getLast?_append, List.getLast?_singleton]
      cases hdir : i.ramfsDir with
      | none =>
          rw [hdir] at h
          cases l with
          | nil => cases h.1
          | cons _ _ => cases h.1
      | some b =>
          rw [hdir] at h
          rw [ramfsAddDirent, hdir]
          apply appendDirent_eq h h.length_le

/-- The entry is linked by a store to a buffer that is not free. -/
theorem exists_link (hi : s.buf dir = .inode i) (h : Chain s i.ramfsDir l) :
  ∃ a x, s.buf a ≠ .raw ∧ ∀ t : FileSystem σ, linkEntry t dir i l d = Function.update t.buf a x
  := by
  cases l using List.reverseRecOn with
  | nil => exact ⟨dir, _, by simp [hi], fun _ => rfl⟩
  | append_singleton l e =>
      have he : s.buf e.1 = .dirent e.2 := h.suffix.2.1
      refine ⟨e.1, .dirent { e.2 with next := some d }, by simp [he], ?_⟩
      intro t
      rw [linkEntry, List.getLast?_append, List.getLast?_singleton]
      rfl

end Append

section Mknod

variable {mode : Word} {d : BufId} {free : List BufId}

/-- `ramfs_mknod` in a directory, if there are no two free buffers. -/
theorem ramfsMknod_of_full (hs : WellFormed s) (hi : s.buf dir = .inode i)
    (hdir : S_ISDIR i.mode = true) (hname : name.length ≤ RAMFS_MAX_NAME)
    (hfree : s.freeBuffers.length < 2) :
  Ends (ramfsMknod dir name mode) s fun r s' => r.1 < 0 ∧ Extends s s' [] []
  := by
  apply Ends.bind_of_eq (readInode_eq hi)
  rw [if_neg (not_not.mpr hdir), if_neg (not_lt.mpr hname)]
  match hbuffers : s.freeBuffers with
  | [] =>
      apply Ends.bind_of_eq (kmallocBufAlloc_nil hbuffers)
      apply Ends.pure
      exact ⟨by decide, Extends.refl hs⟩
  | [d] =>
      have hdraw : s.buf d = .raw := by
        rw [← hs.mem_free, hbuffers]
        simp
      obtain ⟨s₁, halloc, hbuf, hfree₁, hroot, -⟩ := kmallocBufAlloc_cons hbuffers
      apply Ends.bind_of_eq halloc
      apply Ends.bind_of_eq (inodeAlloc_nil hfree₁)
      apply Ends.bind_of_eq kmallocBufFree_eq
      apply Ends.pure
      refine ⟨by decide, hs.extends_of_eq ?_ ?_ hroot⟩
      · simp [FileSystem.free, FileSystem.set, hbuf, ← hdraw]
      · simp [FileSystem.free, FileSystem.set, hbuffers, hfree₁]
  | _ :: _ :: _ =>
      rw [hbuffers, List.length_cons, List.length_cons] at hfree
      omega

/-- `ramfs_mknod` in a directory uses the first two free buffers for the entry and the inode. -/
theorem ramfsMknod_of_free (hs : WellFormed s) (hi : s.buf dir = .inode i) (hop : i.op = .ramfs)
    (hdir : S_ISDIR i.mode = true) (hname : name.length ≤ RAMFS_MAX_NAME)
    (hfree : s.freeBuffers = d :: c :: free) :
  Ends (ramfsMknod dir name mode) s fun r s' =>
    r = (0, some c) ∧ Created s s' dir name (newInode mode 2) d c
  := by
  obtain ⟨l, hl, -⟩ := (hs.inodeOk dir i hi).chain hop hdir
  have hdraw : s.buf d = .raw := by
    rw [← hs.mem_free, hfree]
    simp
  have hcraw : s.buf c = .raw := by
    rw [← hs.mem_free, hfree]
    simp
  have hnodup := hs.free_nodup
  rw [hfree, List.nodup_cons, List.nodup_cons, List.mem_cons, not_or] at hnodup
  obtain ⟨⟨hdc, hdfree⟩, hcfree, hnodup⟩ := hnodup
  obtain ⟨s₁, halloc₁, hbuf₁, hfree₁, hroot₁, -⟩ := kmallocBufAlloc_cons hfree
  obtain ⟨s₂, halloc₂, hbuf₂, hfree₂, hroot₂, -⟩ := inodeAlloc_cons .ramfs hfree₁
  have hc₂ : s₂.buf c = .inode { op := .ramfs, count := 1 } := by simp [hbuf₂]
  have hbuf {b : BufId} (hbd : b ≠ d) (hbc : b ≠ c) : s₂.buf b = s.buf b := by
    simp [hbuf₂, hbuf₁, hbd, hbc]
  have hl₃ : Chain ((s₂.set c (.inode { op := .ramfs, count := 1, mode := mode })).set d
      (.dirent { name := name, inode := some c })) i.ramfsDir l := by
    apply hl.congr
    intro b e he
    have hbd : b ≠ d := by
      rintro rfl
      simp [hdraw] at he
    have hbc : b ≠ c := by
      rintro rfl
      simp [hcraw] at he
    rw [FileSystem.set_buf_of_ne hbd, FileSystem.set_buf_of_ne hbc, hbuf hbd hbc, he]
  obtain ⟨a, x, ha, hlink⟩ := exists_link (d := d) hi hl
  have had : d ≠ a := by
    rintro rfl
    contradiction
  have hac : c ≠ a := by
    rintro rfl
    contradiction
  have hc₄ : linkEntry ((s₂.set c (.inode { op := .ramfs, count := 1, mode := mode })).set d
      (.dirent { name := name, inode := some c })) dir i l d c
      = .inode { op := .ramfs, count := 1, mode := mode } := by
    rw [hlink, Function.update_of_ne hac, FileSystem.set_buf_of_ne (Ne.symm hdc),
      FileSystem.set_buf_self]
  apply Ends.bind_of_eq (readInode_eq hi)
  rw [if_neg (not_not.mpr hdir), if_neg (not_lt.mpr hname)]
  apply Ends.bind_of_eq halloc₁
  apply Ends.bind_of_eq halloc₂
  apply Ends.bind_of_eq (readInode_eq hc₂)
  apply Ends.bind_of_eq store_eq
  apply Ends.bind_of_eq store_eq
  apply Ends.bind_of_eq (ramfsAddDirent_eq hl₃)
  apply Ends.bind_of_eq (inodeRef_eq hc₄)
  apply Ends.pure
  refine ⟨rfl, hname, hdraw, hcraw, hdc, ⟨i, l, hi, hop, hdir, hl, ?_⟩, ?_, ?_, ?_⟩
  · rw [hlink]
    funext b
    by_cases hbc : b = c
    · simp [hbc, FileSystem.set, newInode]
    · by_cases hbd : b = d
      · simp [hbd, FileSystem.set, hdc, had, hlink]
      · by_cases hba : b = a
        · simp [hba, FileSystem.set, hlink, Ne.symm had, Ne.symm hac]
        · simp [hba, hbc, hbd, FileSystem.set, hlink, hbuf hbd hbc]
  · change s₂.freeBuffers.Nodup
    rwa [hfree₂]
  · intro b
    change b ∈ s₂.freeBuffers ↔ _
    rw [hfree₂, hfree, List.mem_cons, List.mem_cons]
    constructor
    · intro hb
      refine ⟨Or.inr (Or.inr hb), ?_, ?_⟩
      · rintro rfl
        contradiction
      · rintro rfl
        contradiction
    · rintro ⟨hb, hbd, hbc⟩
      simpa [hbd, hbc] using hb
  · exact hroot₂.trans hroot₁

/-- `ramfs_mknod`: an entry and an inode with two references, or nothing. -/
theorem ramfsMknod_ends {mode : Word} (hs : WellFormed s) (hi : s.buf dir = .inode i)
    (hop : i.op = .ramfs) :
  Ends (ramfsMknod dir name mode) s fun r s' =>
    r.1 < 0 ∧ Extends s s' [] []
      ∨ r.1 = 0 ∧ ∃ d c, r.2 = some c ∧ Created s s' dir name (newInode mode 2) d c
  := by
  by_cases hdir : S_ISDIR i.mode = true
  · by_cases hname : name.length ≤ RAMFS_MAX_NAME
    · match hfree : s.freeBuffers with
      | d :: c :: free =>
          apply (ramfsMknod_of_free hs hi hop hdir hname hfree).mono
          rintro _ s' ⟨rfl, hcreated⟩
          right
          exact ⟨rfl, d, c, rfl, hcreated⟩
      | [] | [_] =>
          apply (ramfsMknod_of_full hs hi hdir hname (by simp [hfree])).mono
          intro r s' hfailed
          left
          exact hfailed
    · apply Ends.bind_of_eq (readInode_eq hi)
      rw [if_neg (not_not.mpr hdir), if_pos (not_le.mp hname)]
      apply Ends.pure
      left
      exact ⟨by decide, Extends.refl hs⟩
  · apply Ends.bind_of_eq (readInode_eq hi)
    rw [if_pos hdir]
    apply Ends.pure
    left
    exact ⟨by decide, Extends.refl hs⟩

end Mknod

section Created

variable {child : Inode} {d : BufId}

/-- The reference to the directory is given up after a node is created in it. -/
theorem Created.deref_dir (h : Created s' s'' dir name child d c) (hdir : Extends s s' [dir] [])
    (hs : WellFormed s) :
  Ends (inodeDeref dir) s'' fun _ t => Created s t dir name child d c
  := by
  obtain ⟨i, l, hi, hop, hisdir, hl, hbuf⟩ := h.buf_eq
  cases hdir.referenced hs with
  | new i' j x hb hj hbuf' hop' =>
      rw [hbuf'] at hi
      simp only [Function.update_self, Buffer.inode.injEq] at hi
      simp [← hi, hop'] at hop
  | old i₀ hi₀ hbuf' hfree hroot =>
      rw [hbuf', Function.update_self] at hi
      cases hi
      have hpos := (hs.inodeOk dir i₀ hi₀).count_pos
      have hraw {b : BufId} : s'.buf b = .raw ↔ s.buf b = .raw := by
        rw [hbuf']
        by_cases hb : b = dir
        · simp [hb, hi₀]
        · simp [hb]
      have hdirent {b : BufId} {e : RamfsDirent} : s'.buf b = .dirent e ↔ s.buf b = .dirent e := by
        rw [hbuf']
        by_cases hb : b = dir
        · simp [hb, hi₀]
        · simp [hb]
      have hdraw : s.buf d = .raw := hraw.mp h.dirent_raw
      have hcraw : s.buf c = .raw := hraw.mp h.inode_raw
      have hdird : dir ≠ d := by
        rintro rfl
        simp [hi₀] at hdraw
      have hdirc : dir ≠ c := by
        rintro rfl
        simp [hi₀] at hcraw
      have hl₀ : Chain s i₀.ramfsDir l := hl.congr fun b e => hdirent.mp
      obtain ⟨i₂, hi₂, hcount, hset⟩ : ∃ i₂ : Inode, s''.buf dir = .inode i₂
          ∧ i₂.count = i₀.count + 1
          ∧ Function.update s''.buf dir (.inode { i₂ with count := i₂.count - 1 })
            = Function.update (Function.update (linkEntry s dir i₀ l d) d
              (.dirent { name := name, inode := some c })) c (.inode child) := by
        rw [hbuf]
        cases l using List.reverseRecOn with
        | nil =>
            refine ⟨{ i₀ with count := i₀.count + 1, ramfsDir := some d }, ?_, rfl, ?_⟩
            · simp [linkEntry, hdird, hdirc]
            · funext b
              by_cases hb : b = dir
              · simp [hb, linkEntry, hdird, hdirc]
              · simp [Function.update_apply, hb, linkEntry, hbuf']
        | append_singleton l e =>
            have he : s.buf e.1 = .dirent e.2 := hl₀.suffix.2.1
            have hedir : dir ≠ e.1 := by
              intro heq
              rw [heq, he] at hi₀
              cases hi₀
            refine ⟨{ i₀ with count := i₀.count + 1 }, ?_, rfl, ?_⟩
            · simp [linkEntry, hdird, hdirc, hedir, hbuf']
            · funext b
              by_cases hb : b = dir
              · simp [hb, linkEntry, hdird, hdirc, hedir, hi₀]
              · simp [Function.update_apply, hb, linkEntry, hbuf']
      refine ⟨0, _, inodeDeref_of_lt hi₂ (by omega), h.name_le, hdraw, hcraw, h.ne,
        ⟨i₀, l, hi₀, hop, hisdir, hl₀, hset⟩, h.free_nodup, ?_, h.root_eq.trans hroot⟩
      intro b
      change b ∈ s''.freeBuffers ↔ _
      rw [h.mem_free, hfree]

variable (h : Created s s' dir name child d c)

include h

/-- The inode of the new node is replaced. -/
theorem Created.set_child (child' : Inode) :
  Created s (s'.set c (.inode child')) dir name child' d c
  := by
  obtain ⟨i, l, hi, hop, hisdir, hl, hbuf⟩ := h.buf_eq
  refine ⟨h.name_le, h.dirent_raw, h.inode_raw, h.ne, ⟨i, l, hi, hop, hisdir, hl, ?_⟩, h.free_nodup,
    h.mem_free, h.root_eq⟩
  rw [FileSystem.set, hbuf, Function.update_idem]

theorem Created.buf_child : s'.buf c = .inode child := by
  obtain ⟨i, l, -, -, -, -, hbuf⟩ := h.buf_eq
  simp [hbuf]

/-- A reference to the new node is given up. -/
theorem Created.deref_child (hcount : 1 < child.count) :
  Ends (inodeDeref c) s' fun _ s'' =>
    Created s s'' dir name { child with count := child.count - 1 } d c
  :=
  ⟨0, _, inodeDeref_of_lt h.buf_child hcount, h.set_child _⟩

end Created

/-! ### The walk along a path -/

/-- The comparison of the types of two modes. -/
theorem type_eq_iff {mode mode' : Word} :
  (mode ^^^ mode') &&& S_IFMT = 0 ↔ mode' &&& S_IFMT = mode &&& S_IFMT
  := by
  have hxor : (mode ^^^ mode') &&& S_IFMT = (mode &&& S_IFMT) ^^^ (mode' &&& S_IFMT) := by
    ext n hn
    simp only [BitVec.getElem_and, BitVec.getElem_xor, Bool.and_xor_distrib_right]
  rw [hxor]
  exact BitVec.xor_eq_zero_iff.trans eq_comm

/-- The inode `i` passes the checks of `inode_lookup` at the end of the path. -/
structure Passes (oflag mode : Word) (i : Inode) : Prop where
  access : ¬ inodeAccess i (oflagToAccessMode oflag) < 0
  type_eq : (mode ^^^ i.mode) &&& S_IFMT = 0
  not_excl : ¬ (oflag &&& O_CREAT ≠ 0 ∧ oflag &&& O_EXCL ≠ 0)

/-- The owner may write to the inode `dir`. -/
def Writable (s : FileSystem σ) (dir : BufId) : Prop :=
  ∃ i, s.buf dir = .inode i ∧ ¬ inodeAccess i W_OK < 0

/-- What a lookup from `node` along `path` does: it fails and changes nothing, it returns a
reference, or it creates a node, in the directory where the walk comes to the last component of the
path. -/
inductive Looked (wanted : Bool) (oflag mode : Word) (s : FileSystem σ) (node : BufId)
    (path : List Byte) : Int × Option BufId → FileSystem σ → Prop where
  | failed {e : Int} {s' : FileSystem σ} (he : e < 0) (h : Extends s s' [] []) :
      Looked wanted oflag mode s node path (e, none) s'
  | found {b : BufId} {i : Inode} {s' : FileSystem σ} (hw : wanted = true)
      (hi : s'.buf b = .inode i) (hpass : Passes oflag mode i) (h : Extends s s' [b] []) :
      Looked wanted oflag mode s node path (0, some b) s'
  | checked {s' : FileSystem σ} (hw : wanted = false) (h : Extends s s' [] []) :
      Looked wanted oflag mode s node path (0, none) s'
  | created (dir d c : BufId) (name : List Byte) {s' : FileSystem σ} (hw : wanted = true)
      (hcreat : oflag &&& O_CREAT ≠ 0)
      (hp : Parent s node path dir name) (hv : Vacant s dir name) (hwrite : Writable s dir)
      (h : Created s s' dir name (newInode mode 2) d c) :
      Looked wanted oflag mode s node path (1, some c) s'
  | made (dir d c : BufId) (name : List Byte) {s' : FileSystem σ} (hw : wanted = false)
      (hcreat : oflag &&& O_CREAT ≠ 0)
      (hp : Parent s node path dir name) (hv : Vacant s dir name) (hwrite : Writable s dir)
      (h : Created s s' dir name (newInode mode 1) d c) :
      Looked wanted oflag mode s node path (1, none) s'

section Walk

variable {wanted : Bool} {oflag mode : Word} {node : BufId} {path : List Byte}

/-- A lookup goes on at the node of the first component of the path. -/
theorem Looked.next {r : Int × Option BufId}
    (h : Looked wanted oflag mode s c (path.drop (nameLen path + 1)) r s') (hpath : path ≠ [])
    (hnext : path.drop (nameLen path) ≠ []) (hc : s.buf c ≠ .raw → Searchable s node)
    (hentry : Entry s node (path.take (nameLen path)) c ∨ s.buf c = .raw) :
  Looked wanted oflag mode s node path r s'
  := by
  have hparent {dir : BufId} {name : List Byte}
      (hp : Parent s c (path.drop (nameLen path + 1)) dir name) : Parent s node path dir name := by
    obtain ⟨ci, hci, -⟩ := hp.searchable
    have hne : s.buf c ≠ .raw := by simp [hci]
    apply Parent.next hpath hnext (hc hne) (hentry.resolve_right hne) hp
  cases h with
  | failed he h => apply Looked.failed he h
  | found hw hi hpass h => apply Looked.found hw hi hpass h
  | checked hw h => apply Looked.checked hw h
  | created dir d c name hw ho hp hv hwrite h =>
      apply Looked.created dir d c name hw ho (hparent hp) hv hwrite h
  | made dir d c name hw ho hp hv hwrite h =>
      apply Looked.made dir d c name hw ho (hparent hp) hv hwrite h

/-- A lookup that succeeds, and neither returns an inode nor creates a node. -/
theorem Looked.checked_of_not_creat {e : Int} {out : Option BufId}
    (h : Looked false oflag mode s node path (e, out) s') (he : 0 ≤ e)
    (ho : oflag &&& O_CREAT = 0) :
  e = 0 ∧ out = none ∧ Extends s s' [] []
  := by
  cases h with
  | failed he' _ => omega
  | found hw => cases hw
  | checked _ h => exact ⟨rfl, rfl, h⟩
  | created _ _ _ _ hw => cases hw
  | made _ _ _ _ _ hcreat => contradiction

/-- The walk gives up its reference and fails. -/
theorem derefAndReturn_ends {e : Int} (hs : WellFormed s) (h : Extends s s' [b] []) (he : e < 0) :
  Ends (derefAndReturn b e) s' (Looked wanted oflag mode s node path)
  := by
  apply Ends.bind_discard (h.inodeDeref_ends hs)
  intro _ s'' h''
  apply Ends.pure
  apply Looked.failed he h''

/-- An inode that passes the checks is returned. -/
theorem inodeLookupCheck_eq (hi : s.buf b = .inode i) (hpass : Passes oflag mode i) :
  inodeLookupCheck true b oflag mode s = some ((0, some b), s)
  := by
  have hends : Ends (inodeLookupCheck true b oflag mode) s fun r s' => r = (0, some b) ∧ s' = s := by
    apply Ends.bind_of_eq (readInode_eq hi)
    dsimp only
    rw [if_neg hpass.access, if_neg (not_not.mpr hpass.type_eq), if_neg hpass.not_excl]
    apply Ends.pure
    exact ⟨rfl, rfl⟩
  obtain ⟨_, _, heq, rfl, rfl⟩ := hends
  apply heq

/-- The checks at the end of the walk. -/
theorem inodeLookupCheck_ends (hs : WellFormed s) (h : Extends s s' [b] []) :
  Ends (inodeLookupCheck wanted b oflag mode) s' (Looked wanted oflag mode s node path)
  := by
  obtain ⟨i, hi⟩ := h.held_inode b (by simp)
  apply Ends.bind_of_eq (readInode_eq hi)
  dsimp only
  split_ifs with haccess htype hdir hdir' hexcl
  · apply derefAndReturn_ends hs h haccess
  · apply derefAndReturn_ends hs h (by decide)
  · apply derefAndReturn_ends hs h (by decide)
  · apply derefAndReturn_ends hs h (by decide)
  · apply derefAndReturn_ends hs h (by decide)
  · unfold returnInode
    cases wanted with
    | true =>
        apply Ends.pure
        exact Looked.found rfl hi ⟨haccess, not_not.mp htype, hexcl⟩ h
    | false =>
        apply Ends.bind_discard (h.inodeDeref_ends hs)
        intro _ s'' h''
        apply Ends.pure
        apply Looked.checked rfl h''

/-- The creation at the end of the walk. -/
theorem inodeLookupCreate_ends (hs : WellFormed s) (h : Extends s s' [b] [])
    (hi : s'.buf b = .inode i) (ho : oflag &&& O_CREAT ≠ 0)
    (hp : i.op = .ramfs → Parent s b path b name) (hv : Vacant s b name) :
  Ends (inodeLookupCreate wanted b i name mode) s' (Looked wanted oflag mode s b path)
  := by
  unfold inodeLookupCreate
  split_ifs with haccess
  · apply derefAndReturn_ends hs h haccess
  · cases hop : i.op with
    | fatfs => apply derefAndReturn_ends hs h (by decide)
    | ramfs =>
        have hwrite : Writable s b := by
          obtain ⟨i₀, hi₀, rfl⟩ := h.ramfs_inode hi hop
          exact ⟨i₀, hi₀, haccess⟩
        apply Ends.bind (ramfsMknod_ends (h.wellFormed hs) hi hop)
        rintro ⟨e, child⟩ s₁ (⟨he, h₁⟩ | ⟨rfl, d, c, rfl, hcreated⟩)
        · have h₁' : Extends s s₁ [b] [] := h.trans h₁
          apply Ends.bind_discard (h₁'.inodeDeref_ends hs)
          intro _ s₂ h₂
          dsimp only at he ⊢
          rw [if_pos he]
          apply Ends.pure
          apply Looked.failed he h₂
        · apply Ends.bind_discard (hcreated.deref_dir h hs)
          intro _ s₂ h₂
          dsimp only
          rw [if_neg (by decide)]
          unfold returnInode
          cases wanted with
          | true =>
              apply Ends.pure
              apply Looked.created b d c name rfl ho (hp hop) hv hwrite h₂
          | false =>
              apply Ends.bind_discard (h₂.deref_child (show (1 : Int) < 2 by decide))
              intro _ s₃ h₃
              apply Ends.pure
              apply Looked.made b d c name rfl ho (hp hop) hv hwrite h₃

/-- The loop of `inode_lookup`.  One reference is held, to the node that the walk is at. -/
theorem inodeLookupLoop_ends {fuel : ℕ} (hs : WellFormed s) (h : Extends s s' [b] [])
    (hfuel : path.length < fuel) :
  Ends (inodeLookupLoop sd wanted oflag mode fuel b path) s' (Looked wanted oflag mode s b path)
  := by
  induction fuel generalizing b path s' with
  | zero => omega
  | succ n ih =>
      unfold inodeLookupLoop
      obtain ⟨i, hi⟩ := h.held_inode b (by simp)
      split_ifs with hpath
      · apply inodeLookupCheck_ends hs h
      apply Ends.bind_of_eq (readInode_eq hi)
      split_ifs with hdir haccess
      · apply derefAndReturn_ends hs h haccess
      · have hsearch : s.buf b ≠ .raw → Searchable s b := by
          apply h.searchable_of_ne_raw
          exact ⟨i, hi, hdir, haccess⟩
        apply Ends.bind (lookup_ends (h.wellFormed hs) hi)
        rintro ⟨e, child⟩ s₁ (⟨he, hv, h₁⟩ | ⟨rfl, c, rfl, hc, h₁⟩)
        · have h₁' : Extends s s₁ [b] [] := h.trans h₁
          have hi₁ : s₁.buf b = .inode i := by rw [(h₁.unchanged (h.wellFormed hs)).buf_eq, hi]
          dsimp only at he ⊢
          split_ifs with hcreate
          · apply inodeLookupCreate_ends hs h₁' hi₁ hcreate.2.2 _ (h.vacant hv)
            intro hop
            obtain ⟨i₀, hi₀, -⟩ := h.ramfs_inode hi hop
            apply Parent.last hpath hcreate.2.1 (hsearch (by simp [hi₀]))
          · apply derefAndReturn_ends hs h₁' he
        · have h₁' : Extends s s₁ [b, c] [] := (h.trans h₁).perm (List.Perm.swap b c [])
          have hentry : Entry s b (path.take (nameLen path)) c ∨ s.buf c = .raw := by
            rw [← h.entry_iff]
            apply hc.imp_right h.raw_of_raw
          dsimp only
          rw [if_neg (by simp [ENOENT]), if_neg (by decide)]
          apply Ends.bind_discard (h₁'.inodeDeref_ends hs)
          intro _ s₂ h₂
          obtain ⟨ci, hci⟩ := h₂.held_inode c (by simp)
          apply Ends.bind_of_eq (readInode_eq hci)
          split_ifs with hlink hlast
          · apply derefAndReturn_ends hs h₂ (by decide)
          · apply inodeLookupCheck_ends hs h₂
          · have hpos : 0 < path.length := List.length_pos_of_ne_nil hpath
            have hends : Ends (inodeLookupLoop sd wanted oflag mode n c
                (path.drop (nameLen path + 1))) s₂
                (Looked wanted oflag mode s c (path.drop (nameLen path + 1))) := by
              apply ih h₂
              rw [List.length_drop]
              omega
            apply hends.mono
            intro r s₃ hlooked
            apply hlooked.next hpath hlast _ hentry
            intro hraw
            obtain ⟨i₀, -, -, -, hram, -⟩ := hentry.resolve_right hraw
            apply hsearch (by simp [hram.buf_eq])
      · apply derefAndReturn_ends hs h (by decide)

/-- `inode_get_root` takes a reference. -/
theorem WellFormed.inodeGetRoot_ends (hs : WellFormed s) :
  Ends inodeGetRoot s fun r s' => r = s.root ∧ Extends s s' [s.root] []
  := by
  obtain ⟨i, hi⟩ := hs.root
  refine ⟨s.root, _, ?_, rfl, hs.ref hi⟩
  change (inodeRef s.root s).bind _ = _
  rw [inodeRef_eq hi]
  rfl

/-- `inode_lookup` does not fault. -/
theorem inodeLookup_ends {pathname : List Byte} (hs : WellFormed s) :
  Ends (inodeLookup sd wanted pathname oflag mode) s
    (Looked wanted oflag mode s s.root (pathname.drop 1))
  := by
  apply Ends.bind hs.inodeGetRoot_ends
  rintro _ s₁ ⟨rfl, h₁⟩
  apply inodeLookupLoop_ends hs h₁
  rw [List.length_drop]
  omega

/-! ### Lookups that return no inode -/

/-- A reference to the inode that a lookup returns is given up. -/
def dropInode (r : Int × Option BufId) : FsM σ (Int × Option BufId) :=
  match r.2 with
  | none => return r
  | some b => do
      discard (inodeDeref b)
      return (r.1, none)

theorem derefAndReturn_dropInode {e : Int} :
  derefAndReturn node e >>= dropInode = (derefAndReturn node e : FsM σ _)
  := by
  simp [derefAndReturn, dropInode]

theorem returnInode_false {r : Int} :
  (returnInode false node r : FsM σ _) = returnInode true node r >>= dropInode
  := by
  simp [returnInode, dropInode]

theorem inodeLookupCheck_false :
  (inodeLookupCheck false node oflag mode : FsM σ _)
    = inodeLookupCheck true node oflag mode >>= dropInode
  := by
  rw [inodeLookupCheck, inodeLookupCheck, bind_assoc]
  apply bind_congr
  intro i
  dsimp only
  split_ifs
  · rw [derefAndReturn_dropInode]
  · rw [derefAndReturn_dropInode]
  · rw [derefAndReturn_dropInode]
  · rw [derefAndReturn_dropInode]
  · rw [derefAndReturn_dropInode]
  · rw [returnInode_false]

theorem inodeLookupCreate_false :
  (inodeLookupCreate false node i name mode : FsM σ _)
    = inodeLookupCreate true node i name mode >>= dropInode
  := by
  rw [inodeLookupCreate, inodeLookupCreate]
  split_ifs
  · rw [derefAndReturn_dropInode]
  · split
    · rw [derefAndReturn_dropInode]
    · rw [bind_assoc]
      apply bind_congr
      rintro ⟨e, child⟩
      dsimp only
      rw [bind_assoc]
      apply bind_congr
      intro _
      split_ifs
      · rfl
      · cases child with
        | none => rfl
        | some c => apply returnInode_false

/-- The part of the loop of `inode_lookup` after the lookup of a component. -/
theorem inodeLookupNext_false {child : Option BufId} {m m' : BufId → FsM σ (Int × Option BufId)}
    (h : ∀ c, m c = m' c >>= dropInode) :
  (match child with
    | none => fault
    | some child => do
        discard (inodeDeref node)
        let c ← readInode child
        if S_ISLNK c.mode then derefAndReturn child (-EINVAL) else m child)
    = (match child with
      | none => fault
      | some child => do
          discard (inodeDeref node)
          let c ← readInode child
          if S_ISLNK c.mode then derefAndReturn child (-EINVAL) else m' child) >>= dropInode
  := by
  cases child with
  | none => rfl
  | some c =>
      dsimp only
      rw [bind_assoc]
      apply bind_congr
      intro _
      rw [bind_assoc]
      apply bind_congr
      intro ci
      split_ifs
      · rw [derefAndReturn_dropInode]
      · apply h

/-- A caller that wants no inode gets what the other one gets, without the reference. -/
theorem inodeLookupLoop_false {fuel : ℕ} :
  inodeLookupLoop sd false oflag mode fuel node path
    = inodeLookupLoop sd true oflag mode fuel node path >>= dropInode
  := by
  induction fuel generalizing node path with
  | zero => rfl
  | succ n ih =>
      rw [inodeLookupLoop, inodeLookupLoop]
      split_ifs
      · rw [inodeLookupCheck_false]
      · rw [bind_assoc]
        apply bind_congr
        intro i
        split_ifs
        · rw [derefAndReturn_dropInode]
        · dsimp only
          rw [bind_assoc]
          apply bind_congr
          rintro ⟨e, child⟩
          dsimp only
          split_ifs with _ _ hlast
          · rw [inodeLookupCreate_false]
          · rw [derefAndReturn_dropInode]
          · apply inodeLookupNext_false
            intro c
            apply inodeLookupCheck_false
          · apply inodeLookupNext_false
            intro c
            apply ih
        · rw [derefAndReturn_dropInode]

/-- A lookup that does not return an inode is one that does, and gives up the reference. -/
theorem inodeLookup_false {pathname : List Byte} :
  inodeLookup sd false pathname oflag mode = inodeLookup sd true pathname oflag mode >>= dropInode
  := by
  rw [inodeLookup, inodeLookup, bind_assoc]
  apply bind_congr
  intro node
  apply inodeLookupLoop_false

end Walk

/-- A lookup is neutral.  If it fails, it leaves the file system unchanged.  If it succeeds, it
adds one reference to the inode that it returns, or leaves the file system unchanged if no inode is
asked for.  If it creates a node, it adds one directory entry and one inode, with one reference for
the entry and one for the inode that is returned. -/
theorem inodeLookup_neutral (sd : SdDriver σ) (wanted : Bool) (pathname : List Byte)
    (oflag mode : Word) (hs : WellFormed s) :
  ∃ r out s', inodeLookup sd wanted pathname oflag mode s = some ((r, out), s')
    ∧ (r < 0 ∨ r = 0 ∨ r = 1)
    ∧ (r < 0 → out = none ∧ Unchanged s s')
    ∧ (r = 0 → if wanted then ∃ b, out = some b ∧ Referenced s s' b
        else out = none ∧ Unchanged s s')
    ∧ (r = 1 → ∃ dir name d c,
        if wanted then out = some c ∧ Created s s' dir name (newInode mode 2) d c
        else out = none ∧ Created s s' dir name (newInode mode 1) d c)
  := by
  have hends : Ends (inodeLookup sd wanted pathname oflag mode) s
      (Looked wanted oflag mode s s.root (pathname.drop 1)) :=
    inodeLookup_ends hs
  obtain ⟨⟨r, out⟩, s', heq, hlooked⟩ := hends
  refine ⟨r, out, s', heq, ?_⟩
  cases hlooked with
  | failed he h =>
      refine ⟨Or.inl he, fun _ => ⟨rfl, h.unchanged hs⟩, fun h0 => ?_, fun h1 => ?_⟩
      · omega
      · omega
  | found hw _ _ h =>
      refine ⟨Or.inr (Or.inl rfl), fun hneg => ?_, fun _ => ?_, fun h1 => ?_⟩
      · cases hneg
      · rw [if_pos hw]
        exact ⟨_, rfl, h.referenced hs⟩
      · cases h1
  | checked hw h =>
      refine ⟨Or.inr (Or.inl rfl), fun hneg => ?_, fun _ => ?_, fun h1 => ?_⟩
      · cases hneg
      · rw [if_neg (by simp [hw])]
        exact ⟨rfl, h.unchanged hs⟩
      · cases h1
  | created dir d c name hw _ _ _ _ h =>
      refine ⟨Or.inr (Or.inr rfl), fun hneg => ?_, fun h0 => ?_, fun _ => ?_⟩
      · cases hneg
      · cases h0
      · use dir, name, d, c
        rw [if_pos hw]
        exact ⟨rfl, h⟩
  | made dir d c name hw _ _ _ _ h =>
      refine ⟨Or.inr (Or.inr rfl), fun hneg => ?_, fun h0 => ?_, fun _ => ?_⟩
      · cases hneg
      · cases h0
      · use dir, name, d, c
        rw [if_neg (by simp [hw])]
        exact ⟨rfl, h⟩

/-- A driver without a card. -/
def noCard : SdDriver Unit where
  info _ := ⟨0, 0, 0, 0, 0, 0, fun _ => 0⟩
  sdDetect _ := (SD_DETECT_NONE, ())
  sdCacheRead _ _ := (0xFF, ())

/-- The creation of the directory `/a` in the file system at boot. -/
theorem inodeLookup_neutral_boot :
  WellFormed (boot ()) ∧ ∃ c s',
    inodeLookup noCard true [chr '/', chr 'a'] O_CREAT S_IFDIR (boot ()) = some ((1, some c), s')
      ∧ ∃ dir name d, Created (boot ()) s' dir name (newInode S_IFDIR 2) d c
  := by
  obtain ⟨r, out, s', heq, -, -, -, hcreated⟩ := inodeLookup_neutral noCard true
    [chr '/', chr 'a'] O_CREAT S_IFDIR (wellFormed_boot ())
  have hr : (inodeLookup noCard true [chr '/', chr 'a'] O_CREAT S_IFDIR (boot ())).map
      (fun p => p.1.1) = some 1 := by
    decide +kernel
  rw [heq] at hr
  cases hr
  obtain ⟨dir, name, d, c, rfl, hc⟩ := hcreated rfl
  exact ⟨wellFormed_boot (), c, s', heq, dir, name, d, hc⟩

end Mosnix.Fs
