import Mosnix.Fs.References

/-!
# Releasing a subtree

`Subtree m b bufs` says that the buffers `m` have a finite tree of inodes at `b`, in which every
inode has one reference, and that the tree takes up the buffers `bufs`.  A tree consists of
directories, files, links and devices of the RAM file system, and of inodes of the FAT file system,
which are there where a volume is mounted.

Giving up the reference to the inode at the top of a tree frees the buffers of the tree, each of them
once, and changes no other buffer (`inodeDeref_releases`).  A function of the model that reads a
buffer which is free faults, so that no buffer is used after it is freed.
-/

namespace Mosnix.Fs

open Fat Program

variable {σ α β : Type} {s s₁ s₂ : FileSystem σ} {m : BufId → Buffer} {b c : BufId} {i : Inode}
  {bufs bufs' : List BufId} {p : Option BufId}

/-! ### Trees of inodes -/

/-- The fragments of the data of a file or of a symbolic link from `p` on. -/
inductive Fragments (m : BufId → Buffer) : Option BufId → List BufId → Prop where
  | nil : Fragments m none []
  | cons {b : BufId} {next : Option BufId} {bufs : List BufId} (hbuf : m b = .data next)
      (hnext : Fragments m next bufs) : Fragments m (some b) (b :: bufs)

/-- The inode that replaces a directory which is a mount point. -/
def Inode.mount (i : Inode) : Option BufId := if isMounted i.mode then i.ramfsMount else none

mutual

/-- A tree of inodes with one reference each, and the buffers that it takes up. -/
inductive Subtree (m : BufId → Buffer) : BufId → List BufId → Prop where
  | dir {b : BufId} {i : Inode} {entries mount : List BufId} (hbuf : m b = .inode i)
      (hop : i.op = .ramfs) (hcount : i.count = 1) (hmode : S_ISDIR i.mode)
      (hentries : Entries m i.ramfsDir entries) (hmount : Mounted m i.mount mount) :
      Subtree m b (b :: (entries ++ mount))
  | file {b : BufId} {i : Inode} {data : List BufId} (hbuf : m b = .inode i)
      (hop : i.op = .ramfs) (hcount : i.count = 1) (hmode : S_ISREG i.mode ∨ S_ISLNK i.mode)
      (hdata : Fragments m i.ramfsData data) :
      Subtree m b (b :: data)
  | device {b : BufId} {i : Inode} (hbuf : m b = .inode i) (hop : i.op = .ramfs)
      (hcount : i.count = 1) (hmode : ¬ S_ISDIR i.mode ∧ ¬ S_ISREG i.mode ∧ ¬ S_ISLNK i.mode) :
      Subtree m b [b]
  | fat {b : BufId} {i : Inode} (hbuf : m b = .inode i) (hop : i.op = .fatfs)
      (hcount : i.count = 1) (hinfo : ∀ j ∈ i.fatfsInfo, ∃ x, m j = .info x) :
      Subtree m b (b :: i.fatfsInfo.toList)

/-- The entries of a directory from `p` on, with the trees that they name.  The entries `.` and `..`
do not have a reference to the inode that they name. -/
inductive Entries (m : BufId → Buffer) : Option BufId → List BufId → Prop where
  | nil : Entries m none []
  | dots {b : BufId} {e : RamfsDirent} {bufs : List BufId} (hbuf : m b = .dirent e)
      (hname : isDots e.name) (hnext : Entries m e.next bufs) :
      Entries m (some b) (b :: bufs)
  | entry {b c : BufId} {e : RamfsDirent} {child bufs : List BufId} (hbuf : m b = .dirent e)
      (hname : ¬ isDots e.name) (hinode : e.inode = some c) (hchild : Subtree m c child)
      (hnext : Entries m e.next bufs) :
      Entries m (some b) (b :: (child ++ bufs))

/-- The tree that is mounted, if there is one. -/
inductive Mounted (m : BufId → Buffer) : Option BufId → List BufId → Prop where
  | nothing : Mounted m none []
  | tree {b : BufId} {bufs : List BufId} (htree : Subtree m b bufs) : Mounted m (some b) bufs

end

/-- The buffers of a file are in use. -/
theorem Fragments.ne_raw (h : Fragments m p bufs) : ∀ c ∈ bufs, m c ≠ .raw := by
  induction h with
  | nil => simp
  | cons hbuf hnext ih => simpa [hbuf] using ih

mutual

/-- The buffers of a tree are in use. -/
theorem Subtree.ne_raw {b : BufId} {bufs : List BufId} :
  Subtree m b bufs → ∀ c ∈ bufs, m c ≠ .raw
  | .dir hbuf _ _ _ hentries hmount => by
      have hentries' := hentries.ne_raw
      have hmount' := hmount.ne_raw
      simp only [List.mem_cons, List.mem_append]
      rintro c (rfl | hc | hc)
      · simp [hbuf]
      · apply hentries' c hc
      · apply hmount' c hc
  | .file hbuf _ _ _ hdata => by simpa [hbuf] using hdata.ne_raw
  | .device hbuf _ _ _ => by simp [hbuf]
  | .fat hbuf _ _ hinfo => by
      simp only [List.mem_cons, Option.mem_toList]
      rintro c (rfl | hc)
      · simp [hbuf]
      · obtain ⟨x, hx⟩ := hinfo c hc
        simp [hx]

/-- The buffers of a directory are in use. -/
theorem Entries.ne_raw {p : Option BufId} {bufs : List BufId} :
  Entries m p bufs → ∀ c ∈ bufs, m c ≠ .raw
  | .nil => by simp
  | .dots hbuf _ hnext => by simpa [hbuf] using hnext.ne_raw
  | .entry hbuf _ _ hchild hnext => by
      have hchild' := hchild.ne_raw
      have hnext' := hnext.ne_raw
      simp only [List.mem_cons, List.mem_append]
      rintro c (rfl | hc | hc)
      · simp [hbuf]
      · apply hchild' c hc
      · apply hnext' c hc

theorem Mounted.ne_raw {p : Option BufId} {bufs : List BufId} :
  Mounted m p bufs → ∀ c ∈ bufs, m c ≠ .raw
  | .nothing => by simp
  | .tree htree => htree.ne_raw

end

/-! ### Programs that free buffers -/

/-- The file system `s'` is `s` with the buffers `bufs` returned to the free list. -/
structure Released (s s' : FileSystem σ) (bufs : List BufId) : Prop where
  freeBuffers : ∃ freed, s'.freeBuffers = freed ++ s.freeBuffers ∧ freed.Perm bufs
  raw : ∀ b ∈ bufs, s'.buf b = .raw
  other : ∀ b, b ∉ bufs → s'.buf b = s.buf b
  root_eq : s'.root = s.root
  sd_eq : s'.sd = s.sd

namespace Released

theorem refl : Released s s [] where
  freeBuffers := ⟨[], rfl, List.Perm.nil⟩
  raw b hb := by simp at hb
  other b _ := rfl
  root_eq := rfl
  sd_eq := rfl

theorem free : Released s (s.free b) [b] where
  freeBuffers := ⟨[b], rfl, List.Perm.refl _⟩
  raw c hc := by
    rw [List.mem_singleton.mp hc]
    apply FileSystem.free_buf_self
  other c hc := by
    apply FileSystem.free_buf_of_ne
    simpa using hc
  root_eq := rfl
  sd_eq := rfl

/-- Releases one after the other. -/
theorem trans (h : Released s s₁ bufs) (h' : Released s₁ s₂ bufs') :
  Released s s₂ (bufs ++ bufs')
  where
  freeBuffers := by
    obtain ⟨freed, heq, hperm⟩ := h.freeBuffers
    obtain ⟨freed', heq', hperm'⟩ := h'.freeBuffers
    refine ⟨freed' ++ freed, ?_, ?_⟩
    · rw [heq', heq, List.append_assoc]
    · apply (hperm'.append hperm).trans List.perm_append_comm
  raw b hb := by
    by_cases hb' : b ∈ bufs'
    · apply h'.raw b hb'
    · rw [h'.other b hb']
      apply h.raw b ((List.mem_append.mp hb).resolve_right hb')
  other b hb := by
    rw [List.mem_append, not_or] at hb
    rw [h'.other b hb.2, h.other b hb.1]
  root_eq := h'.root_eq.trans h.root_eq
  sd_eq := h'.sd_eq.trans h.sd_eq

theorem perm (h : Released s s₁ bufs) (hperm : bufs.Perm bufs') : Released s s₁ bufs' where
  freeBuffers := by
    obtain ⟨freed, heq, hfreed⟩ := h.freeBuffers
    exact ⟨freed, heq, hfreed.trans hperm⟩
  raw b hb := h.raw b (hperm.mem_iff.mpr hb)
  other b hb := h.other b fun hmem => hb (hperm.mem_iff.mp hmem)
  root_eq := h.root_eq
  sd_eq := h.sd_eq

/-- A buffer that changed before other buffers are freed is freed after them. -/
theorem set_free {x : Buffer} (h : Released (s.set b x) s₁ bufs) :
  Released s (s₁.free b) (b :: bufs)
  := by
  have hfreed := h.trans (free (b := b))
  constructor
  · obtain ⟨freed, heq, hperm⟩ := hfreed.freeBuffers
    exact ⟨freed, heq, hperm.trans List.perm_append_comm⟩
  · intro c hc
    apply hfreed.raw
    apply List.perm_append_comm.mem_iff.mp hc
  · intro c hc
    have hmem : c ∉ bufs ++ [b] := fun hmem => hc (List.perm_append_comm.mem_iff.mp hmem)
    rw [hfreed.other c hmem]
    apply FileSystem.set_buf_of_ne (List.ne_of_not_mem_cons hc)
  · apply hfreed.root_eq
  · apply hfreed.sd_eq

/-- Buffers that were in use are not on the free list twice. -/
theorem freeListOk (h : Released s s₁ bufs) (hnodup : bufs.Nodup)
    (huse : ∀ b ∈ bufs, s.buf b ≠ .raw) (hs : FreeListOk s) :
  FreeListOk s₁
  := by
  obtain ⟨freed, heq, hperm⟩ := h.freeBuffers
  constructor
  · rw [heq]
    apply (hperm.nodup_iff.mpr hnodup).append hs.free_nodup
    intro b hb hb'
    apply huse b (hperm.mem_iff.mp hb) ((hs.mem_free b).mp hb')
  · intro b
    rw [heq, List.mem_append, hperm.mem_iff, hs.mem_free]
    by_cases hb : b ∈ bufs
    · simp [hb, h.raw b hb]
    · simp [hb, h.other b hb]

end Released

/-- Where the buffers `bufs` are as in `m`, the program returns `a` and frees these buffers. -/
def Releases (m : BufId → Buffer) (prog : FsM σ α) (a : α) (bufs : List BufId) : Prop :=
  ∀ s : FileSystem σ, (∀ b ∈ bufs, s.buf b = m b) →
    Ends prog s fun a' s' => a' = a ∧ Released s s' bufs

namespace Releases

variable {prog : FsM σ α} {f : α → FsM σ β} {a : α} {r : β}

theorem pure : Releases m (Pure.pure a : FsM σ α) a [] := fun _ _ => Ends.pure ⟨rfl, .refl⟩

theorem free : Releases (σ := σ) m (kmallocBufFree (some b)) () [b] := fun _ _ =>
  ⟨(), _, kmallocBufFree_eq, rfl, .free⟩

/-- A sequence of two programs that free different buffers. -/
theorem bind (h : Releases m prog a bufs) (hf : Releases m (f a) r bufs')
    (hnodup : (bufs ++ bufs').Nodup) :
  Releases m (prog >>= f) r (bufs ++ bufs')
  := by
  intro s hs
  apply Ends.bind (h s fun b hb => hs b (List.mem_append_left _ hb))
  rintro _ s' ⟨rfl, hs'⟩
  have hagree : ∀ b ∈ bufs', s'.buf b = m b := by
    intro b hb
    rw [hs'.other b fun hmem => (List.disjoint_of_nodup_append hnodup) hmem hb]
    apply hs b (List.mem_append_right _ hb)
  apply (hf s' hagree).mono
  rintro _ s'' ⟨rfl, hs''⟩
  exact ⟨rfl, hs'.trans hs''⟩

/-- A program that returns a value after buffers are freed. -/
theorem bind_return (h : Releases m prog a bufs) :
  Releases m (prog >>= fun _ => Pure.pure r) r bufs
  := by
  intro s hs
  apply Ends.bind (h s hs)
  rintro _ s' ⟨-, hs'⟩
  apply Ends.pure ⟨rfl, hs'⟩

theorem discard (h : Releases m prog a bufs) : Releases m (Functor.discard prog) () bufs := by
  intro s hs
  apply Ends.discard
  apply (h s hs).mono
  rintro _ s' ⟨-, hs'⟩
  exact ⟨rfl, hs'⟩

/-- A program that reads a buffer which it frees later. -/
theorem read_bind (hread : ∀ s : FileSystem σ, s.buf b = m b → prog s = some (a, s))
    (hb : b ∈ bufs) (h : Releases m (f a) r bufs) :
  Releases m (prog >>= f) r bufs
  := fun s hs => Ends.bind_of_eq (hread s (hs b hb)) (h s hs)

theorem perm (h : Releases m prog a bufs) (hperm : bufs.Perm bufs') : Releases m prog a bufs' := by
  intro s hs
  apply (h s fun b hb => hs b (hperm.mem_iff.mp hb)).mono
  rintro _ s' ⟨rfl, hs'⟩
  exact ⟨rfl, hs'.perm hperm⟩

end Releases

/-! ### Data and entries -/

theorem readData_eq {next : Option BufId} (h : s.buf b = .data next) :
  readData b s = some (next, s)
  := by
  rw [readData, h]

/-- The loop over the fragments of a file frees them. -/
theorem Fragments.releases (h : Fragments m p bufs) {fuel : ℕ} (hnodup : bufs.Nodup)
    (hfuel : bufs.length ≤ fuel) :
  Releases (σ := σ) m (releaseData fuel p) () bufs
  := by
  induction h generalizing fuel with
  | nil =>
      cases fuel <;> apply Releases.pure
  | cons hbuf hnext ih =>
      cases fuel with
      | zero => simp at hfuel
      | succ fuel =>
          have hrest := ih hnodup.of_cons (Nat.le_of_succ_le_succ hfuel)
          apply Releases.read_bind _ List.mem_cons_self
          · apply Releases.free.bind hrest hnodup
          · intro s hs
            apply readData_eq (hs.trans hbuf)

/-- The program `deref` gives up the reference to a tree of at most `n` buffers by freeing them. -/
def DerefReleases (m : BufId → Buffer) (deref : BufId → FsM σ Int) (n : ℕ) : Prop :=
  ∀ b bufs, Subtree m b bufs → bufs.Nodup → bufs.length ≤ n → Releases m (deref b) 0 bufs

variable {deref : BufId → FsM σ Int} {n : ℕ}

/-- The loop over the entries of a directory frees them and the trees that they name. -/
theorem Entries.releases (hderef : DerefReleases m deref n) (fuel : ℕ) :
  ∀ p bufs, Entries m p bufs → bufs.Nodup → bufs.length ≤ n → bufs.length ≤ fuel →
    Releases m (releaseDirents deref fuel p) () bufs
  := by
  induction fuel with
  | zero =>
      intro p bufs h _ _ hfuel
      cases h with
      | nil => apply Releases.pure
      | dots => simp at hfuel
      | entry => simp at hfuel
  | succ fuel ih =>
      intro p bufs h hnodup hn hfuel
      cases h with
      | nil => apply Releases.pure
      | @dots b e rest hbuf hname hnext =>
          rw [List.length_cons] at hn hfuel
          have hrest := ih e.next rest hnext hnodup.of_cons (by omega) (by omega)
          apply Releases.read_bind (fun s hs => readDirent_eq (hs.trans hbuf)) List.mem_cons_self
          rw [releaseChild, if_pos hname]
          apply Releases.pure.bind (Releases.free.bind hrest hnodup) hnodup
      | @entry b c e child rest hbuf hname hinode hchild hnext =>
          rw [List.length_cons, List.length_append] at hn hfuel
          have hperm : (child ++ ([b] ++ rest)).Perm (b :: (child ++ rest)) :=
            List.perm_middle
          have hnodup' := hperm.nodup_iff.mpr hnodup
          have hrest := ih e.next rest hnext hnodup.of_cons.of_append_right (by omega) (by omega)
          have hderefs := hderef c child hchild hnodup.of_cons.of_append_left (by omega)
          apply Releases.read_bind (fun s hs => readDirent_eq (hs.trans hbuf)) List.mem_cons_self
          rw [releaseChild, if_neg hname, hinode]
          apply Releases.perm _ hperm
          apply hderefs.discard.bind _ hnodup'
          apply Releases.free.bind hrest hnodup'.of_append_right

/-! ### Inodes -/

/-- The last reference to an inode is given up.  The function that releases the inode finds its
reference count at zero. -/
theorem inodeDerefLoop_releases {fuel : ℕ} (hbuf : m b = .inode i) (hcount : i.count = 1)
    (hnodup : (b :: bufs).Nodup)
    (hrelease : Releases (σ := σ) m
      (InodeOps.release (inodeDerefLoop fuel) { i with count := i.count - 1 }) 0 bufs) :
  Releases (σ := σ) m (inodeDerefLoop (fuel + 1) b) 0 (b :: bufs)
  := by
  intro s hs
  have hle : i.count - 1 ≤ 0 := by omega
  apply Ends.bind_of_eq (readInode_eq ((hs b List.mem_cons_self).trans hbuf))
  apply Ends.bind_of_eq store_eq
  dsimp only
  rw [if_pos hle]
  have hagree : ∀ c ∈ bufs, (s.set b (.inode { i with count := i.count - 1 })).buf c = m c := by
    intro c hc
    rw [FileSystem.set_buf_of_ne]
    · apply hs c (List.mem_cons_of_mem _ hc)
    · rintro rfl
      apply (List.nodup_cons.mp hnodup).1 hc
  apply Ends.bind (hrelease _ hagree)
  rintro _ s' ⟨rfl, hs'⟩
  apply Ends.bind_of_eq kmallocBufFree_eq
  apply Ends.pure ⟨rfl, hs'.set_free⟩

/-- The end of the release of a directory gives up the reference to what is mounted there. -/
theorem Mounted.releases (hderef : DerefReleases m deref n) (h : Mounted m i.mount bufs)
    (hnodup : bufs.Nodup) (hn : bufs.length ≤ n) :
  Releases (α := Int) m
    (if isMounted i.mode then
      match i.ramfsMount with
      | none => return 0
      | some mount => do
          discard (deref mount)
          return 0
    else return 0) 0 bufs
  := by
  rw [Inode.mount] at h
  split_ifs at h ⊢
  · cases hmount : i.ramfsMount with
    | none =>
        rw [hmount] at h
        cases h
        apply Releases.pure
    | some mount =>
        rw [hmount] at h
        cases h with
        | tree htree =>
            apply (hderef mount bufs htree hnodup hn).discard.bind_return
  · cases h
    apply Releases.pure

/-- The release of a directory of the RAM file system. -/
theorem releases_of_dir {entries mount : List BufId} (hderef : DerefReleases m deref n)
    (hop : i.op = .ramfs) (hmode : S_ISDIR i.mode) (hentries : Entries m i.ramfsDir entries)
    (hmount : Mounted m i.mount mount) (hnodup : (entries ++ mount).Nodup)
    (hn : (entries ++ mount).length ≤ n) (hlength : (entries ++ mount).length ≤ CONFIG_NUM_BUFFERS) :
  Releases m (InodeOps.release deref i) 0 (entries ++ mount)
  := by
  rw [List.length_append] at hn hlength
  rw [InodeOps.release, hop]
  dsimp only [ramfsRelease]
  rw [if_pos hmode]
  have hdirents := Entries.releases hderef CONFIG_NUM_BUFFERS i.ramfsDir entries hentries
    hnodup.of_append_left (by omega) (by omega)
  apply hdirents.bind (hmount.releases hderef hnodup.of_append_right (by omega)) hnodup

/-- A mode is that of one type of file. -/
theorem not_isDir_of_isReg_or_isLnk {mode : Word} (h : S_ISREG mode ∨ S_ISLNK mode) :
  ¬ S_ISDIR mode
  := by
  simp only [S_ISREG, S_ISLNK, S_ISDIR, beq_iff_eq] at h ⊢
  rcases h with h | h <;> rw [h] <;> decide

/-- The release of a file or a symbolic link of the RAM file system. -/
theorem releases_of_file {data : List BufId} (hop : i.op = .ramfs)
    (hmode : S_ISREG i.mode ∨ S_ISLNK i.mode) (hdata : Fragments m i.ramfsData data)
    (hnodup : data.Nodup) :
  Releases m (InodeOps.release deref i) 0 data
  := by
  have hlength : data.length ≤ CONFIG_NUM_BUFFERS := by
    simpa using hnodup.length_le_card
  rw [InodeOps.release, hop]
  dsimp only [ramfsRelease]
  rw [if_neg (not_isDir_of_isReg_or_isLnk hmode), if_pos (by simpa using hmode)]
  apply (hdata.releases hnodup hlength).bind_return

/-- A device has no buffers besides its inode. -/
theorem releases_of_device (hop : i.op = .ramfs)
    (hmode : ¬ S_ISDIR i.mode ∧ ¬ S_ISREG i.mode ∧ ¬ S_ISLNK i.mode) :
  Releases m (InodeOps.release deref i) 0 []
  := by
  rw [InodeOps.release, hop]
  dsimp only [ramfsRelease]
  rw [if_neg hmode.1, if_neg (by simpa using hmode.2)]
  apply Releases.pure

/-- The release of an inode of the FAT file system frees the information about the file. -/
theorem releases_of_fat (hop : i.op = .fatfs) :
  Releases m (InodeOps.release deref i) 0 i.fatfsInfo.toList
  := by
  rw [InodeOps.release, hop]
  dsimp only [fatfsRelease]
  cases i.fatfsInfo with
  | none =>
      intro s _
      exact ⟨0, s, rfl, rfl, .refl⟩
  | some j =>
      apply Releases.free.bind_return

/-- Giving up the reference to a tree frees it. -/
theorem derefReleases_inodeDerefLoop (m : BufId → Buffer) (fuel : ℕ)
    (hfuel : fuel ≤ CONFIG_NUM_BUFFERS + 1) :
  DerefReleases (σ := σ) m (inodeDerefLoop fuel) fuel
  := by
  induction fuel with
  | zero =>
      intro b bufs h _ hn
      cases h <;> simp at hn
  | succ fuel ih =>
      have hderef := ih (by omega)
      intro b bufs h hnodup hn
      cases h with
      | dir hbuf hop hcount hmode hentries hmount =>
          apply inodeDerefLoop_releases hbuf hcount hnodup
          rw [List.length_cons] at hn
          apply releases_of_dir hderef hop hmode hentries hmount hnodup.of_cons <;> omega
      | file hbuf hop hcount hmode hdata =>
          apply inodeDerefLoop_releases hbuf hcount hnodup
          apply releases_of_file hop hmode hdata hnodup.of_cons
      | device hbuf hop hcount hmode =>
          apply inodeDerefLoop_releases hbuf hcount hnodup
          apply releases_of_device hop hmode
      | fat hbuf hop hcount hinfo =>
          apply inodeDerefLoop_releases hbuf hcount hnodup
          apply releases_of_fat hop

/-- The function `inode_deref` frees a tree whose inodes have one reference each: it ends, returns
each of the buffers of the tree to the free list once, and changes no other buffer. -/
theorem inodeDeref_releases (s : FileSystem σ) (b : BufId) (bufs : List BufId)
    (htree : Subtree s.buf b bufs) (hnodup : bufs.Nodup) :
  Ends (inodeDeref b) s fun result s' =>
    result = 0 ∧ Released s s' bufs ∧ (FreeListOk s → FreeListOk s')
  := by
  have hlength : bufs.length ≤ CONFIG_NUM_BUFFERS := by
    simpa using hnodup.length_le_card
  have hderef := derefReleases_inodeDerefLoop (σ := σ) s.buf (CONFIG_NUM_BUFFERS + 1) le_rfl
  apply (hderef b bufs htree hnodup (by omega) s fun _ _ => rfl).mono
  rintro result s' ⟨hresult, hs'⟩
  exact ⟨hresult, hs', hs'.freeListOk hnodup htree.ne_raw⟩

/-- Buffers with a directory in which a volume is mounted, with the entries `.`, `log`, `tty` and
`sub` for itself, a file of two fragments, a device, and a directory with a symbolic link. -/
def mountedTree (b : BufId) : Buffer :=
  match b.val with
  | 0 => .inode { op := .ramfs, count := 1, mode := S_IFDIR ||| S_ISVTX, ramfsDir := some 1,
                  ramfsMount := some 12 }
  | 1 => .dirent { name := [chr '.'], inode := some 0, next := some 2 }
  | 2 => .dirent { name := [chr 'l', chr 'o', chr 'g'], inode := some 3, next := some 6 }
  | 3 => .inode { op := .ramfs, count := 1, mode := S_IFREG, ramfsData := some 4 }
  | 4 => .data (some 5)
  | 5 => .data none
  | 6 => .dirent { name := [chr 't', chr 't', chr 'y'], inode := some 7, next := some 8 }
  | 7 => .inode { op := .ramfs, count := 1, mode := S_IFCHR, device := 0x0101 }
  | 8 => .dirent { name := [chr 's', chr 'u', chr 'b'], inode := some 9, next := none }
  | 9 => .inode { op := .ramfs, count := 1, mode := S_IFDIR, ramfsDir := some 10 }
  | 10 => .dirent { name := [chr 'l'], inode := some 11, next := none }
  | 11 => .inode { op := .ramfs, count := 1, mode := S_IFLNK, ramfsData := some 14 }
  | 12 => .inode { op := .fatfs, count := 1, mode := S_IFDIR, fatfsInfo := some 13 }
  | 13 => .info default
  | 14 => .data none
  | _ => .raw

/-- The tree holds fifteen buffers. -/
theorem subtree_mountedTree :
  Subtree mountedTree 0 [0, 1, 2, 3, 4, 5, 6, 7, 8, 9, 10, 11, 14, 12, 13]
  := by
  have hlog : Subtree mountedTree 3 [3, 4, 5] :=
    .file rfl rfl rfl (by decide) (.cons rfl (.cons rfl .nil))
  have htty : Subtree mountedTree 7 [7] := .device rfl rfl rfl (by decide)
  have hlink : Subtree mountedTree 11 [11, 14] :=
    .file rfl rfl rfl (by decide) (.cons rfl .nil)
  have hlinks : Entries mountedTree (some 10) [10, 11, 14] :=
    .entry rfl (by decide) rfl hlink .nil
  have hsub : Subtree mountedTree 9 [9, 10, 11, 14] :=
    @Subtree.dir _ 9 _ [10, 11, 14] [] rfl rfl rfl (by decide) hlinks .nothing
  have hinfo : ∀ j ∈ some (13 : BufId), ∃ x, mountedTree j = .info x := by
    rintro j ⟨⟩
    exact ⟨default, rfl⟩
  have hvolume := @Subtree.fat mountedTree 12 _ rfl rfl rfl hinfo
  have hentries : Entries mountedTree (some 1) [1, 2, 3, 4, 5, 6, 7, 8, 9, 10, 11, 14] :=
    .dots rfl (by decide) (.entry rfl (by decide) rfl hlog (.entry rfl (by decide) rfl htty
      (.entry rfl (by decide) rfl hsub .nil)))
  exact @Subtree.dir mountedTree 0 _ _ [12, 13] rfl rfl rfl (by decide) hentries (.tree hvolume)

/-- The release of a tree with a mounted one. -/
theorem inodeDeref_releases_mountedTree :
  Ends (inodeDeref 0) (⟨mountedTree, [20], 20, ()⟩ : FileSystem Unit) fun result s' =>
    result = 0 ∧ s'.buf 13 = .raw ∧ s'.freeBuffers.length = 16
  := by
  apply (inodeDeref_releases _ 0 _ subtree_mountedTree (by decide)).mono
  rintro result s' ⟨hresult, hs', -⟩
  refine ⟨hresult, hs'.raw 13 (by decide), ?_⟩
  obtain ⟨freed, heq, hperm⟩ := hs'.freeBuffers
  rw [heq, List.length_append, hperm.length_eq]
  rfl

end Mosnix.Fs
