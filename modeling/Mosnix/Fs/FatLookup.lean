import Mosnix.Fat.Directory
import Mosnix.Fs.WellFormed

/-!
# Looking up a name on a card

`fatfs_lookup` on a card without read errors and with free buffers.  It finds the entry with the
name, or that there is none, if the entry or the end marker is among the first 15 entries of the
directory.  Otherwise it fails at the last entry of the first block.
-/

namespace Mosnix.Fs

open Fat Program

variable {σ : Type} {sd : SdDriver σ} {v : Volume} {ready : σ → Prop} {s : FileSystem σ}

/-! ### The inode of an entry -/

/-- The inode `b` carries the first cluster, the size and the type of a directory entry. -/
def Carries (e : DirEntry) (s : FileSystem σ) (b : BufId) : Prop :=
  ∃ i j x, s.buf b = .inode i ∧ i.op = .fatfs ∧ i.fatfsInfo = some j ∧ s.buf j = .info x ∧
    x.firstCluster = e.clusterHigh ++ e.clusterLow ∧ x.size = e.size ∧
    (S_ISDIR i.mode = true ↔ e.attrs &&& FAT_ATTR_DIRECTORY ≠ 0) ∧
    (S_ISREG i.mode = true ↔ e.attrs &&& FAT_ATTR_DIRECTORY = 0)

theorem fatMode_and_S_IFMT (e : DirEntry) :
  fatMode e &&& S_IFMT = if e.attrs &&& FAT_ATTR_DIRECTORY ≠ 0 then S_IFDIR else S_IFREG
  := by
  rw [fatMode]
  split_ifs
  · decide
  · decide
  · decide
  · decide

/-- The mode of a directory of the card. -/
theorem S_ISDIR_fatMode (e : DirEntry) :
  S_ISDIR (fatMode e) = true ↔ e.attrs &&& FAT_ATTR_DIRECTORY ≠ 0
  := by
  rw [S_ISDIR, beq_iff_eq, fatMode_and_S_IFMT]
  split_ifs with hdir
  · exact iff_of_true rfl hdir
  · exact iff_of_false (by decide) hdir

theorem S_ISREG_fatMode (e : DirEntry) :
  S_ISREG (fatMode e) = true ↔ e.attrs &&& FAT_ATTR_DIRECTORY = 0
  := by
  rw [S_ISREG, beq_iff_eq, fatMode_and_S_IFMT]
  split_ifs with hdir
  · exact iff_of_false (by decide) hdir
  · exact iff_of_true rfl (not_not.mp hdir)

/-- `fatfs_create_inode`, with two free buffers. -/
theorem fatfsCreateInode_ends (hfree : 2 ≤ s.freeBuffers.length) (hnodup : s.freeBuffers.Nodup)
    (e : DirEntry) :
  Ends (fatfsCreateInode e) s fun r s' => ∃ b, r = some b ∧ Carries e s' b
  := by
  obtain ⟨b, j, free, hbj⟩ : ∃ b j free, s.freeBuffers = b :: j :: free := by
    match s.freeBuffers, hfree with
    | b :: j :: free, _ => exact ⟨b, j, free, rfl⟩
  have hjb : j ≠ b := by
    rw [hbj] at hnodup
    rintro rfl
    simp at hnodup
  obtain ⟨s₁, halloc, hbuf₁, hfree₁, -, -⟩ := inodeAlloc_cons .fatfs hbj
  obtain ⟨s₂, halloc₂, hbuf₂, -, -, -⟩ := kmallocBufAlloc_cons hfree₁
  have hb₂ : s₂.buf b = .inode { op := .fatfs, count := 1 } := by
    simp [hbuf₂, hbuf₁, Ne.symm hjb]
  apply Ends.bind_of_eq halloc
  apply Ends.bind_of_eq halloc₂
  apply Ends.bind_of_eq (readInode_eq hb₂)
  apply Ends.bind_of_eq store_eq
  apply Ends.bind_of_eq store_eq
  apply Ends.pure
  refine ⟨b, rfl, _, j, fatInfo e, FileSystem.set_buf_self, rfl, rfl, ?_, rfl, rfl,
    S_ISDIR_fatMode e, S_ISREG_fatMode e⟩
  rw [FileSystem.set_buf_of_ne hjb, FileSystem.set_buf_self]

/-! ### The lookup -/

/-- The result of the lookup of a name: the entry is found, or there is none. -/
def LookupComplete (name83 : List Byte) (dir : List DirEntry) (r : Int × Option BufId)
    (s : FileSystem σ) : Prop :=
  (∀ e, findEntry name83 dir = some e → r.1 = 0 ∧ ∃ b, r.2 = some b ∧ Carries e s b) ∧
  (r.1 = -ENOENT ↔ findEntry name83 dir = none)

/-- A call of the driver changes the state of the card only. -/
theorem callSd_eq {α : Type} {f : StateM σ α} {a : α} {t : σ} (h : f s.sd = (a, t)) :
  callSd f s = some (a, { s with sd := t })
  := by
  change some ((f s.sd).1, { s with sd := (f s.sd).2 }) = _
  rw [h]

section Lookup

variable {dir j : BufId} {i : Inode} {x : FatfsInodeInfo} {cs : List Long} {name name83 : List Byte}

/-- `fatfs_lookup` after the search. -/
theorem fatfsLookup_eq_scan (hsd : Serves sd v ready) (ht : ready s.sd)
    (hi : s.buf dir = .inode i) (hdir : S_ISDIR i.mode = true) (hj : i.fatfsInfo = some j)
    (hx : s.buf j = .info x) (hchain : v.Chain (v.dirCluster x.firstCluster) cs)
    (hname : fatFormatName name = some name83) :
  ∃ t, ready t ∧ fatfsLookup sd dir name s =
    (match scan name83 ((v.entries cs).take 15) with
    | .error error => return (error, none)
    | .ok entry => do
        match ← fatfsCreateInode entry with
        | none => return (-ENOMEM, none)
        | some b => return (0, some b) : FsM σ (Int × Option BufId)) { s with sd := t }
  := by
  obtain ⟨t, hfind, ht'⟩ := hsd.findEntry_eq ht hname hchain.valid
  refine ⟨t, ht', ?_⟩
  rw [hchain.take_entries]
  apply (bind_eq (readInode_eq hi)).trans
  rw [if_neg (not_not.mpr hdir), hj]
  apply (bind_eq (readInfo_eq hx)).trans
  apply (bind_eq (callSd_eq hfind)).trans
  rfl

/-- The lookup of a name is complete iff the entry with the name, or the end marker, is among the
first 15 entries of the directory. -/
theorem fatfsLookup_complete_iff (hsd : Serves sd v ready) (ht : ready s.sd)
    (hi : s.buf dir = .inode i) (hdir : S_ISDIR i.mode = true) (hj : i.fatfsInfo = some j)
    (hx : s.buf j = .info x) (hchain : v.Chain (v.dirCluster x.firstCluster) cs)
    (hname : fatFormatName name = some name83) (hfree : 2 ≤ s.freeBuffers.length)
    (hnodup : s.freeBuffers.Nodup) :
  Ends (fatfsLookup sd dir name) s (LookupComplete name83 (v.entries cs)) ↔
    ∃ e ∈ (v.entries cs).take 15, e.IsEnd ∨ e.Matches name83
  := by
  obtain ⟨t, -, heq⟩ := fatfsLookup_eq_scan hsd ht hi hdir hj hx hchain hname
  constructor
  · rintro ⟨r, s', hr, hfound, hnone⟩
    by_contra hnot
    rw [heq, scan_of_not_exists hnot] at hr
    cases hr
    cases hfind : findEntry name83 (v.entries cs) with
    | none =>
        have hresult : -EINVAL = -ENOENT := hnone.mpr hfind
        revert hresult
        decide
    | some e =>
        have hresult : -EINVAL = 0 := (hfound e hfind).1
        revert hresult
        decide
  · intro hexists
    have hscan := scan_of_exists hexists ((v.entries cs).drop 15)
    rw [List.take_append_drop] at hscan
    rw [hscan, searchResult] at heq
    cases hfind : findEntry name83 (v.entries cs) with
    | none =>
        rw [hfind] at heq
        refine ⟨_, _, heq, ?_, iff_of_true rfl hfind⟩
        intro e he
        rw [hfind] at he
        cases he
    | some e =>
        rw [hfind] at heq
        have hcreate : Ends (fatfsCreateInode e) { s with sd := t } _ :=
          fatfsCreateInode_ends (s := { s with sd := t }) hfree hnodup e
        obtain ⟨r, s', hr, b, rfl, hcarries⟩ := hcreate
        have hzero : ¬ (0 : Int) = -ENOENT := by decide
        refine ⟨(0, some b), s', ?_, ?_, iff_of_false hzero (by simp [hfind])⟩
        · rw [heq]
          dsimp only
          rw [bind_eq hr]
          rfl
        · intro e' he'
          rw [hfind] at he'
          cases he'
          exact ⟨rfl, b, rfl, hcarries⟩

end Lookup

/-- The name `FOO`. -/
def foo : List Byte := [chr 'F', chr 'O', chr 'O']

/-- A block of a directory with `n` deleted entries, and then the entry `FOO`. -/
def fooBlock (n : ℕ) : ℕ → Byte := fun i =>
  if i < SIZEOF_FAT_DIR_ENTRY * n then FAT_DIR_DELETED
  else (foo ++ List.replicate 8 (chr ' ')).getD (i - SIZEOF_FAT_DIR_ENTRY * n) 0

/-- A file system with the inode of the root directory of a card. -/
def cardRoot : FileSystem (ℕ → Byte) where
  buf := Function.update (Function.update (fun _ => .raw)
    0 (.inode { op := .fatfs, count := 1, mode := S_IFDIR, fatfsInfo := some 1 }))
    1 (.info { (default : FatfsInodeInfo) with firstCluster := FAT_END_CLUSTER })
  freeBuffers := [2, 3]
  root := 0
  sd := fun _ => 0

/-- The last entry of a block is not found. -/
theorem fatfsLookup_last_entry :
  findEntry (foo ++ List.replicate 8 (chr ' ')) ((oneCluster (fooBlock 15)).entries [2]) =
      some ((oneCluster (fooBlock 15)).entryAt 2 15) ∧
    (fatfsLookup (oneCluster (fooBlock 15)).driver 0 foo cardRoot).map Prod.fst =
      some (-EINVAL, none) ∧
    ¬ Ends (fatfsLookup (oneCluster (fooBlock 15)).driver 0 foo) cardRoot
      (LookupComplete (foo ++ List.replicate 8 (chr ' ')) ((oneCluster (fooBlock 15)).entries [2]))
  := by
  have hfind : findEntry (foo ++ List.replicate 8 (chr ' ')) ((oneCluster (fooBlock 15)).entries [2]) =
      some ((oneCluster (fooBlock 15)).entryAt 2 15) := by decide +kernel
  have hresult : (fatfsLookup (oneCluster (fooBlock 15)).driver 0 foo cardRoot).map Prod.fst =
      some (-EINVAL, none) := by decide +kernel
  refine ⟨hfind, hresult, ?_⟩
  rintro ⟨r, s', hr, hfound, -⟩
  rw [hr] at hresult
  cases hresult
  have := (hfound _ hfind).1
  revert this
  decide

/-- The first entry of a block is found. -/
theorem fatfsLookup_complete_iff_first :
  Ends (fatfsLookup (oneCluster (fooBlock 0)).driver 0 foo) cardRoot
    (LookupComplete (foo ++ List.replicate 8 (chr ' ')) ((oneCluster (fooBlock 0)).entries [2]))
  := by
  have hx : cardRoot.buf 1 =
      .info { (default : FatfsInodeInfo) with firstCluster := FAT_END_CLUSTER } := rfl
  have hchain : (oneCluster (fooBlock 0)).Chain
      ((oneCluster (fooBlock 0)).dirCluster FAT_END_CLUSTER) [2] := by
    rw [Volume.dirCluster, if_pos rfl]
    apply oneCluster_chain
  apply (fatfsLookup_complete_iff (oneCluster (fooBlock 0)).serves_driver trivial rfl rfl rfl hx hchain
    (by decide) (by decide) (by decide)).mpr
  decide +kernel

end Mosnix.Fs
