import Mosnix.Fs.Rest
import Mosnix.Os.FileTable

/-!
# Opening a file

The operations `open` of the two file systems, on a file whose inode was found by a lookup.  They
succeed on the inodes that are `Openable`.  The file then has its operations, and the references of
the file to its inode and to its information are all that was added to the file system.  On other
inodes they fail, and the file has no operations.

A file that was opened gives up what it holds when it is closed.
-/

namespace Mosnix.Os

open Fat Fs Program

variable {σ : Type} {sd : SdDriver σ} {k k' : Kernel σ} {s₀ : FileSystem σ} {f : FileId} {b : BufId}
  {i : Inode} {held infos : List BufId}

/-! ### Programs on the file system -/

theorem onFs_eq {α : Type} {m : FsM σ α} {a : α} {fs : FileSystem σ}
    (h : m k.fs = some (a, fs)) :
  onFs m k = some (a, { k with fs := fs })
  := by
  change (m k.fs).map _ = _
  rw [h]
  rfl

/-- A program on the file system. -/
theorem onFs_ends {α : Type} {m : FsM σ α} {P : α → FileSystem σ → Prop} (h : Ends m k.fs P) :
  Ends (onFs m) k fun a k' => ∃ fs, k' = { k with fs := fs } ∧ P a fs
  := by
  obtain ⟨a, fs, hm, hP⟩ := h
  exact ⟨a, _, onFs_eq hm, fs, rfl, hP⟩

/-- The inode of a reference that is held. -/
theorem onFs_readInode_eq (hi : k.fs.buf b = .inode i) : onFs (readInode b) k = some (i, k) :=
  onFs_eq (readInode_eq hi)

/-! ### The FAT file system -/

/-- The information about an open file can be created, for a file that starts at a cluster. -/
def HasBlock (sd : SdDriver σ) (s : FileSystem σ) (t : σ) (cluster : Long) : Prop :=
  s.freeBuffers ≠ [] ∧ sdClusterToBlock (sd.info t) cluster ≠ 0

/-- The inode `i` of the FAT file system can be opened. -/
def FatOpenable (sd : SdDriver σ) (s : FileSystem σ) (i : Inode) : Prop :=
  ∃ j x, i.fatfsInfo = some j ∧ s.buf j = .info x ∧
    (S_ISDIR i.mode = true ∧ (∃ cluster, (fatfsDirCluster sd x.firstCluster s.sd).1 = some cluster
        ∧ HasBlock sd s (fatfsDirCluster sd x.firstCluster s.sd).2 cluster)
      ∨ S_ISREG i.mode = true ∧ HasBlock sd s s.sd x.firstCluster)

theorem fatfsInfoNew_fst (sdInfo : SdInfo) (x : FatfsInodeInfo) (cluster size : Long) :
  (fatfsInfoNew sdInfo x cluster size).1 = true ↔ sdClusterToBlock sdInfo cluster ≠ 0
  := by
  rw [fatfsInfoNew]
  split_ifs with h
  · simpa using h
  · simpa using h

/-- The file `f` is open: it has its operations, and what it holds is all that was added to the file
system. -/
structure Opened (s₀ : FileSystem σ) (held infos : List BufId) (f : FileId) (k' : Kernel σ) :
    Prop where
  op : ∃ op, (k'.globalFd f).op = some op ∧ ((k'.globalFd f).fatfsInfo ≠ none → op.isFatfs = true)
  fs : Extends s₀ k'.fs ((k'.globalFd f).inode.toList ++ held)
    ((k'.globalFd f).fatfsInfo.toList ++ infos)

/-- What an operation `open` does with the file `f`, depending on whether its inode can be opened. -/
def OpenResult (ok : Prop) (s₀ : FileSystem σ) (held infos : List BufId) (f : FileId) (k : Kernel σ)
    (r : Int) (k' : Kernel σ) : Prop :=
  Touched k f k' ∧ (ok ∧ r = 0 ∧ Opened s₀ held infos f k'
    ∨ ¬ ok ∧ r < 0 ∧ (k'.globalFd f).op = (k.globalFd f).op)

/-- The part of `fatfs_open` that creates the information about the open file. -/
theorem fatfsOpenInfo_ends {cluster size : Long} {op : FileOps}
    (h : Extends s₀ k.fs ((k.globalFd f).inode.toList ++ held) infos) (hs₀ : WellFormed s₀)
    (hop : op.isFatfs = true) :
  Ends (fatfsOpenInfo sd f cluster size op) k
    (OpenResult (HasBlock sd k.fs k.fs.sd cluster) s₀ held infos f k)
  := by
  cases hfree : k.fs.freeBuffers with
  | nil =>
      apply Ends.bind_of_eq (onFs_eq (kmallocBufAlloc_nil hfree))
      apply Ends.pure
      refine ⟨Touched.refl, Or.inr ⟨?_, by decide, rfl⟩⟩
      rintro ⟨hne, -⟩
      contradiction
  | cons j free =>
      have hs := h.wellFormed hs₀
      obtain ⟨s₁, halloc, hbuf₁, hfree₁, hroot₁, hsd₁⟩ := kmallocBufAlloc_cons hfree
      apply Ends.bind_of_eq (onFs_eq halloc)
      apply Ends.bind_of_eq readFile_eq
      apply Ends.bind_of_eq setFile_eq
      apply Ends.bind_of_eq (onFs_eq rfl)
      apply Ends.bind_of_eq (onFs_eq store_eq)
      have hblock : (fatfsInfoNew (sd.info s₁.sd) default cluster size).1 = true
          ↔ HasBlock sd k.fs k.fs.sd cluster := by
        rw [fatfsInfoNew_fst, HasBlock, hfree, hsd₁]
        simp
      have htouched : Touched k f (k.setFile f { k.globalFd f with fatfsInfo := some j }) :=
        Touched.refl.setFile _ rfl
      dsimp only
      split_ifs with hnew
      · apply Ends.bind_of_eq setFile_eq
        apply Ends.pure
        refine ⟨?_, Or.inl ⟨hblock.mp hnew, rfl, ?_⟩⟩
        · apply (htouched.setFs _).setFile
          simp [Kernel.setFile]
        · have hbuf (x : FatfsInodeInfo) :
              (s₁.set j (.info x)).buf = Function.update k.fs.buf j (.info x) := by
            rw [FileSystem.set, hbuf₁, Function.update_idem]
          have hinfo := hs.addInfo hfree (hbuf (fatfsInfoNew (sd.info s₁.sd) default cluster size).2)
            hfree₁ hroot₁
          refine ⟨⟨op, ?_, fun _ => hop⟩, ?_⟩
          · simp [Kernel.setFile]
          · simpa [Kernel.setFile] using h.trans hinfo
      · apply Ends.bind_of_eq (onFs_eq kmallocBufFree_eq)
        apply Ends.pure
        refine ⟨htouched.setFs _, Or.inr ⟨fun hb => hnew (hblock.mpr hb), by decide, ?_⟩⟩
        simp [Kernel.setFile]

theorem not_S_ISREG_of_S_ISDIR {mode : Word} (h : S_ISDIR mode = true) : S_ISREG mode ≠ true := by
  rw [S_ISDIR, beq_iff_eq] at h
  rw [S_ISREG, h]
  decide

/-- `fatfs_open` -/
theorem fatfsOpen_ends (h : Extends s₀ k.fs (b :: held) infos) (hs₀ : WellFormed s₀)
    (hi : k.fs.buf b = .inode i) (hop : i.op = .fatfs) (hinode : (k.globalFd f).inode = some b)
    (hmode : (k.globalFd f).mode = i.mode) :
  Ends (fatfsOpen sd f) k (OpenResult (FatOpenable sd k.fs i) s₀ held infos f k)
  := by
  obtain ⟨j, x, hj, hx⟩ := ((h.wellFormed hs₀).inodeOk b i hi).info hop
  have hinfo : onFs (readInfo i.fatfsInfo) k = some (x, k) := by
    rw [hj]
    apply onFs_eq (readInfo_eq hx)
  have hopenable : FatOpenable sd k.fs i ↔ (S_ISDIR i.mode = true ∧
        (∃ cluster, (fatfsDirCluster sd x.firstCluster k.fs.sd).1 = some cluster
          ∧ HasBlock sd k.fs (fatfsDirCluster sd x.firstCluster k.fs.sd).2 cluster)
      ∨ S_ISREG i.mode = true ∧ HasBlock sd k.fs k.fs.sd x.firstCluster) := by
    simp [FatOpenable, hj, hx]
  have hheld : Extends s₀ k.fs ((k.globalFd f).inode.toList ++ held) infos := by
    rw [hinode]
    apply h
  apply Ends.bind_of_eq readFile_eq
  rw [hinode]
  apply Ends.bind_of_eq (onFs_readInode_eq hi)
  rw [hmode]
  split_ifs with hdir hreg
  · apply Ends.bind_of_eq hinfo
    apply Ends.bind_of_eq (onFs_eq rfl)
    cases hcluster : (fatfsDirCluster sd x.firstCluster k.fs.sd).1 with
    | none =>
        apply Ends.pure
        refine ⟨Touched.refl.setFs _, Or.inr ⟨?_, by decide, rfl⟩⟩
        rw [hopenable]
        simp [hcluster, not_S_ISREG_of_S_ISDIR hdir]
    | some cluster =>
        have hends : Ends (fatfsOpenInfo sd f cluster 0 .fatfsDir) { k with fs := { k.fs with
            sd := (fatfsDirCluster sd x.firstCluster k.fs.sd).2 } } _ :=
          fatfsOpenInfo_ends (hheld.callSd _) hs₀ rfl
        apply hends.mono
        rintro r k' ⟨ht, hr⟩
        refine ⟨⟨ht.count_eq, ht.file_eq, ht.processTable_eq, ht.current_eq, ht.tempPath_eq,
          ht.events_eq⟩, ?_⟩
        rw [hopenable]
        simpa [hcluster, hdir, not_S_ISREG_of_S_ISDIR hdir, HasBlock] using hr
  · apply Ends.bind_of_eq hinfo
    have hends : Ends (fatfsOpenInfo sd f x.firstCluster (default : FatfsInodeInfo).size .fatfsFile) k
        _ :=
      fatfsOpenInfo_ends hheld hs₀ rfl
    apply hends.mono
    intro r k' hr
    rw [OpenResult, hopenable]
    simpa [hdir, hreg, OpenResult] using hr
  · apply Ends.pure
    refine ⟨Touched.refl, Or.inr ⟨?_, by decide, rfl⟩⟩
    rw [hopenable]
    simp [hdir, hreg]

/-! ### The RAM file system -/

/-- The inode `b` can be opened: it is a directory that is not a mount point, a mount point of a
directory of the FAT file system that can be opened, a character device with a known number, or an
inode of the FAT file system that can be opened. -/
def Openable (sd : SdDriver σ) (s : FileSystem σ) (b : BufId) : Prop :=
  ∃ i, s.buf b = .inode i ∧
    match i.op with
    | .fatfs => FatOpenable sd s i
    | .ramfs =>
        S_ISDIR i.mode = true ∧ (isMounted i.mode = true →
          ∃ m mi, i.ramfsMount = some m ∧ s.buf m = .inode mi ∧ FatOpenable sd s mi)
        ∨ S_ISCHR i.mode = true ∧ i.device ∈ charDevices.map Prod.fst

/-- What opening a file of the card depends on. -/
theorem FatOpenable.congr {s s' : FileSystem σ} {i' : Inode} (h : FatOpenable sd s i)
    (hinfo : i'.fatfsInfo = i.fatfsInfo) (hmode : i'.mode = i.mode)
    (hbuf : ∀ j x, s.buf j = .info x → s'.buf j = .info x) (hfree : s'.freeBuffers = s.freeBuffers)
    (hsd : s'.sd = s.sd) :
  FatOpenable sd s' i'
  := by
  obtain ⟨j, x, hj, hx, hopen⟩ := h
  refine ⟨j, x, hinfo.trans hj, hbuf j x hx, ?_⟩
  rw [hmode, hsd]
  simp only [HasBlock, hfree]
  apply hopen

/-- A store to an inode, of other members than those that `fatfs_open` reads. -/
theorem fatOpenable_set_iff {s : FileSystem σ} {c : BufId} {ci x mi mi' : Inode}
    (hc : s.buf c = .inode ci) (hinfo : mi'.fatfsInfo = mi.fatfsInfo) (hmode : mi'.mode = mi.mode) :
  FatOpenable sd (s.set c (.inode x)) mi' ↔ FatOpenable sd s mi
  := by
  have hbuf {j : BufId} {y : FatfsInodeInfo} :
      (s.set c (.inode x)).buf j = .info y ↔ s.buf j = .info y := by
    by_cases hjc : j = c
    · simp [hjc, hc]
    · rw [FileSystem.set_buf_of_ne hjc]
  constructor
  · intro h
    exact h.congr hinfo.symm hmode.symm (fun _ _ => hbuf.mp) rfl rfl
  · intro h
    exact h.congr hinfo hmode (fun _ _ => hbuf.mpr) rfl rfl

/-- The part of `ramfs_open` for a mount point. -/
theorem ramfsOpenMount_ends {m : BufId} {mi : Inode} (h : Extends s₀ k.fs (b :: held) infos)
    (hs₀ : WellFormed s₀) (hi : k.fs.buf b = .inode i) (hop : i.op = .ramfs)
    (hm : i.ramfsMount = some m) (hmi : k.fs.buf m = .inode mi) (hmop : mi.op = .fatfs)
    (hinode : (k.globalFd f).inode = some b) :
  Ends (ramfsOpenMount sd f b) k (OpenResult (FatOpenable sd k.fs mi) s₀ held infos f k)
  := by
  have hmb : m ≠ b := by
    rintro rfl
    rw [hi] at hmi
    cases hmi
    rw [hop] at hmop
    cases hmop
  obtain ⟨i₀, hi₀, hcount⟩ := h.ramfs_inode hi hop
  have hlt : 1 < i.count := by
    have hpos := (hs₀.inodeOk b i₀ hi₀).count_pos
    rw [hcount, List.count_cons_self]
    push_cast
    omega
  have hi₁ : (k.fs.set m (.inode { mi with count := mi.count + 1 })).buf b = .inode i := by
    rw [FileSystem.set_buf_of_ne (Ne.symm hmb), hi]
  obtain ⟨fs, hfs, hext, hbuf, hopenable⟩ : ∃ fs,
      inodeDeref b (k.fs.set m (.inode { mi with count := mi.count + 1 })) = some (0, fs)
        ∧ Extends s₀ fs (m :: held) infos ∧ fs.buf m = .inode { mi with count := mi.count + 1 }
        ∧ (FatOpenable sd fs { mi with count := mi.count + 1 } ↔ FatOpenable sd k.fs mi) := by
    refine ⟨_, inodeDeref_of_lt hi₁ hlt, ?_, ?_, ?_⟩
    · have href := h.trans ((h.wellFormed hs₀).ref hmi)
      apply (href.perm (List.Perm.swap b m held)).deref_keep hi₁
      intro hraw
      simp [hi₀] at hraw
    · rw [FileSystem.set_buf_of_ne hmb, FileSystem.set_buf_self]
    · rw [fatOpenable_set_iff hi₁ rfl rfl, fatOpenable_set_iff hmi rfl rfl]
      rfl
  have hends (k₂ : Kernel σ) (hk : k₂.fs = fs)
      (hfile : k₂.globalFd f = { k.globalFd f with inode := some m, mode := mi.mode }) :
      Ends (fatfsOpen sd f) k₂ (OpenResult (FatOpenable sd k.fs mi) s₀ held infos f k₂) := by
    rw [← hopenable, ← hk]
    rw [← hk] at hext hbuf
    apply fatfsOpen_ends hext hs₀ hbuf hmop
    · rw [hfile]
    · rw [hfile]
  apply Ends.bind_of_eq readFile_eq
  apply Ends.bind_of_eq (onFs_readInode_eq hi)
  rw [hm]
  apply Ends.bind_of_eq (onFs_eq (inodeRef_eq hmi))
  apply Ends.bind_discard_of_eq (onFs_eq hfs)
  apply Ends.bind_of_eq (onFs_readInode_eq hbuf)
  apply Ends.bind_of_eq setFile_eq
  rw [hmop]
  apply (hends _ rfl (by simp [Kernel.setFile])).mono
  rintro r k' ⟨ht, hr⟩
  have htouched : Touched k f (Kernel.setFile { k with fs := fs } f
      { k.globalFd f with inode := some m, mode := mi.mode }) :=
    (Touched.refl.setFs fs).setFile _ rfl
  refine ⟨htouched.trans ht, ?_⟩
  simpa [Kernel.setFile] using hr

/-- `char_device_open` -/
theorem charDeviceOpen_ends {dev : Word} :
  Ends (charDeviceOpen dev f) k fun r k' =>
    (∃ op, op.isFatfs = false ∧ dev ∈ charDevices.map Prod.fst ∧ r = 0
      ∧ k' = k.setFile f { k.globalFd f with op := some op })
    ∨ dev ∉ charDevices.map Prod.fst ∧ r < 0 ∧ k' = k
  := by
  have hfat : ∀ d ∈ charDevices, d.2.isFatfs = false := by decide
  unfold charDeviceOpen deviceOpen
  split
  · rename_i hnone
    apply Ends.pure
    right
    refine ⟨?_, by decide, rfl⟩
    intro hmem
    obtain ⟨d, hd, rfl⟩ := List.mem_map.mp hmem
    simpa using List.find?_eq_none.mp hnone d hd
  · rename_i d hd
    have hmem := List.mem_of_find?_eq_some hd
    have hdev : d.1 = dev := by simpa using List.find?_some hd
    apply Ends.bind_of_eq readFile_eq
    apply Ends.bind_of_eq setFile_eq
    apply Ends.pure
    left
    exact ⟨d.2, hfat d hmem, List.mem_map.mpr ⟨d, hmem, hdev⟩, rfl, rfl⟩

/-- The part of `ramfs_open` for a character device. -/
theorem ramfsOpenDevice_ends (h : Extends s₀ k.fs (b :: held) infos) (hs₀ : WellFormed s₀)
    (hi : k.fs.buf b = .inode i) (hinfo : (k.globalFd f).fatfsInfo = none) :
  Ends (ramfsOpenDevice f b) k
    (OpenResult (i.device ∈ charDevices.map Prod.fst) s₀ held infos f k)
  := by
  have htouched : Touched k f (k.setFile f { k.globalFd f with inode := none }) :=
    Touched.refl.setFile _ rfl
  apply Ends.bind_of_eq readFile_eq
  apply Ends.bind_of_eq setFile_eq
  refine Ends.bind_of_eq (onFs_readInode_eq hi) ?_
  apply Ends.bind charDeviceOpen_ends
  rintro r k₁ (⟨op, hop, hdev, rfl, rfl⟩ | ⟨hdev, hr, rfl⟩)
  · refine Ends.bind_discard (onFs_ends (h.inodeDeref_ends hs₀)) ?_
    rintro _ _ ⟨fs, rfl, hfs⟩
    apply Ends.pure
    refine ⟨?_, Or.inl ⟨hdev, rfl, ?_, ?_⟩⟩
    · apply (htouched.setFile _ _).setFs
      rfl
    · refine ⟨op, by simp [Kernel.setFile], ?_⟩
      simp [Kernel.setFile, hinfo]
    · simpa [Kernel.setFile, hinfo] using hfs
  · refine Ends.bind_discard (onFs_ends (h.inodeDeref_ends hs₀)) ?_
    rintro _ _ ⟨fs, rfl, hfs⟩
    apply Ends.pure
    refine ⟨htouched.setFs fs, Or.inr ⟨hdev, hr, ?_⟩⟩
    simp [Kernel.setFile]

theorem not_S_ISCHR_of_S_ISDIR {mode : Word} (h : S_ISDIR mode = true) : S_ISCHR mode ≠ true := by
  rw [S_ISDIR, beq_iff_eq] at h
  rw [S_ISCHR, h]
  decide

/-- The operation `open` of the inode `b`, on a file that was just created.  A regular file of the
RAM file system would be opened without operations, but there are none. -/
theorem openInode_ends (h : Extends s₀ k.fs (b :: held) infos) (hs₀ : WellFormed s₀)
    (hi : k.fs.buf b = .inode i) (hreg : i.op = .ramfs → S_ISREG i.mode = false)
    (hmount : i.op = .ramfs → S_ISDIR i.mode = true → isMounted i.mode = true →
      i.ramfsMount ≠ none)
    (hinode : (k.globalFd f).inode = some b) (hmode : (k.globalFd f).mode = i.mode)
    (hinfo : (k.globalFd f).fatfsInfo = none) :
  Ends (openInode sd i.op f) k (OpenResult (Openable sd k.fs b) s₀ held infos f k)
  := by
  cases hop : i.op with
  | fatfs =>
      have hopenable : Openable sd k.fs b ↔ FatOpenable sd k.fs i := by simp [Openable, hi, hop]
      rw [hopenable]
      apply fatfsOpen_ends h hs₀ hi hop hinode hmode
  | ramfs =>
      have hopenable : Openable sd k.fs b ↔ (S_ISDIR i.mode = true ∧ (isMounted i.mode = true →
            ∃ m mi, i.ramfsMount = some m ∧ k.fs.buf m = .inode mi ∧ FatOpenable sd k.fs mi)
          ∨ S_ISCHR i.mode = true ∧ i.device ∈ charDevices.map Prod.fst) := by
        simp [Openable, hi, hop]
      rw [hopenable]
      apply Ends.bind_of_eq readFile_eq
      rw [hinode, hmode]
      dsimp only
      rw [if_neg (show ¬ S_ISREG i.mode = true by simp [hreg hop])]
      split_ifs with hdir hmounted hchr
      · obtain ⟨m, hm⟩ := Option.ne_none_iff_exists'.mp (hmount hop hdir hmounted)
        obtain ⟨mi, hmi, hmop⟩ := ((h.wellFormed hs₀).inodeOk b i hi).mount hop hdir m hm
        apply (ramfsOpenMount_ends h hs₀ hi hop hm hmi hmop hinode).mono
        rintro r k' ⟨ht, hr⟩
        refine ⟨ht, ?_⟩
        simpa [hdir, hmounted, hm, hmi, not_S_ISCHR_of_S_ISDIR hdir] using hr
      · apply Ends.bind_of_eq setFile_eq
        apply Ends.pure
        refine ⟨Touched.refl.setFile _ rfl, Or.inl ⟨?_, rfl, ?_, ?_⟩⟩
        · left
          exact ⟨hdir, fun hm => absurd hm hmounted⟩
        · refine ⟨.ramfsDir, by simp [Kernel.setFile], ?_⟩
          simp [Kernel.setFile, hinfo]
        · simpa [Kernel.setFile, hinfo, hinode] using h
      · apply (ramfsOpenDevice_ends h hs₀ hi hinfo).mono
        rintro r k' ⟨ht, hr⟩
        refine ⟨ht, ?_⟩
        simpa [hdir, hchr] using hr
      · apply Ends.pure
        refine ⟨Touched.refl, Or.inr ⟨?_, by decide, rfl⟩⟩
        simp [hdir, hchr]

/-! ### Closing a file -/

section Close

variable {file : File}

/-- `file_close_default` gives up the reference of the file to its inode. -/
theorem fileCloseDefault_ends (hfile : k.globalFd f = file)
    (h : Extends s₀ k.fs (file.inode.toList ++ held) infos) (hs₀ : WellFormed s₀) :
  Ends (fileCloseDefault f) k fun _ k' => ∃ fs, k' = { k with fs := fs } ∧ Extends s₀ fs held infos
  := by
  apply Ends.bind_of_eq readFile_eq
  rw [hfile]
  cases hinode : file.inode with
  | none =>
      rw [hinode] at h
      apply Ends.pure
      exact ⟨k.fs, rfl, h⟩
  | some b =>
      rw [hinode] at h
      apply Ends.bind_discard (onFs_ends (h.inodeDeref_ends hs₀))
      rintro _ _ ⟨fs, rfl, hfs⟩
      apply Ends.pure
      exact ⟨fs, rfl, hfs⟩

/-- `fatfs_close` gives up the information about the file and the reference to its inode. -/
theorem fatfsClose_ends (hfile : k.globalFd f = file)
    (h : Extends s₀ k.fs (file.inode.toList ++ held) (file.fatfsInfo.toList ++ infos))
    (hs₀ : WellFormed s₀) :
  Ends (fatfsClose f) k fun _ k' => ∃ fs, k' = { k with fs := fs } ∧ Extends s₀ fs held infos
  := by
  apply Ends.bind_of_eq readFile_eq
  rw [hfile]
  cases hinfo : file.fatfsInfo with
  | none =>
      rw [hinfo] at h
      apply Ends.bind_of_eq (onFs_eq rfl)
      exact fileCloseDefault_ends hfile h hs₀
  | some j =>
      rw [hinfo] at h
      apply Ends.bind_of_eq (onFs_eq kmallocBufFree_eq)
      exact fileCloseDefault_ends hfile h.freeInfo hs₀

/-- The operation `close` gives up what the file holds. -/
theorem close_ends {op : FileOps} (hfile : k.globalFd f = file)
    (hop : file.fatfsInfo ≠ none → op.isFatfs = true)
    (h : Extends s₀ k.fs (file.inode.toList ++ held) (file.fatfsInfo.toList ++ infos))
    (hs₀ : WellFormed s₀) :
  Ends (op.close f) k fun _ k' =>
    ∃ fs, k' = { k with fs := fs, events := .closed f :: k.events } ∧ Extends s₀ fs held infos
  := by
  apply Ends.bind_of_eq record_eq
  split_ifs with hfat
  · exact fatfsClose_ends hfile h hs₀
  · have hnone : file.fatfsInfo = none := by
      by_contra hne
      apply hfat (hop hne)
    rw [hnone] at h
    exact fileCloseDefault_ends hfile h hs₀

end Close

/-! ### `file_open` after the lookup -/

/-- At most the file system, the file `f` and the record of the calls are changed from `k` to
`k'`. -/
structure OnlyFile (k : Kernel σ) (f : FileId) (k' : Kernel σ) : Prop where
  file_eq : ∀ g, g ≠ f → k'.globalFd g = k.globalFd g
  processTable_eq : k'.processTable = k.processTable
  current_eq : k'.current = k.current
  tempPath_eq : k'.tempPath = k.tempPath

theorem Touched.onlyFile (h : Touched k f k') : OnlyFile k f k' :=
  ⟨h.file_eq, h.processTable_eq, h.current_eq, h.tempPath_eq⟩

theorem OnlyFile.trans {k'' : Kernel σ} (h : OnlyFile k f k') (h' : OnlyFile k' f k'') :
  OnlyFile k f k''
  := by
  refine ⟨?_, h'.processTable_eq.trans h.processTable_eq, h'.current_eq.trans h.current_eq,
    h'.tempPath_eq.trans h.tempPath_eq⟩
  intro g hg
  rw [h'.file_eq g hg, h.file_eq g hg]

/-- The file that is given up is the only one that is changed. -/
theorem derefFile_onlyFile (fs : FileSystem σ) : OnlyFile k f (k.derefFile f fs) := by
  refine ⟨?_, rfl, rfl, rfl⟩
  intro g hg
  simp [Kernel.derefFile, Kernel.setFile, hg]

theorem derefFile_globalFd (fs : FileSystem σ) :
  (k.derefFile f fs).globalFd f = { k.globalFd f with count := (k.globalFd f).count - 1 }
  := by
  simp [Kernel.derefFile, Kernel.setFile]

/-- The last reference to an open file is given up. -/
theorem fileDeref_last (hcount : (k.globalFd f).count = 1) (h : Opened s₀ held infos f k)
    (hs₀ : WellFormed s₀) :
  Ends (fileDeref f) k fun _ k' => ∃ fs, k' = k.derefFile f fs ∧ Extends s₀ fs held infos
  := by
  obtain ⟨op, hop, hfat⟩ := h.op
  have hfile : (k.setFile f { k.globalFd f with count := (k.globalFd f).count - 1 }).globalFd f
      = { k.globalFd f with count := (k.globalFd f).count - 1 } := by
    simp [Kernel.setFile]
  have hlast : (k.globalFd f).count - 1 ≤ 0 := by omega
  apply Ends.bind_of_eq readFile_eq
  apply Ends.bind_of_eq setFile_eq
  rw [if_pos hlast]
  split
  · rename_i hnone
    rw [hop] at hnone
    cases hnone
  · rename_i op' hop'
    obtain rfl : op = op' := Option.some.inj (hop.symm.trans hop')
    apply (close_ends hfile hfat h.fs hs₀).mono
    rintro _ _ ⟨fs, rfl, hfs⟩
    refine ⟨fs, ?_, hfs⟩
    rw [Kernel.derefFile, if_pos hlast]
    rfl

/-- A file without operations cannot be given up. -/
theorem fileDeref_fault (hcount : (k.globalFd f).count = 1) (hop : (k.globalFd f).op = none) :
  fileDeref f k = none
  := by
  have hlast : (k.globalFd f).count - 1 ≤ 0 := by omega
  apply (bind_eq readFile_eq).trans
  apply (bind_eq setFile_eq).trans
  rw [if_pos hlast, hop]
  rfl

/-- The file that `file_open` creates for the inode `b`. -/
def Kernel.createFile (k : Kernel σ) (f : FileId) (flags mode : Word) (b : BufId) : Kernel σ :=
  (k.newFile f flags mode).setFile f ⟨1, flags, mode, none, some b, none, 0⟩

section FileOpenInode

variable {flags : Word}

theorem createFile_globalFd : (k.createFile f flags i.mode b).globalFd f
    = ⟨1, flags, i.mode, none, some b, none, 0⟩ := by
  simp [Kernel.createFile, Kernel.setFile]

theorem newFile_setFile_eq {mode : Word} :
  (k.newFile f flags mode).setFile f { (k.newFile f flags mode).globalFd f with inode := some b }
    = k.createFile f flags mode b
  := by
  simp [Kernel.createFile, Kernel.setFile, Kernel.newFile]

/-- The new file is the only one that is changed. -/
theorem createFile_onlyFile : OnlyFile k f (k.createFile f flags i.mode b) := by
  refine ⟨?_, rfl, rfl, rfl⟩
  intro g hg
  simp [Kernel.createFile, Kernel.setFile, Kernel.newFile, hg]

/-- The open fails, and leaves everything but the file system and the record of the calls as it
was, up to the contents of the files that are not open. -/
structure OpenFailed (k k' : Kernel σ) : Prop where
  count_eq : ∀ f, (k'.globalFd f).count = (k.globalFd f).count
  file_eq : ∀ f, (k.globalFd f).count ≠ 0 → k'.globalFd f = k.globalFd f
  processTable_eq : k'.processTable = k.processTable
  current_eq : k'.current = k.current
  tempPath_eq : k'.tempPath = k.tempPath

/-- A file that is given up again leaves nothing open. -/
theorem OnlyFile.openFailed (h : OnlyFile k f k') (hzero : (k.globalFd f).count = 0)
    (hzero' : (k'.globalFd f).count = 0) :
  OpenFailed k k'
  := by
  refine ⟨?_, ?_, h.processTable_eq, h.current_eq, h.tempPath_eq⟩
  · intro g
    by_cases hg : g = f
    · rw [hg, hzero, hzero']
    · rw [h.file_eq g hg]
  · intro g hg
    apply h.file_eq
    rintro rfl
    contradiction

/-- The file `f` is opened, and stored in the descriptor `n` of the process `p`. -/
structure FileStored (k : Kernel σ) (p : Proc) (f : FileId) (n : Fd) (k' : Kernel σ) : Prop where
  was_free : (k.globalFd f).count = 0
  fd_free : p.fd n = none
  count_eq : (k'.globalFd f).count = 1
  file_eq : ∀ g, g ≠ f → k'.globalFd g = k.globalFd g
  processTable_eq : k'.processTable = Function.update k.processTable k.current
    (some { p with fd := Function.update p.fd n (some f) })
  current_eq : k'.current = k.current
  tempPath_eq : k'.tempPath = k.tempPath

/-- What `file_open` does after the lookup, in the process `p`: it fails, or the file is opened. -/
def FileOpened (s₀ : FileSystem σ) (held infos : List BufId) (k : Kernel σ) (p : Proc) (r : Int)
    (k' : Kernel σ) : Prop :=
  r < 0 ∧ OpenFailed k k' ∧ Extends s₀ k'.fs held infos
    ∨ ∃ f n, r = (n : Fd) ∧ FileStored k p f n k' ∧ Opened s₀ held infos f k'

section Created

variable {p : Proc} (h : Extends s₀ k.fs (b :: held) infos) (hs₀ : WellFormed s₀)
  (hi : k.fs.buf b = .inode i) (hreg : i.op = .ramfs → S_ISREG i.mode = false)
  (hmount : i.op = .ramfs → S_ISDIR i.mode = true → isMounted i.mode = true → i.ramfsMount ≠ none)

include h hs₀ hi hreg hmount

/-- The operation `open` on the file that `file_open` creates. -/
theorem createFile_ends :
  Ends (openInode sd i.op f) (k.createFile f flags i.mode b)
    (OpenResult (Openable sd k.fs b) s₀ held infos f (k.createFile f flags i.mode b))
  := by
  have h' : Extends s₀ (k.createFile f flags i.mode b).fs (b :: held) infos := h
  apply openInode_ends h' hs₀ hi hreg hmount
  · rw [createFile_globalFd]
  · rw [createFile_globalFd]
  · rw [createFile_globalFd]

/-- The file of an inode that cannot be opened has no operations when it is given up. -/
theorem fileOpenInode_fault (hfree : ∃ f, (k.globalFd f).count = 0)
    (hopenable : ¬ Openable sd k.fs b) :
  fileOpenInode sd b flags k = none
  := by
  obtain ⟨f₀, hf₀⟩ := hfree
  apply Ends.bind_fault_of_eq (onFs_readInode_eq hi)
  apply fileNew_ends.bind_fault
  rintro _ k₁ (⟨rfl, rfl, hfull⟩ | ⟨f, rfl, hzero, rfl⟩)
  · cases hfull f₀ hf₀
  · apply Ends.bind_fault_of_eq readFile_eq
    apply Ends.bind_fault_of_eq setFile_eq
    rw [newFile_setFile_eq]
    apply (createFile_ends h hs₀ hi hreg hmount).bind_fault
    rintro error k₂ ⟨ht, ⟨hyes, -⟩ | ⟨-, herror, hop⟩⟩
    · contradiction
    · have hcount := ht.count_eq
      rw [createFile_globalFd] at hcount hop
      rw [if_pos herror]
      apply bind_discard_fault (fileDeref_fault hcount hop)

variable (hp : k.processTable k.current = some p)

include hp

/-- An inode that can be opened is opened, if there are a free entry in `global_fd` and a free
descriptor. -/
theorem fileOpenInode_ends
    (hopenable : (∃ f, (k.globalFd f).count = 0) → Openable sd k.fs b) :
  Ends (fileOpenInode sd b flags) k (FileOpened s₀ held infos k p)
  := by
  apply Ends.bind_of_eq (onFs_readInode_eq hi)
  apply Ends.bind fileNew_ends
  rintro _ k₁ (⟨rfl, rfl, hfull⟩ | ⟨f, rfl, hzero, rfl⟩)
  · apply Ends.bind_discard (onFs_ends (h.inodeDeref_ends hs₀))
    rintro _ _ ⟨fs, rfl, hfs⟩
    apply Ends.pure
    left
    exact ⟨by decide, ⟨fun _ => rfl, fun _ _ => rfl, rfl, rfl, rfl⟩, hfs⟩
  · apply Ends.bind_of_eq readFile_eq
    apply Ends.bind_of_eq setFile_eq
    rw [newFile_setFile_eq]
    apply (createFile_ends h hs₀ hi hreg hmount).bind
    rintro error k₂ ⟨ht, ⟨-, rfl, hopened⟩ | ⟨hno, -⟩⟩
    · have hcount := ht.count_eq
      rw [createFile_globalFd] at hcount
      have hp₂ : k₂.processTable k₂.current = some p := by
        rw [ht.processTable_eq, ht.current_eq]
        apply hp
      rw [if_neg (by decide)]
      apply Ends.bind (filePut_ends hp₂)
      rintro r k₃ (⟨hr, rfl⟩ | ⟨n, rfl, hn, rfl⟩)
      · rw [if_pos hr]
        apply Ends.bind_discard (fileDeref_last hcount hopened hs₀)
        rintro _ _ ⟨fs, rfl, hext⟩
        apply Ends.pure
        left
        refine ⟨hr, ?_, hext⟩
        apply ((createFile_onlyFile.trans ht.onlyFile).trans (derefFile_onlyFile fs)).openFailed hzero
        rw [derefFile_globalFd, hcount]
        rfl
      · rw [if_neg (by omega)]
        apply Ends.pure
        right
        refine ⟨f, n, rfl, ⟨hzero, fd_of_firstFree hn, hcount, ?_, ?_, ht.current_eq, ht.tempPath_eq⟩, hopened.op,
          hopened.fs⟩
        · intro g hg
          exact (ht.file_eq g hg).trans (createFile_onlyFile.file_eq g hg)
        · change Function.update k₂.processTable k₂.current _ = _
          rw [ht.processTable_eq, ht.current_eq]
          rfl
    · cases hno (hopenable ⟨f, hzero⟩)

/-- `file_open` after the lookup faults, or does what it should. -/
theorem fileOpenInode_ensures :
  Ensures (fileOpenInode sd b flags) k (FileOpened s₀ held infos k p)
  := by
  by_cases hopenable : (∃ f, (k.globalFd f).count = 0) → Openable sd k.fs b
  · right
    apply fileOpenInode_ends h hs₀ hi hreg hmount hp hopenable
  · left
    rw [Classical.not_imp] at hopenable
    apply fileOpenInode_fault h hs₀ hi hreg hmount hopenable.1 hopenable.2

end Created

end FileOpenInode

end Mosnix.Os
