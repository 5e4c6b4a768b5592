import Mosnix.Fat.File
import Mosnix.Fs.FatLookup
import Mosnix.Os.Open

/-!
# The contents of files on a card

A regular file of the FAT file system, from its directory entry to the bytes that are read from it.
`fatfs_open` takes the size of the file from the information that it has just allocated, so that the
file is opened with the size 0, and nothing is read from it.
-/

namespace Mosnix.Os

open Fat Fs Program

variable {σ : Type} {sd : SdDriver σ} {v : Volume} {ready : σ → Prop} {k : Kernel σ} {f : FileId}

/-- The first cluster of the file of a directory entry. -/
def firstCluster (e : DirEntry) : Long := e.clusterHigh ++ e.clusterLow

/-- The file of a directory entry has the bytes `contents`: as many as the size says, from the start
of its chain of clusters. -/
def HasContents (v : Volume) (e : DirEntry) (contents : List Byte) : Prop :=
  contents.length = e.size.toNat ∧
  (contents ≠ [] → ∃ cs, v.Chain (firstCluster e) cs ∧ contents <+: v.bytes cs)

/-- The position of an open file, and its information. -/
def Kernel.fatFile (k : Kernel σ) (f : FileId) : Option FatFile :=
  match (k.globalFd f).fatfsInfo with
  | none => none
  | some j =>
      match k.fs.buf j with
      | .info x => some { info := x, posn := (k.globalFd f).posn }
      | _ => none

/-- The file of the card after it is opened. -/
theorem fatFile_setFile {file : File} {j : BufId} {x : FatfsInodeInfo}
    (hj : file.fatfsInfo = some j) (hx : k.fs.buf j = .info x) :
  (k.setFile f file).fatFile f = some { info := x, posn := file.posn }
  := by
  simp [Kernel.fatFile, Kernel.setFile, hj, hx]

theorem fatfsInfoNew_size (sdInfo : SdInfo) (x : FatfsInodeInfo) (cluster size : Long) :
  (fatfsInfoNew sdInfo x cluster size).2.size = size
  := by
  rw [fatfsInfoNew]
  split_ifs
  · rfl
  · rfl

/-- The part of `fatfs_open` that creates the information about the open file, with a free
buffer. -/
theorem fatfsOpenInfo_result (hfree : k.fs.freeBuffers ≠ []) (cluster size : Long) (op : FileOps) :
  Ends (fatfsOpenInfo sd f cluster size op) k fun r k' =>
    sdClusterToBlock (sd.info k.fs.sd) cluster ≠ 0 ∧ r = 0 ∧ k'.fs.sd = k.fs.sd ∧
      k'.fatFile f = some
        { info := (fatfsInfoNew (sd.info k.fs.sd) default cluster size).2,
          posn := (k.globalFd f).posn } ∨
    sdClusterToBlock (sd.info k.fs.sd) cluster = 0 ∧ r = - EIO
  := by
  obtain ⟨j, free, hj⟩ := List.exists_cons_of_ne_nil hfree
  obtain ⟨s₁, halloc, -, -, -, hsd₁⟩ := kmallocBufAlloc_cons hj
  have hblock : (fatfsInfoNew (sd.info s₁.sd) default cluster size).1 = true ↔
      sdClusterToBlock (sd.info k.fs.sd) cluster ≠ 0 := by
    rw [fatfsInfoNew_fst, hsd₁]
  apply Ends.bind_of_eq (onFs_eq halloc)
  apply Ends.bind_of_eq readFile_eq
  apply Ends.bind_of_eq setFile_eq
  apply Ends.bind_of_eq (onFs_eq rfl)
  apply Ends.bind_of_eq (onFs_eq store_eq)
  dsimp only
  split_ifs with hnew
  · apply Ends.bind_of_eq setFile_eq
    apply Ends.pure
    left
    refine ⟨hblock.mp hnew, rfl, hsd₁, ?_⟩
    rw [← hsd₁]
    apply fatFile_setFile rfl
    apply FileSystem.set_buf_self
  · apply Ends.bind_of_eq (onFs_eq kmallocBufFree_eq)
    apply Ends.pure
    right
    exact ⟨not_not.mp fun h => hnew (hblock.mpr h), rfl⟩

section Open

variable {b : BufId} {i : Inode} {e : DirEntry} {contents : List Byte}

/-- `fatfs_open` on the inode of a regular file: the file is opened at its end, if its first cluster
is a cluster of the volume. -/
theorem fatfsOpen_result (hsd : Serves sd v ready) (ht : ready k.fs.sd)
    (hinode : (k.globalFd f).inode = some b) (hposn : (k.globalFd f).posn = 0)
    (hi : k.fs.buf b = .inode i) (hmode : (k.globalFd f).mode = i.mode)
    (hcarries : Carries e k.fs b) (hreg : e.attrs &&& FAT_ATTR_DIRECTORY = 0)
    (hfree : k.fs.freeBuffers ≠ []) :
  Ends (fatfsOpen sd f) k fun r k' =>
    v.Valid (firstCluster e) ∧ r = 0 ∧
      (∃ file, k'.fatFile f = some file ∧ file.info.size = file.posn) ∨
    ¬ v.Valid (firstCluster e) ∧ r = - EIO
  := by
  obtain ⟨i', j, x, hi', -, hj, hx, hcluster, -, hisdir, hisreg⟩ := hcarries
  rw [hi] at hi'
  cases hi'
  have hinfo : onFs (readInfo i.fatfsInfo) k = some (x, k) := by
    rw [hj]
    apply onFs_eq (readInfo_eq hx)
  have hnotDir : ¬ S_ISDIR i.mode = true := by
    rw [hisdir, not_not]
    apply hreg
  apply Ends.bind_of_eq readFile_eq
  rw [hinode]
  apply Ends.bind_of_eq (onFs_readInode_eq hi)
  rw [hmode, if_neg hnotDir, if_pos (hisreg.mpr hreg)]
  apply Ends.bind_of_eq hinfo
  have hends : Ends (fatfsOpenInfo sd f x.firstCluster (default : FatfsInodeInfo).size .fatfsFile) k
      _ :=
    fatfsOpenInfo_result hfree _ _ _
  have hvalid := (hsd.describes ht).sdClusterToBlock_ne_zero (c := x.firstCluster)
  rw [firstCluster, ← hcluster, ← hvalid]
  apply hends.mono
  rintro r k' (⟨hblock, rfl, -, hfile⟩ | ⟨hblock, rfl⟩)
  · left
    refine ⟨hblock, rfl, _, hfile, ?_⟩
    rw [hposn, fatfsInfoNew_size]
    rfl
  · right
    exact ⟨not_not.mpr hblock, rfl⟩

/-- A regular file is opened and reads as its contents iff it is empty, and yet its first cluster is a
cluster of the volume. -/
theorem fatfsOpen_reads_iff (hsd : Serves sd v ready) (ht : ready k.fs.sd)
    (hinode : (k.globalFd f).inode = some b) (hposn : (k.globalFd f).posn = 0)
    (hi : k.fs.buf b = .inode i) (hmode : (k.globalFd f).mode = i.mode)
    (hcarries : Carries e k.fs b) (hreg : e.attrs &&& FAT_ATTR_DIRECTORY = 0)
    (hfree : k.fs.freeBuffers ≠ []) (hcontents : HasContents v e contents) :
  Ends (fatfsOpen sd f) k (fun r k' =>
      r = 0 ∧ ∃ file, k'.fatFile f = some file ∧ ReadsAs sd file k'.fs.sd contents) ↔
    e.size = 0 ∧ v.Valid (firstCluster e)
  := by
  have hresult := fatfsOpen_result hsd ht hinode hposn hi hmode hcarries hreg hfree
  have hsize : e.size = 0 ↔ contents = [] := by
    rw [← List.length_eq_zero_iff, hcontents.1, ← BitVec.toNat_inj]
    rfl
  constructor
  · rintro ⟨r, k', hr, hzero, file, hfile, hreads⟩
    obtain ⟨hvalid, -, file', hfile', hend⟩ | ⟨-, hEIO⟩ := hresult.ensures.of_eq hr
    · rw [hfile] at hfile'
      cases hfile'
      exact ⟨hsize.mpr ((readsAs_of_end hend contents).mp hreads), hvalid⟩
    · have hne : ¬ (0 : Int) = - EIO := by decide
      rw [hzero] at hEIO
      apply absurd hEIO hne
  · rintro ⟨hempty, hvalid⟩
    apply hresult.mono
    rintro r k' (⟨-, hzero, file, hfile, hend⟩ | ⟨hnot, -⟩)
    · exact ⟨hzero, file, hfile, (readsAs_of_end hend contents).mpr (hsize.mp hempty)⟩
    · contradiction

end Open

/-- The entry of a file with one cluster. -/
def clusterEntry (cluster : Word) (size : Long) : DirEntry where
  name := foo ++ List.replicate 8 (chr ' ')
  attrs := 0
  clusterHigh := 0
  clusterLow := cluster
  size := size
  name_length := by decide

/-- A kernel with the inode that `fatfs_create_inode` makes for an entry, and files for it. -/
def fileKernel (e : DirEntry) : Kernel (ℕ → Byte) where
  fs :=
    { buf := Function.update (Function.update (fun _ => .raw)
        0 (.inode { op := .fatfs, count := 1, mode := fatMode e, fatfsInfo := some 1 }))
        1 (.info (fatInfo e))
      freeBuffers := [2]
      root := 0
      sd := fun _ => 0 }
  globalFd _ := ⟨1, 0, fatMode e, none, some 0, none, 0⟩
  processTable _ := none
  current := 0
  tempPath := []

theorem carries_fileKernel (e : DirEntry) : Carries e (fileKernel e).fs 0 :=
  ⟨_, 1, fatInfo e, rfl, rfl, rfl, rfl, rfl, rfl, S_ISDIR_fatMode e, S_ISREG_fatMode e⟩

/-- Nothing is read from a file with one byte. -/
theorem fatfsOpen_reads_nothing :
  HasContents (oneCluster fun _ => 0x41) (clusterEntry 2 1) [0x41] ∧
    ((do
      let r ← fatfsOpen (oneCluster fun _ => 0x41).driver 0
      let k ← get
      return (r, k.fatFile 0 >>= fun file =>
        (fatfsFileRead (oneCluster fun _ => 0x41).driver 1 1 file k.fs.sd).map fun p => p.1.1) :
          KernelM (ℕ → Byte) (Int × Option (Int × List Byte)))
      (fileKernel (clusterEntry 2 1))).map Prod.fst = some (0, some (0, [])) ∧
    ¬ Ends (fatfsOpen (oneCluster fun _ => 0x41).driver 0) (fileKernel (clusterEntry 2 1)) (fun r k' =>
      r = 0 ∧ ∃ file, k'.fatFile 0 = some file ∧
        ReadsAs (oneCluster fun _ => 0x41).driver file k'.fs.sd [0x41])
  := by
  have hcluster : firstCluster (clusterEntry 2 1) = 2 := by decide
  refine ⟨⟨rfl, fun _ => ⟨[2], ?_, by decide +kernel⟩⟩, by decide +kernel, ?_⟩
  · rw [hcluster]
    apply oneCluster_chain
  · rintro ⟨r, k', hr, hzero, file, hfile, hreads⟩
    have hresult := fatfsOpen_result (k := fileKernel (clusterEntry 2 1)) (f := 0)
      (oneCluster fun _ => 0x41).serves_driver trivial rfl rfl rfl rfl
      (carries_fileKernel (clusterEntry 2 1)) (by decide) (by decide)
    obtain ⟨-, -, file', hfile', hend⟩ | ⟨-, hEIO⟩ := hresult.ensures.of_eq hr
    · rw [hfile] at hfile'
      cases hfile'
      cases (readsAs_of_end hend [0x41]).mp hreads
    · have hne : ¬ (0 : Int) = - EIO := by decide
      rw [hzero] at hEIO
      apply absurd hEIO hne

/-- An empty file with a cluster. -/
theorem fatfsOpen_reads_iff_empty :
  Ends (fatfsOpen (oneCluster fun _ => 0).driver 0) (fileKernel (clusterEntry 2 0)) (fun r k' =>
    r = 0 ∧ ∃ file, k'.fatFile 0 = some file ∧ ReadsAs (oneCluster fun _ => 0).driver file k'.fs.sd [])
  := by
  apply (fatfsOpen_reads_iff (oneCluster fun _ => 0).serves_driver trivial rfl rfl rfl rfl
    (carries_fileKernel (clusterEntry 2 0)) (by decide) (by decide) ⟨rfl, fun h => absurd rfl h⟩).mpr
  exact ⟨rfl, (oneCluster_chain _).valid⟩

end Mosnix.Os
