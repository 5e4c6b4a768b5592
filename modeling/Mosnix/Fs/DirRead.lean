import Mosnix.Fs.Rest
import Mosnix.Fat.Directory
import Mosnix.Lib.System

/-!
# Listing a directory of the RAM file system

The function `ramfs_dir_read` of `ramfs.c` lists the entries of a directory.  Each call walks again
from the first entry, by the number of entries that the earlier calls on the file have returned,
while `ramfs_mknod` may have added entries in the meantime.  Entries are added at the end, so no
entry is left out, and none is returned twice.
-/

namespace Mosnix.Fs

open Fat Program

/-! ### The function -/

/-- The members of `struct file` that `ramfs_dir_read` uses. -/
structure DirFile where
  inode : BufId
  posn : Long := 0

/-- What `ramfs_dir_read` has computed: its result, the number of entries, and the structures in the
buffer. -/
structure DirRecords where
  result : Word := 0
  count : Word := 0
  dirents : List Dirent := []

/-- The member `d_ino` for an inode. -/
def direntIno (i : Inode) : Long :=
  if S_ISREG i.mode || S_ISLNK i.mode then i.ramfsSize.setWidth 32
  else if S_ISCHR i.mode || S_ISBLK i.mode then i.device.setWidth 32
  else 0

section Read

variable {σ : Type} (mtime : BufId → ℤ)

/-- The structure for an entry with the inode `c`, where `mtime` gives the modification times of the
inodes. -/
def direntOf (name : List Byte) (h : name.length ≤ DIRENT_NAME_MAX) (c : BufId) (i : Inode) :
    Dirent where
  dIno := direntIno i
  dMtimeNp := mtime c
  dModeNp := i.mode
  dType := (i.mode >>> 12).setWidth 8
  dName := name ++ List.replicate (DIRENT_NAME_MAX - name.length) 0
  dName_length := by
    rw [List.length_append, List.length_replicate]
    omega

/-- The loop of `ramfs_dir_read` that walks to the entry at a position; `fuel` bounds the number of
entries. -/
def ramfsSeek : ℕ → Option BufId → Word → FsM σ (Option BufId)
  | _, none, _ => return none
  | 0, some _, _ => fault
  | fuel + 1, some b, posn => do
      if posn = 0 then
        return some b
      else
        let entry ← readDirent b
        ramfsSeek fuel entry.next (posn - 1)

/-- The loop of `ramfs_dir_read` that stores entries in the buffer. -/
def ramfsDirReadLoop : ℕ → Option BufId → Word → DirRecords → FsM σ DirRecords
  | _, none, _, r => return r
  | 0, some _, _, _ => fault
  | fuel + 1, some b, size, r => do
      if size < BitVec.ofNat 16 SIZEOF_DIRENT then
        return r
      else
        let entry ← readDirent b
        match entry.inode with
        | none => fault
        | some c =>
            let i ← readInode c
            if h : entry.name.length ≤ DIRENT_NAME_MAX then
              ramfsDirReadLoop fuel entry.next (size - BitVec.ofNat 16 SIZEOF_DIRENT)
                { result := r.result + BitVec.ofNat 16 SIZEOF_DIRENT
                  count := r.count + 1
                  dirents := r.dirents ++ [direntOf mtime entry.name h c i] }
            else
              fault

/-- `ramfs_dir_read` -/
def ramfsDirRead (size : Word) (file : DirFile) : FsM σ (DirRecords × DirFile) := do
  let i ← readInode file.inode
  let entry ← ramfsSeek CONFIG_NUM_BUFFERS i.ramfsDir (file.posn.setWidth 16)
  let r ← ramfsDirReadLoop mtime CONFIG_NUM_BUFFERS entry size {}
  return (r, { file with posn := file.posn + r.count.setWidth 32 })

end Read

/-! ### What a call returns -/

variable {σ : Type} {mtime : BufId → ℤ} {s s' : FileSystem σ} {dir : BufId} {p : Option BufId}
  {l : List (BufId × RamfsDirent)}

/-- The structure `r` is that of the entry `x`: its name, with a NUL after it, and the mode and the
size or the device number of its inode. -/
structure Recorded (mtime : BufId → ℤ) (s : FileSystem σ) (x : Listed) (r : Dirent) : Prop where
  name_eq : r.dName = x.2.1 ++ List.replicate (DIRENT_NAME_MAX - x.2.1.length) 0
  name_lt : x.2.1.length < DIRENT_NAME_MAX
  inode_eq : ∃ c i, x.2.2 = some c ∧ s.buf c = .inode i ∧ r.dModeNp = i.mode
    ∧ r.dType = (i.mode >>> 12).setWidth 8 ∧ r.dIno = direntIno i ∧ r.dMtimeNp = mtime c

/-- An entry that can be listed: it has an inode, and its name fits. -/
def Listable (s : FileSystem σ) (x : Listed) : Prop :=
  x.2.1.length ≤ RAMFS_MAX_NAME ∧ ∃ c i, x.2.2 = some c ∧ s.buf c = .inode i

/-- The walk to a position ends at the rest of the entries. -/
theorem ramfsSeek_eq {fuel : ℕ} (h : Chain s p l) (hfuel : l.length ≤ fuel) (posn : Word) :
  ∃ q, ramfsSeek fuel p posn s = some (q, s) ∧ Chain s q (l.drop posn.toNat)
  := by
  induction l generalizing p fuel posn with
  | nil =>
      rw [show p = none from h]
      refine ⟨none, ?_, ?_⟩
      · cases fuel <;> rfl
      · rw [List.drop_nil]
        rfl
  | cons e l ih =>
      obtain ⟨rfl, he, hl⟩ := h
      obtain ⟨fuel, rfl⟩ : ∃ n, fuel = n + 1 := Nat.exists_eq_add_one.mpr (by
        rw [List.length_cons] at hfuel
        omega)
      by_cases hposn : posn = 0
      · refine ⟨some e.1, ?_, ?_⟩
        · rw [ramfsSeek, if_pos hposn]
          rfl
        · rw [hposn]
          exact ⟨rfl, he, hl⟩
      · obtain ⟨q, hq, hchain⟩ := ih hl (Nat.le_of_succ_le_succ hfuel) (posn - 1)
        have hsucc : posn.toNat = (posn - 1).toNat + 1 := by bv_omega
        refine ⟨q, ?_, ?_⟩
        · rw [ramfsSeek, if_neg hposn]
          apply (bind_eq (readDirent_eq he)).trans hq
        · rw [hsucc]
          exact hchain

/-- The state of the loop with the structures `rs` added. -/
def DirRecords.add (r : DirRecords) (rs : List Dirent) : DirRecords where
  result := r.result + BitVec.ofNat 16 (SIZEOF_DIRENT * rs.length)
  count := r.count + BitVec.ofNat 16 rs.length
  dirents := r.dirents ++ rs

theorem DirRecords.add_nil (r : DirRecords) : r.add [] = r := by
  simp [add]

theorem DirRecords.add_cons (r : DirRecords) (x : Dirent) (rs : List Dirent) :
  r.add (x :: rs)
    = DirRecords.add
      { result := r.result + BitVec.ofNat 16 SIZEOF_DIRENT
        count := r.count + 1
        dirents := r.dirents ++ [x] } rs
  := by
  simp only [add, List.length_cons, SIZEOF_DIRENT, DirRecords.mk.injEq, List.append_assoc,
    List.singleton_append, and_true]
  constructor
  · bv_omega
  · bv_omega

/-- The number of records is counted modulo `2 ^ 16`. -/
theorem DirRecords.count_add (rs : List Dirent) :
  (DirRecords.add {} rs).count = BitVec.ofNat 16 rs.length
  :=
  BitVec.zero_add _

theorem DirRecords.result_add (rs : List Dirent) :
  (DirRecords.add {} rs).result = BitVec.ofNat 16 (SIZEOF_DIRENT * rs.length)
  :=
  BitVec.zero_add _

/-- The loop stores the structures of the next entries, as many as there are and as fit in the
buffer. -/
theorem ramfsDirReadLoop_eq {fuel : ℕ} (h : Chain s p l) (hfuel : l.length ≤ fuel)
    (hl : ∀ e ∈ l, Listable s (listed e)) (size : Word) (r : DirRecords) :
  ∃ rs, ramfsDirReadLoop mtime fuel p size r s = some (r.add rs, s)
    ∧ List.Forall₂ (Recorded mtime s) ((l.take (size.toNat / SIZEOF_DIRENT)).map listed) rs
  := by
  induction l generalizing p fuel size r with
  | nil =>
      rw [show p = none from h]
      refine ⟨[], ?_, ?_⟩
      · rw [r.add_nil]
        cases fuel <;> rfl
      · rw [List.take_nil]
        exact .nil
  | cons e l ih =>
      obtain ⟨rfl, he, hchain⟩ := h
      obtain ⟨fuel, rfl⟩ : ∃ n, fuel = n + 1 := Nat.exists_eq_add_one.mpr (by
        rw [List.length_cons] at hfuel
        omega)
      by_cases hsize : size < BitVec.ofNat 16 SIZEOF_DIRENT
      · have hzero : size.toNat / SIZEOF_DIRENT = 0 := Nat.div_eq_of_lt hsize
        refine ⟨[], ?_, ?_⟩
        · rw [r.add_nil, ramfsDirReadLoop, if_pos hsize]
          rfl
        · rw [hzero]
          exact .nil
      · obtain ⟨hname, c, i, hc, hi⟩ := hl e (by simp)
        have hname' : e.2.name.length ≤ DIRENT_NAME_MAX := hname.trans (by decide)
        obtain ⟨rs, hrs, hrecorded⟩ := ih hchain (Nat.le_of_succ_le_succ hfuel)
          (fun e' he' => hl e' (by simp [he'])) (size - BitVec.ofNat 16 SIZEOF_DIRENT)
          { result := r.result + BitVec.ofNat 16 SIZEOF_DIRENT
            count := r.count + 1
            dirents := r.dirents ++ [direntOf mtime e.2.name hname' c i] }
        refine ⟨direntOf mtime e.2.name hname' c i :: rs, ?_, ?_⟩
        · rw [r.add_cons, ramfsDirReadLoop, if_neg hsize]
          apply (bind_eq (readDirent_eq he)).trans
          rw [show e.2.inode = some c from hc]
          apply (bind_eq (readInode_eq hi)).trans
          rw [dif_pos hname']
          apply hrs
        · have hle : SIZEOF_DIRENT ≤ size.toNat := not_lt.mp hsize
          have hsub : (size - BitVec.ofNat 16 SIZEOF_DIRENT).toNat = size.toNat - SIZEOF_DIRENT :=
            BitVec.toNat_sub_of_le (BitVec.not_lt.mp hsize)
          have hdiv : size.toNat / SIZEOF_DIRENT
              = (size - BitVec.ofNat 16 SIZEOF_DIRENT).toNat / SIZEOF_DIRENT + 1 := by
            rw [hsub]
            apply Nat.div_eq_sub_div (by decide) hle
          rw [hdiv, List.take_succ_cons, List.map_cons]
          refine .cons ⟨rfl, ?_, c, i, hc, hi, rfl, rfl, rfl, rfl⟩ hrecorded
          apply hname.trans_lt (by decide)

/-- The number of entries of a directory. -/
theorem Lists.length_le {L : List Listed} (hL : Lists s dir L) :
  L.length ≤ CONFIG_NUM_BUFFERS
  := by
  obtain ⟨i, l, -, -, -, hl, rfl⟩ := hL
  rw [List.length_map]
  exact hl.length_le

/-- A read stores the structures of the entries from the position of the file on, as many as
there are and as fit in the buffer, and moves the position after them. -/
theorem ramfsDirRead_eq {L : List Listed} {file : DirFile} (hL : Lists s file.inode L)
    (hl : ∀ x ∈ L, Listable s x) (hposn : file.posn.toNat ≤ L.length) (size : Word) :
  ∃ rs, ramfsDirRead mtime size file s
      = some ((DirRecords.add {} rs, { file with posn := file.posn + BitVec.ofNat 32 rs.length }), s)
    ∧ List.Forall₂ (Recorded mtime s)
        ((L.drop file.posn.toNat).take (size.toNat / SIZEOF_DIRENT)) rs
  := by
  have hlength := hL.length_le
  obtain ⟨i, l, hi, -, -, hchain, rfl⟩ := hL
  rw [List.length_map] at hlength hposn
  have hbound : CONFIG_NUM_BUFFERS = 100 := rfl
  have hseek : (file.posn.setWidth 16).toNat = file.posn.toNat := by
    rw [BitVec.toNat_setWidth]
    omega
  obtain ⟨q, hq, hrest⟩ := ramfsSeek_eq hchain hlength (file.posn.setWidth 16)
  rw [hseek] at hrest
  have hfuel : (l.drop file.posn.toNat).length ≤ CONFIG_NUM_BUFFERS := by
    rw [List.length_drop]
    omega
  obtain ⟨rs, hrs, hrecorded⟩ := ramfsDirReadLoop_eq hrest hfuel
    (fun e he => hl _ (List.mem_map_of_mem (List.mem_of_mem_drop he))) size {}
  rw [List.map_take, List.map_drop] at hrecorded
  refine ⟨rs, ?_, hrecorded⟩
  have hcount : (DirRecords.add {} rs).count.setWidth 32 = BitVec.ofNat 32 rs.length := by
    have hle := hrecorded.length_eq
    rw [List.length_take, List.length_drop, List.length_map] at hle
    apply BitVec.eq_of_toNat_eq
    rw [DirRecords.count_add, BitVec.toNat_setWidth, BitVec.toNat_ofNat, BitVec.toNat_ofNat]
    omega
  apply (bind_eq (readInode_eq hi)).trans
  apply (bind_eq hq).trans
  apply (bind_eq hrs).trans
  rw [← hcount]
  rfl

/-! ### Creations -/

/-- The inodes keep what a directory shows of them. -/
def KeepsInodes (s s' : FileSystem σ) : Prop :=
  ∀ c i, s.buf c = .inode i →
    ∃ i', s'.buf c = .inode i' ∧ i'.mode = i.mode ∧ direntIno i' = direntIno i

theorem Extends.keepsInodes {held infos : List BufId} (h : Extends s s' held infos) :
  KeepsInodes s s'
  :=
  fun _ _ hi => ⟨_, h.inode_eq hi, rfl, rfl⟩

theorem Created.keepsInodes {name : List Byte} {child : Inode} {d c : BufId}
    (h : Created s s' dir name child d c) :
  KeepsInodes s s'
  := by
  intro b i hi
  obtain ⟨p, hp, -⟩ := h.inode_eq hi
  exact ⟨_, hp, rfl, rfl⟩

/-- A record stays true while the inodes are kept. -/
theorem Recorded.mono {x : Listed} {r : Dirent} (h : Recorded mtime s x r)
    (hkeeps : KeepsInodes s s') :
  Recorded mtime s' x r
  := by
  obtain ⟨c, i, hc, hi, hmode, htype, hino, hmtime⟩ := h.inode_eq
  obtain ⟨i', hi', hmode', hino'⟩ := hkeeps c i hi
  refine ⟨h.name_eq, h.name_lt, c, i', hc, hi', ?_, ?_, ?_, hmtime⟩
  · rw [hmode, hmode']
  · rw [htype, hmode']
  · rw [hino, hino']

/-- A directory in which nodes are created: its entries, whose names fit in `struct ramfs_dirent`. -/
structure DirOk (s : FileSystem σ) (dir : BufId) (L : List Listed) : Prop where
  wellFormed : WellFormed s
  apart : Apart s
  lists : Lists s dir L
  name_le : ∀ x ∈ L, x.2.1.length ≤ RAMFS_MAX_NAME

/-- The directories of the kernel are such directories. -/
theorem FsOk.dirOk {q : Policy} {held infos : List BufId} {L : List Listed}
    (h : FsOk q s held infos) (hL : Lists s dir L) :
  DirOk s dir L
  :=
  ⟨h.wellFormed, h.apart, hL, fun x hx => (h.tree.names dir L x hL hx).length_le⟩

theorem DirOk.listable {L : List Listed} (h : DirOk s dir L) : ∀ x ∈ L, Listable s x := by
  intro x hx
  exact ⟨h.name_le x hx, h.wellFormed.lists_inode h.lists x hx⟩

/-- What `ramfs_mknod` does to the entries `L` of a directory: on success the new entry, with the
mode of the new inode, is after them. -/
inductive Appended (s' : FileSystem σ) (L : List Listed) (name : List Byte) (mode : Word)
    (r : Int) (L' : List Listed) : Prop where
  | failed (hr : r < 0) (hL' : L' = L)
  | made (d c : BufId) (i : Inode) (hr : r = 0) (hL' : L' = L ++ [(d, name, some c)])
      (hd : d ∉ L.map Prod.fst) (hi : s'.buf c = .inode i) (hmode : i.mode = mode)

/-- The first entries are the same. -/
theorem Appended.take_eq {L L' : List Listed} {name : List Byte} {mode : Word} {r : Int} {n : ℕ}
    (h : Appended s' L name mode r L') (hn : n ≤ L.length) :
  L'.take n = L.take n
  := by
  cases h with
  | failed _ hL' => rw [hL']
  | made d c i _ hL' _ _ _ => rw [hL', List.take_append_of_le_length hn]

/-- `ramfs_mknod` adds an entry at the end of the directory, or fails. -/
theorem DirOk.ramfsMknod_ends {L : List Listed} (h : DirOk s dir L) (name : List Byte)
    (mode : Word) :
  Ends (ramfsMknod dir name mode) s fun r s' =>
    ∃ L', Appended s' L name mode r.1 L' ∧ DirOk s' dir L' ∧ KeepsInodes s s'
  := by
  obtain ⟨i, l, hi, hop, -⟩ := h.lists
  apply (Fs.ramfsMknod_ends h.wellFormed hi hop).mono
  rintro r s' (⟨hr, hext⟩ | ⟨hr, d, c, -, hcreated⟩)
  · refine ⟨L, .failed hr rfl, ?_, hext.keepsInodes⟩
    exact ⟨hext.wellFormed h.wellFormed, hext.apart_iff.mpr h.apart, hext.lists_iff.mpr h.lists,
      h.name_le⟩
  · have hnew : IsNew (newInode mode 2) := ⟨rfl, by simp [newInode], rfl, rfl⟩
    refine ⟨_, .made d c _ hr rfl ?_ hcreated.buf_child rfl, ?_, hcreated.keepsInodes⟩
    · intro hd
      obtain ⟨x, hx, hxd⟩ := List.mem_map.mp hd
      exact hcreated.notMem_lists h.lists x hx hxd
    · refine ⟨hcreated.wellFormed h.wellFormed h.apart hnew, hcreated.apart h.wellFormed h.apart hnew,
        hcreated.lists_dir h.lists, ?_⟩
      intro x hx
      obtain hx | hx := List.mem_append.mp hx
      · exact h.name_le x hx
      · rw [List.mem_singleton.mp hx]
        exact hcreated.name_le

/-! ### Reads between creations -/

/-- A file on a directory, with the structures that the reads on it have returned. -/
structure DirState (σ : Type) where
  fs : FileSystem σ
  file : DirFile
  records : List Dirent := []

/-- A read from the file into a buffer, or the creation of a node in its directory. -/
inductive DirCall where
  | read (size : Word)
  | mknod (name : List Byte) (mode : Word)

inductive DirStep (mtime : BufId → ℤ) (s : DirState σ) : DirCall → DirState σ → Prop where
  | read {size : Word} {r : DirRecords} {file : DirFile} {fs : FileSystem σ}
      (h : ramfsDirRead mtime size s.file s.fs = some ((r, file), fs)) :
      DirStep mtime s (.read size) { fs := fs, file := file, records := s.records ++ r.dirents }
  | mknod {name : List Byte} {mode : Word} {r : Int × Option BufId} {fs : FileSystem σ}
      (h : ramfsMknod s.file.inode name mode s.fs = some (r, fs)) :
      DirStep mtime s (.mknod name mode) { s with fs := fs }

/-- The calls on a directory after it has been opened. -/
def dirSystem (σ : Type) (mtime : BufId → ℤ) : System (DirState σ) DirCall where
  start s := (∃ L, DirOk s.fs s.file.inode L) ∧ s.file.posn = 0 ∧ s.records = []
  step := DirStep mtime

/-- The structures returned so far are those of the first entries, and the position is their
number. -/
structure Listing (mtime : BufId → ℤ) (s : DirState σ) (L : List Listed) : Prop where
  dirOk : DirOk s.fs s.file.inode L
  posn_eq : s.file.posn = BitVec.ofNat 32 s.records.length
  recorded : List.Forall₂ (Recorded mtime s.fs) (L.take s.records.length) s.records

/-- The number of related elements is that of the elements taken. -/
theorem take_length_of_forall₂ {α β : Type*} {R : α → β → Prop} {as : List α} {bs : List β} {n : ℕ}
    (h : List.Forall₂ R (as.take n) bs) :
  as.take bs.length = as.take n
  := by
  rw [← h.length_eq, List.length_take, List.take_eq_take_iff]
  omega

namespace Listing

variable {t t' : DirState σ} {L : List Listed}

variable (h : Listing mtime t L)

include h

/-- No more records are returned than there are entries. -/
theorem length_le : t.records.length ≤ L.length := by
  have hlength := h.recorded.length_eq
  rw [List.length_take] at hlength
  omega

theorem posn_toNat : t.file.posn.toNat = t.records.length := by
  have hle := h.length_le
  have hmax := h.dirOk.lists.length_le
  have hbound : CONFIG_NUM_BUFFERS = 100 := rfl
  rw [h.posn_eq, BitVec.toNat_ofNat, Nat.mod_eq_of_lt]
  omega

/-- A read goes on with the next entries. -/
theorem read_eq (size : Word) :
  ∃ rs, ramfsDirRead mtime size t.file t.fs
      = some ((DirRecords.add {} rs,
          { t.file with posn := BitVec.ofNat 32 (t.records.length + rs.length) }), t.fs)
    ∧ List.Forall₂ (Recorded mtime t.fs)
        ((L.drop t.records.length).take (size.toNat / SIZEOF_DIRENT)) rs
  := by
  have hposn : t.file.posn.toNat ≤ L.length := h.posn_toNat.trans_le h.length_le
  obtain ⟨rs, heq, hrs⟩ := ramfsDirRead_eq h.dirOk.lists h.dirOk.listable hposn size
  refine ⟨rs, ?_, ?_⟩
  · rw [heq, BitVec.ofNat_add, ← h.posn_eq]
  · rwa [h.posn_toNat] at hrs

/-- A call keeps the listing. -/
theorem step {call : DirCall} (hstep : DirStep mtime t call t') :
  ∃ L', Listing mtime t' L'
  := by
  cases hstep with
  | @read size r file fs heq =>
      obtain ⟨rs, heq', hrs⟩ := h.read_eq size
      rw [heq'] at heq
      cases heq
      have hlength : (t.records ++ (DirRecords.add {} rs).dirents).length
          = t.records.length + rs.length := List.length_append
      refine ⟨L, h.dirOk, ?_, ?_⟩
      · rw [hlength]
      · rw [hlength, List.take_add, take_length_of_forall₂ hrs]
        exact List.rel_append h.recorded hrs
  | @mknod name mode r fs heq =>
      obtain ⟨L', happended, hok, hkeeps⟩ := (h.dirOk.ramfsMknod_ends name mode).ensures.of_eq heq
      refine ⟨L', hok, h.posn_eq, ?_⟩
      rw [happended.take_eq h.length_le]
      exact h.recorded.imp fun _ _ hrecorded => hrecorded.mono hkeeps

/-- What the next read returns: no more than the buffer holds, and less only at the end of the
directory. -/
theorem read_ends (size : Word) :
  Ends (ramfsDirRead mtime size t.file) t.fs fun r fs =>
    fs = t.fs ∧ r.1.result.toInt = SIZEOF_DIRENT * r.1.dirents.length
      ∧ SIZEOF_DIRENT * r.1.dirents.length ≤ size.toNat
      ∧ (r.1.dirents.length < size.toNat / SIZEOF_DIRENT →
        t.records.length + r.1.dirents.length = L.length)
  := by
  obtain ⟨rs, heq, hrs⟩ := h.read_eq size
  have hlength := hrs.length_eq
  rw [List.length_take, List.length_drop] at hlength
  have hle := h.length_le
  have hmax := h.dirOk.lists.length_le
  have hbound : CONFIG_NUM_BUFFERS = 100 := rfl
  have hsmall : SIZEOF_DIRENT * rs.length ≤ 2700 := by
    rw [SIZEOF_DIRENT]
    omega
  refine ⟨_, _, heq, rfl, ?_, ?_, ?_⟩
  · rw [DirRecords.result_add]
    change (BitVec.ofNat 16 (SIZEOF_DIRENT * rs.length)).toInt = SIZEOF_DIRENT * rs.length
    rw [BitVec.toInt_eq_toNat_of_lt, BitVec.toNat_ofNat]
    · omega
    · rw [BitVec.toNat_ofNat]
      omega
  · change SIZEOF_DIRENT * rs.length ≤ size.toNat
    calc SIZEOF_DIRENT * rs.length
        ≤ SIZEOF_DIRENT * (size.toNat / SIZEOF_DIRENT) := Nat.mul_le_mul_left _ (by omega)
      _ ≤ size.toNat := Nat.mul_div_le _ _
  · change rs.length < size.toNat / SIZEOF_DIRENT → t.records.length + rs.length = L.length
    omega

end Listing

/-- In every state the structures returned so far are those of the first entries, each once and in
the order of the directory. -/
theorem listing_of_reachable {t : DirState σ}
    (h : (dirSystem σ mtime).Reachable (fun _ _ => True) t) :
  ∃ L, Listing mtime t L
  := by
  apply h.invariant
  · rintro t ⟨⟨L, hL⟩, hposn, hrecords⟩
    refine ⟨L, hL, ?_, ?_⟩
    · rw [hposn, hrecords]
      rfl
    · rw [hrecords]
      exact .nil
  · rintro t call t' ⟨L, hL⟩ - hstep
    exact hL.step hstep

/-- A directory is listed in the order in which its entries were added, whatever the sizes of the
buffers and the creations between the reads: the structures returned so far are those of the first
entries.  Every read returns, without more bytes than the buffer has, and with fewer structures than
it holds only at the end of the directory.  Every creation returns, and on success adds an entry to
the end. -/
theorem ramfsDirRead_listing {t : DirState σ}
    (h : (dirSystem σ mtime).Reachable (fun _ _ => True) t) :
  ∃ L, Lists t.fs t.file.inode L ∧ (L.map Prod.fst).Nodup
    ∧ (∃ L₁, L₁ <+: L ∧ List.Forall₂ (Recorded mtime t.fs) L₁ t.records)
    ∧ (∀ size, Ends (ramfsDirRead mtime size t.file) t.fs fun r fs =>
        fs = t.fs ∧ r.1.result.toInt = SIZEOF_DIRENT * r.1.dirents.length
          ∧ SIZEOF_DIRENT * r.1.dirents.length ≤ size.toNat
          ∧ (r.1.dirents.length < size.toNat / SIZEOF_DIRENT →
            t.records.length + r.1.dirents.length = L.length))
    ∧ ∀ name mode, Ends (ramfsMknod t.file.inode name mode) t.fs fun r fs =>
        ∃ L', Lists fs t.file.inode L' ∧ Appended fs L name mode r.1 L'
  := by
  obtain ⟨L, hL⟩ := listing_of_reachable h
  refine ⟨L, hL.dirOk.lists, hL.dirOk.lists.nodup, ⟨_, List.take_prefix _ _, hL.recorded⟩,
    hL.read_ends, ?_⟩
  intro name mode
  apply (hL.dirOk.ramfsMknod_ends name mode).mono
  rintro r fs ⟨L', happended, hok, -⟩
  exact ⟨L', hok.lists, happended⟩

/-- The file system at boot, with the file `/a` added to its root directory. -/
def oneFile : FileSystem Unit :=
  (ramfsMknod bootRoot [chr 'a'] S_IFREG).endState (boot ())

/-- The root directory is opened, a file is added to it, and a read returns the structure of the
file. -/
theorem ramfsDirRead_listing_oneFile :
  ∃ t : DirState Unit, (dirSystem Unit fun _ => 0).Reachable (fun _ _ => True) t
    ∧ t.fs = oneFile ∧ t.records.length = 1
    ∧ ∃ L, Lists oneFile t.file.inode L
      ∧ ∃ L₁, L₁ <+: L ∧ List.Forall₂ (Recorded (fun _ => 0) oneFile) L₁ t.records
  := by
  have hfs : FsOk ⟨True, True⟩ (boot ()) [] [] :=
    ⟨boot (), rest_boot _ (), Extends.refl (wellFormed_boot ())⟩
  have hboot : (dirSystem Unit fun _ => 0).Reachable (fun _ _ => True)
      { fs := boot (), file := { inode := bootRoot } } := by
    obtain ⟨L, hL⟩ := hfs.tree.root_dir
    apply System.Reachable.start
    exact ⟨⟨L, hfs.dirOk hL⟩, rfl, rfl⟩
  have hmknod : ramfsMknod bootRoot [chr 'a'] S_IFREG (boot ())
      = some ((0, some ⟨97, by decide⟩), oneFile) := by
    apply eq_of_result
    decide +kernel
  have hmade := hboot.step trivial (DirStep.mknod hmknod)
  obtain ⟨L, hL⟩ := listing_of_reachable hmade
  obtain ⟨⟨r, file⟩, fs, heq, rfl, -⟩ := hL.read_ends 100
  have hlength : (ramfsDirRead (fun _ => 0) 100 { inode := bootRoot } oneFile).map
      (fun p => p.1.1.dirents.length) = some 1 := by
    decide +kernel
  rw [heq] at hlength
  have hread := hmade.step trivial (DirStep.read heq)
  obtain ⟨L, hlists, -, hrecorded, -⟩ := ramfsDirRead_listing hread
  exact ⟨_, hread, rfl, Option.some.inj hlength, L, hlists, hrecorded⟩

end Mosnix.Fs
