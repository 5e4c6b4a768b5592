import Mosnix.Lib.Path
import Mosnix.Fs.Creation

/-!
# The structure of the RAM file system

The inodes of the RAM file system form a tree.  Its root is a directory, every other inode is that
of exactly one directory entry, and every inode is reached from the root through directories.  Every
directory entry is in a directory.  The names in the entries are components of paths.

The tree is the same in two file systems that have the same directories, and the creation of a node
adds a leaf to it.
-/

namespace Mosnix.Fs

open Fat Path

variable {σ : Type} {s s' : FileSystem σ} {b c d dir : BufId} {i child : Inode} {name : List Byte}
  {held infos : List BufId}

/-! ### The tree -/

/-- A name in a directory entry: a component of a path that is neither empty nor too long. -/
structure NameOk (name : List Byte) : Prop where
  normal : Normal (chr '/') (chr '.') name
  zero_notMem : 0 ∉ name
  length_le : name.length ≤ RAMFS_MAX_NAME

/-- The inode `b` is the root, or that of an entry of a directory that is reached from the root. -/
inductive Below (s : FileSystem σ) : BufId → Prop where
  | root : Below s s.root
  | child {dir c : BufId} {L : List Listed} {x : Listed} (hdir : Below s dir) (hL : Lists s dir L)
      (hx : x ∈ L) (hc : x.2.2 = some c) : Below s c

/-- The inode `b` is one of the RAM file system. -/
def RamInode (s : FileSystem σ) (b : BufId) : Prop :=
  ∃ i, s.buf b = .inode i ∧ i.op = .ramfs

/-- The inodes of the RAM file system form a tree. -/
structure RamTree (s : FileSystem σ) : Prop where
  root_dir : ∃ L, Lists s s.root L
  below : ∀ b, RamInode s b → Below s b
  child : ∀ dir L x c, Lists s dir L → x ∈ L → x.2.2 = some c → c ≠ s.root ∧ RamInode s c
  unique : ∀ dir dir' L L' x x', Lists s dir L → Lists s dir' L' → x ∈ L → x' ∈ L' →
    x.2.2 = x'.2.2 → x.1 = x'.1
  names : ∀ dir L x, Lists s dir L → x ∈ L → NameOk x.2.1
  listed : ∀ d e, s.buf d = .dirent e → ∃ dir L x, Lists s dir L ∧ x ∈ L ∧ x.1 = d

/-- The buffer `d` has a directory entry for the inode `b`. -/
def Names (s : FileSystem σ) (d b : BufId) : Prop :=
  ∃ e, s.buf d = .dirent e ∧ e.inode = some b

/-- The entry in a buffer. -/
theorem Lists.dirent_of_mem {L : List Listed} {x : Listed} (hL : Lists s dir L) (hx : x ∈ L) :
  ∃ e, s.buf x.1 = .dirent e ∧ x.2 = (e.name, e.inode)
  := by
  obtain ⟨i, l, -, -, -, hl, rfl⟩ := hL
  obtain ⟨e, he, rfl⟩ := List.mem_map.mp hx
  exact ⟨e.2, hl.buf_eq_of_mem he, rfl⟩

/-- No entry occurs twice in a directory. -/
theorem Lists.nodup {L : List Listed} (hL : Lists s dir L) : (L.map Prod.fst).Nodup := by
  obtain ⟨i, l, -, -, -, hl, rfl⟩ := hL
  rw [List.map_map]
  apply hl.nodup

namespace RamTree

/-- A directory entry is in a directory. -/
theorem exists_lists {e : RamfsDirent} (h : RamTree s) (he : s.buf d = .dirent e) :
  ∃ dir L, Lists s dir L ∧ (d, e.name, e.inode) ∈ L
  := by
  obtain ⟨dir, L, x, hL, hx, rfl⟩ := h.listed d e he
  obtain ⟨e', he', hx'⟩ := hL.dirent_of_mem hx
  rw [he] at he'
  cases he'
  refine ⟨dir, L, hL, ?_⟩
  rw [← hx']
  apply hx

/-- An inode other than the root is that of exactly one directory entry. -/
theorem existsUnique_names (h : RamTree s) (hb : RamInode s b) (hroot : b ≠ s.root) :
  ∃! d, Names s d b
  := by
  cases h.below b hb with
  | root => contradiction
  | @child dir _ L x _ hL hx hc =>
      obtain ⟨e, he, hx'⟩ := hL.dirent_of_mem hx
      refine ⟨x.1, ⟨e, he, ?_⟩, ?_⟩
      · rw [hx'] at hc
        apply hc
      · rintro d ⟨e', he', hb'⟩
        obtain ⟨dir', L', hL', hmem⟩ := h.exists_lists he'
        exact h.unique dir' dir L' L _ x hL' hL hmem hx (hb'.trans hc.symm)

/-- The root is that of no directory entry. -/
theorem not_names_root (h : RamTree s) : ¬ Names s d s.root := by
  rintro ⟨e, he, hroot⟩
  obtain ⟨dir, L, hL, hmem⟩ := h.exists_lists he
  apply (h.child dir L _ s.root hL hmem hroot).1 rfl

end RamTree

/-- The directories that are reached from the root depend only on the entries. -/
theorem Below.mono (h : Below s b) (hroot : s'.root = s.root)
    (hL : ∀ dir L, Lists s dir L → ∃ L', Lists s' dir L' ∧ L ⊆ L') :
  Below s' b
  := by
  induction h with
  | root =>
      rw [← hroot]
      apply Below.root
  | child _ hlists hx hc ih =>
      obtain ⟨L', hL', hsub⟩ := hL _ _ hlists
      apply Below.child ih hL' (hsub hx) hc

/-- The tree depends only on the entries of the directories. -/
theorem RamTree.congr (h : RamTree s) (hroot : s'.root = s.root)
    (hL : ∀ dir L, Lists s' dir L ↔ Lists s dir L) (hram : ∀ b, RamInode s' b ↔ RamInode s b)
    (hdirent : ∀ d e, s'.buf d = .dirent e → s.buf d = .dirent e) :
  RamTree s'
  where
  root_dir := by
    simp only [hroot, hL]
    apply h.root_dir
  below b hb := by
    apply (h.below b ((hram b).mp hb)).mono hroot
    intro dir L hlists
    exact ⟨L, (hL dir L).mpr hlists, fun _ => id⟩
  child := by
    simp only [hroot, hL, hram]
    apply h.child
  unique := by
    simp only [hL]
    apply h.unique
  names := by
    simp only [hL]
    apply h.names
  listed d e he := by
    simp only [hL]
    apply h.listed d e (hdirent d e he)

/-- References do not add inodes of the RAM file system. -/
theorem Extends.ramInode_iff (h : Extends s s' held infos) : RamInode s' b ↔ RamInode s b := by
  constructor
  · rintro ⟨i, hi, hop⟩
    obtain ⟨i₀, hi₀, rfl⟩ := h.ramfs_inode hi hop
    exact ⟨i₀, hi₀, hop⟩
  · rintro ⟨i, hi, hop⟩
    exact ⟨_, h.inode_eq hi, hop⟩

/-- References do not change the tree. -/
theorem Extends.ramTree (h : Extends s s' held infos) (ht : RamTree s) : RamTree s' :=
  ht.congr h.root_eq (fun _ _ => h.lists_iff) (fun _ => h.ramInode_iff) fun _ _ => h.dirent_iff.mp

/-! ### A new leaf -/

namespace Created

variable (h : Created s s' dir name child d c)

include h

/-- No entry is lost. -/
theorem exists_lists (ha : Apart s) {L : List Listed} (hL : Lists s b L) :
  ∃ L', Lists s' b L' ∧ L ⊆ L'
  := by
  by_cases hb : b = dir
  · subst hb
    exact ⟨_, h.lists_dir hL, List.subset_append_left _ _⟩
  · exact ⟨L, h.lists_of_ne ha hL hb, fun _ => id⟩

theorem ramInode (hb : RamInode s b) : RamInode s' b := by
  obtain ⟨i, hi, hop⟩ := hb
  obtain ⟨p, hp, -⟩ := h.inode_eq hi
  exact ⟨_, hp, hop⟩

/-- A node stays below the root. -/
theorem below (ha : Apart s) (hb : Below s b) :
  Below s' b
  := by
  apply hb.mono h.root_eq
  intro dir L hL
  apply h.exists_lists ha hL

/-- An entry after a creation is the new one or was there before. -/
theorem mem_lists (hs : WellFormed s) (ha : Apart s) (hnew : IsNew child) {L' : List Listed}
    {x : Listed} (hL' : Lists s' b L') (hx : x ∈ L') :
  (b = dir ∧ x = (d, name, some c)) ∨ ∃ L, Lists s b L ∧ x ∈ L
  := by
  obtain ⟨rfl, L, hL, rfl⟩ | ⟨-, rfl⟩ | ⟨-, hL⟩ := h.lists_cases hs ha hnew hL'
  · obtain hx | hx := List.mem_append.mp hx
    · right
      exact ⟨L, hL, hx⟩
    · left
      exact ⟨rfl, List.mem_singleton.mp hx⟩
  · simp at hx
  · right
    exact ⟨L', hL, hx⟩

/-- An entry in a buffer after a creation is the new one or was there before. -/
theorem dirent_cases {e : RamfsDirent} (hb : s'.buf b = .dirent e) :
  b = d ∨ ∃ e₀, s.buf b = .dirent e₀
  := by
  obtain ⟨i, l, hi, -, -, hl, hbuf⟩ := h.buf_eq
  by_cases hbd : b = d
  · left
    apply hbd
  · right
    by_cases hbc : b = c
    · simp [hbc, h.buf_child] at hb
    rw [hbuf, Function.update_of_ne hbc, Function.update_of_ne hbd] at hb
    cases l using List.reverseRecOn with
    | nil =>
        by_cases hdir : b = dir
        · simp [linkEntry, hdir] at hb
        · exact ⟨e, by simpa [linkEntry, hdir] using hb⟩
    | append_singleton l x =>
        by_cases hbx : b = x.1
        · exact ⟨x.2, by rw [hbx, hl.suffix.2.1]⟩
        · exact ⟨e, by simpa [linkEntry, hbx] using hb⟩

/-- The creation of a node adds a leaf to the tree. -/
theorem ramTree (hs : WellFormed s) (ha : Apart s) (hnew : IsNew child) (ht : RamTree s)
    (hname : NameOk name) :
  RamTree s'
  := by
  obtain ⟨i, l, hi, hop, hdir, hl, -⟩ := h.buf_eq
  have hne {b : BufId} (hb : RamInode s b) : b ≠ c := by
    rintro rfl
    obtain ⟨i', hi', -⟩ := hb
    simp [h.inode_raw] at hi'
  constructor
  · obtain ⟨L, hL⟩ := ht.root_dir
    obtain ⟨L', hL', -⟩ := h.exists_lists ha hL
    rw [h.root_eq]
    exact ⟨L', hL'⟩
  · rintro b ⟨bi, hbi, hbop⟩
    obtain ⟨rfl, rfl⟩ | ⟨b₀, p, hb₀, rfl, -⟩ := h.inode_cases hbi
    · have hbelow := h.below ha (ht.below dir ⟨i, hi, hop⟩)
      have hnewest := h.lists_dir ⟨i, l, hi, hop, hdir, hl, rfl⟩
      apply Below.child (x := (d, name, some b)) hbelow hnewest _ rfl
      simp
    · apply h.below ha (ht.below b ⟨b₀, hb₀, hbop⟩)
  · intro b L x c' hL hx hc'
    rw [h.root_eq]
    obtain ⟨rfl, rfl⟩ | ⟨L₀, hL₀, hx₀⟩ := h.mem_lists hs ha hnew hL hx
    · cases hc'
      obtain ⟨L, ri, -, hri, hrop, -⟩ := ht.root_dir
      exact ⟨Ne.symm (hne ⟨ri, hri, hrop⟩), child, h.buf_child, hnew.op_eq⟩
    · obtain ⟨hroot, hram⟩ := ht.child b L₀ x c' hL₀ hx₀ hc'
      exact ⟨hroot, h.ramInode hram⟩
  · intro b b' L L' x x' hL hL' hx hx' heq
    have hold {b : BufId} {L : List Listed} {x : Listed} (hL : Lists s b L) (hx : x ∈ L) :
        x.2.2 ≠ some c := by
      intro hxc
      apply hne (ht.child b L x c hL hx hxc).2 rfl
    obtain ⟨rfl, rfl⟩ | ⟨L₀, hL₀, hx₀⟩ := h.mem_lists hs ha hnew hL hx
    · obtain ⟨-, rfl⟩ | ⟨L₀', hL₀', hx₀'⟩ := h.mem_lists hs ha hnew hL' hx'
      · rfl
      · cases hold hL₀' hx₀' heq.symm
    · obtain ⟨-, rfl⟩ | ⟨L₀', hL₀', hx₀'⟩ := h.mem_lists hs ha hnew hL' hx'
      · cases hold hL₀ hx₀ heq
      · apply ht.unique b b' L₀ L₀' x x' hL₀ hL₀' hx₀ hx₀' heq
  · intro b L x hL hx
    obtain ⟨rfl, rfl⟩ | ⟨L₀, hL₀, hx₀⟩ := h.mem_lists hs ha hnew hL hx
    · apply hname
    · apply ht.names b L₀ x hL₀ hx₀
  · intro b e he
    obtain rfl | ⟨e₀, he₀⟩ := h.dirent_cases he
    · exact ⟨dir, _, (b, name, some c), h.lists_dir ⟨i, l, hi, hop, hdir, hl, rfl⟩, by simp, rfl⟩
    · obtain ⟨b', L, x, hL, hx, hxb⟩ := ht.listed b e₀ he₀
      obtain ⟨L', hL', hsub⟩ := h.exists_lists ha hL
      exact ⟨b', L', x, hL', hsub hx, hxb⟩

end Created

end Mosnix.Fs
