import Mosnix.Fs.References

/-!
# The tree of the RAM file system

The entries of a directory of the RAM file system, and the walk along a path through such
directories.  A mount point has no entries here: a lookup in it goes to the file system that is
mounted there.

A path is the string that `inode_lookup` has left to read.  `Parent s node path dir name` says that
the walk from `node` along `path` arrives at the directory `dir` when it comes to the last component
`name`.  References do not change the tree.
-/

namespace Mosnix.Fs

open Fat Program

variable {σ : Type} {sd : SdDriver σ} {s s' : FileSystem σ} {b c dir node : BufId} {i : Inode}
  {name path : List Byte} {held infos : List BufId}

/-! ### Entries -/

/-- The inode `i` is that of a directory of the RAM file system that is not a mount point. -/
structure RamDir (s : FileSystem σ) (dir : BufId) (i : Inode) : Prop where
  buf_eq : s.buf dir = .inode i
  op_eq : i.op = .ramfs
  isDir : S_ISDIR i.mode = true
  unmounted : isMounted i.mode = false

/-- The first entry with the name `name` of the directory `dir` is for the inode `c`. -/
def Entry (s : FileSystem σ) (dir : BufId) (name : List Byte) (c : BufId) : Prop :=
  ∃ i l₁ e l₂, RamDir s dir i ∧ Chain s i.ramfsDir (l₁ ++ e :: l₂) ∧ e.2.name = name
    ∧ e.2.inode = some c ∧ ∀ e' ∈ l₁, e'.2.name ≠ name

/-- No entry of the directory `dir` has the name `name`. -/
def Vacant (s : FileSystem σ) (dir : BufId) (name : List Byte) : Prop :=
  ∀ i l, RamDir s dir i → Chain s i.ramfsDir l → ∀ e ∈ l, e.2.name ≠ name

section Chain

variable {p : Option BufId} {l : List (BufId × RamfsDirent)} {fuel : ℕ}

/-- No entry of a directory has the name. -/
theorem ramfsLookupLoop_of_notMem (h : Chain s p l) (hfuel : l.length ≤ fuel)
    (hname : ∀ e ∈ l, e.2.name ≠ name) :
  ramfsLookupLoop name fuel p s = some ((-ENOENT, none), s)
  := by
  induction l generalizing p fuel with
  | nil =>
      cases h
      cases fuel with
      | zero => rfl
      | succ n => rfl
  | cons e l ih =>
      obtain ⟨rfl, he, hl⟩ := h
      cases fuel with
      | zero => simp at hfuel
      | succ n =>
          change (readDirent e.1 s).bind _ = _
          rw [readDirent_eq he]
          change (if e.2.name = name then _ else _ : FsM σ (Int × Option BufId)) s = _
          rw [if_neg (hname e (by simp))]
          apply ih hl (by simpa using hfuel)
          intro e' he'
          apply hname e' (by simp [he'])

/-- The first entry of a directory that has the name. -/
theorem ramfsLookupLoop_of_mem {l₁ l₂ : List (BufId × RamfsDirent)} {e : BufId × RamfsDirent}
    {ci : Inode} (h : Chain s p (l₁ ++ e :: l₂)) (hfuel : (l₁ ++ e :: l₂).length ≤ fuel)
    (hname : ∀ e' ∈ l₁, e'.2.name ≠ name) (he : e.2.name = name) (hc : e.2.inode = some c)
    (hci : s.buf c = .inode ci) :
  ramfsLookupLoop name fuel p s
    = some ((0, some c), s.set c (.inode { ci with count := ci.count + 1 }))
  := by
  induction l₁ generalizing p fuel with
  | nil =>
      obtain ⟨rfl, hbuf, -⟩ := h
      cases fuel with
      | zero => simp at hfuel
      | succ n =>
          change (readDirent e.1 s).bind _ = _
          rw [readDirent_eq hbuf]
          change (if e.2.name = name then _ else _ : FsM σ (Int × Option BufId)) s = _
          rw [if_pos he, hc]
          change (inodeRef c s).bind _ = _
          rw [inodeRef_eq hci]
          rfl
  | cons e' l₁ ih =>
      obtain ⟨rfl, hbuf, hl⟩ := h
      cases fuel with
      | zero => simp at hfuel
      | succ n =>
          change (readDirent e'.1 s).bind _ = _
          rw [readDirent_eq hbuf]
          change (if e'.2.name = name then _ else _ : FsM σ (Int × Option BufId)) s = _
          rw [if_neg (hname e' (by simp))]
          apply ih hl (by simpa using hfuel)
          intro e'' he''
          apply hname e'' (by simp [he''])

end Chain

/-- The first entry of a list that has a name, if there is one. -/
theorem exists_first_name (name : List Byte) (l : List (BufId × RamfsDirent)) :
  (∀ e ∈ l, e.2.name ≠ name)
    ∨ ∃ l₁ e l₂, l = l₁ ++ e :: l₂ ∧ e.2.name = name ∧ ∀ e' ∈ l₁, e'.2.name ≠ name
  := by
  induction l with
  | nil => simp
  | cons e l ih =>
      by_cases he : e.2.name = name
      · right
        exact ⟨[], e, l, rfl, he, by simp⟩
      · obtain hall | ⟨l₁, e', l₂, rfl, he', hl₁⟩ := ih
        · left
          simpa [he] using hall
        · right
          refine ⟨e :: l₁, e', l₂, rfl, he', ?_⟩
          simpa [he] using hl₁

/-- A lookup in a directory that is not a mount point searches its entries. -/
theorem RamDir.ramfsLookup_eq (h : RamDir s dir i) (sd : SdDriver σ) (name : List Byte) :
  ramfsLookup sd dir name s = ramfsLookupLoop name CONFIG_NUM_BUFFERS i.ramfsDir s
  := by
  change (readInode dir s).bind _ = _
  rw [readInode_eq h.buf_eq]
  change (if ¬ S_ISDIR i.mode = true then _ else if isMounted i.mode = true then _ else _ :
    FsM σ (Int × Option BufId)) s = _
  rw [if_neg (not_not.mpr h.isDir), if_neg (by simp [h.unmounted])]

/-- A name leads to one inode. -/
theorem Entry.unique {c' : BufId} (h : Entry s dir name c) (h' : Entry s dir name c') : c = c' := by
  obtain ⟨i, l₁, e, l₂, hdir, hl, he, hc, hl₁⟩ := h
  obtain ⟨i', l₁', e', l₂', hdir', hl', he', hc', hl₁'⟩ := h'
  have hfirst {l l' : List (BufId × RamfsDirent)} {x : BufId × RamfsDirent} (hx : x.2.name = name)
      (hl : ∀ e ∈ l, e.2.name ≠ name) : (l ++ x :: l').find? (·.2.name = name) = some x := by
    rw [List.find?_append, List.find?_eq_none.mpr (by simpa using hl)]
    simp [hx]
  have hi := hdir.buf_eq
  rw [hdir'.buf_eq] at hi
  cases hi
  have hfind : (l₁ ++ e :: l₂).find? (·.2.name = name) = some e := hfirst he hl₁
  rw [hl.unique hl', hfirst he' hl₁'] at hfind
  cases hfind
  rw [hc] at hc'
  cases hc'
  rfl

/-- A name that is found is not vacant. -/
theorem Entry.not_vacant (h : Entry s dir name c) : ¬ Vacant s dir name := by
  obtain ⟨i, l₁, e, l₂, hdir, hl, he, -⟩ := h
  intro hv
  apply hv i _ hdir hl e (by simp) he

/-- A lookup of an entry. -/
theorem Entry.ramfsLookup_eq {ci : Inode} (h : Entry s dir name c) (hci : s.buf c = .inode ci) :
  ramfsLookup sd dir name s
    = some ((0, some c), s.set c (.inode { ci with count := ci.count + 1 }))
  := by
  obtain ⟨i, l₁, e, l₂, hdir, hl, he, hc, hl₁⟩ := h
  rw [hdir.ramfsLookup_eq]
  apply ramfsLookupLoop_of_mem hl hl.length_le hl₁ he hc hci

/-! ### Walks -/

/-- The inode `dir` is a directory that may be searched. -/
def Searchable (s : FileSystem σ) (dir : BufId) : Prop :=
  ∃ i, s.buf dir = .inode i ∧ S_ISDIR i.mode = true ∧ ¬ inodeAccess i X_OK < 0

/-- The length of the first component of a path. -/
abbrev nameLen (path : List Byte) : ℕ := strlenPathComponent path CONFIG_PATH_MAX

/-- The walk from `node` along `path` comes to the last component `name` at the directory `dir`. -/
inductive Parent (s : FileSystem σ) : BufId → List Byte → BufId → List Byte → Prop where
  | last {dir : BufId} {path : List Byte} (hpath : path ≠ []) (hlast : path.drop (nameLen path) = [])
      (hsearch : Searchable s dir) : Parent s dir path dir (path.take (nameLen path))
  | next {node c dir : BufId} {path name : List Byte} (hpath : path ≠ [])
      (hnext : path.drop (nameLen path) ≠ []) (hsearch : Searchable s node)
      (hentry : Entry s node (path.take (nameLen path)) c)
      (hrest : Parent s c (path.drop (nameLen path + 1)) dir name) : Parent s node path dir name

/-- A walk starts at a directory. -/
theorem Parent.searchable (h : Parent s node path dir name) : Searchable s node := by
  cases h with
  | last _ _ hsearch => apply hsearch
  | next _ _ hsearch => apply hsearch

/-- A path leads to one directory. -/
theorem Parent.unique {dir' : BufId} {name' : List Byte} (h : Parent s node path dir name)
    (h' : Parent s node path dir' name') :
  dir = dir' ∧ name = name'
  := by
  induction h with
  | last _ hlast =>
      cases h' with
      | last => exact ⟨rfl, rfl⟩
      | next _ hnext => contradiction
  | next _ hnext _ hentry _ ih =>
      cases h' with
      | last _ hlast => contradiction
      | next _ _ _ hentry' hrest' =>
          obtain rfl := hentry.unique hentry'
          apply ih hrest'

/-- The walk along a path depends only on the entries of the directories and on their modes. -/
theorem Parent.mono (h : Parent s node path dir name)
    (hsearch : ∀ b, Searchable s b → Searchable s' b)
    (hentry : ∀ b n c, Entry s b n c → Entry s' b n c) :
  Parent s' node path dir name
  := by
  induction h with
  | last hpath hlast hs => apply Parent.last hpath hlast (hsearch _ hs)
  | next hpath hnext hs he _ ih => apply Parent.next hpath hnext (hsearch _ hs) (hentry _ _ _ he) ih

/-! ### References -/

namespace Extends

variable (h : Extends s s' held infos)

include h

/-- References do not add directory entries. -/
theorem dirent_iff {e : RamfsDirent} :
  s'.buf b = .dirent e ↔ s.buf b = .dirent e
  := by
  constructor
  · intro he
    by_cases hraw : s.buf b = .raw
    · cases h.new b hraw with
      | raw hbuf => simp [hbuf] at he
      | inode i hbuf => simp [hbuf] at he
      | owned b' i hfree hbuf hinfo =>
          obtain ⟨j, x, hj, -, hx, -⟩ := h.owner b' i hfree hbuf
          rw [hinfo] at hj
          cases hj
          simp [hx] at he
      | info hmem =>
          obtain ⟨-, x, hx⟩ := h.infos_new b hmem
          simp [hx] at he
    · rw [h.old b hraw] at he
      cases hb : s.buf b with
      | dirent e' =>
          rw [hb] at he
          apply he
      | _ =>
          rw [hb] at he
          cases he
  · apply h.dirent_eq

theorem chain_iff {p : Option BufId} {l : List (BufId × RamfsDirent)} :
  Chain s' p l ↔ Chain s p l
  := by
  constructor
  · intro hl
    apply hl.congr
    intro b e
    apply h.dirent_iff.mp
  · intro hl
    apply hl.congr
    intro b e
    apply h.dirent_eq

/-- The inode of the RAM file system with references in addition. -/
theorem ramfs_inode (hi : s'.buf b = .inode i) (hop : i.op = .ramfs) :
  ∃ i₀, s.buf b = .inode i₀ ∧ i = { i₀ with count := i₀.count + held.count b }
  := by
  obtain hold | ⟨-, hfat, -⟩ := h.inode_cases hi
  · apply hold
  · rw [hop] at hfat
    cases hfat

theorem ramDir (hdir : RamDir s dir i) :
  RamDir s' dir { i with count := i.count + held.count dir }
  :=
  ⟨h.inode_eq hdir.buf_eq, hdir.op_eq, hdir.isDir, hdir.unmounted⟩

/-- The entries do not depend on the references. -/
theorem entry_iff : Entry s' dir name c ↔ Entry s dir name c := by
  constructor
  · rintro ⟨i, l₁, e, l₂, hdir, hl, he, hc, hl₁⟩
    obtain ⟨i₀, hi₀, rfl⟩ := h.ramfs_inode hdir.buf_eq hdir.op_eq
    exact ⟨i₀, l₁, e, l₂, ⟨hi₀, hdir.op_eq, hdir.isDir, hdir.unmounted⟩, h.chain_iff.mp hl, he, hc,
      hl₁⟩
  · rintro ⟨i, l₁, e, l₂, hdir, hl, he, hc, hl₁⟩
    exact ⟨_, l₁, e, l₂, h.ramDir hdir, h.chain_iff.mpr hl, he, hc, hl₁⟩

theorem vacant (hv : Vacant s' dir name) : Vacant s dir name := by
  intro i l hdir hl
  apply hv _ l (h.ramDir hdir) (h.chain_iff.mpr hl)

theorem searchable (hb : Searchable s b) : Searchable s' b := by
  obtain ⟨i, hi, hdir, haccess⟩ := hb
  exact ⟨_, h.inode_eq hi, hdir, haccess⟩

/-- References do not change whether a directory may be searched. -/
theorem searchable_of_ne_raw (hb : Searchable s' b) (hne : s.buf b ≠ .raw) :
  Searchable s b
  := by
  obtain ⟨i, hi, hdir, haccess⟩ := hb
  obtain ⟨i₀, hi₀, rfl⟩ | ⟨hraw, -⟩ := h.inode_cases hi
  · exact ⟨i₀, hi₀, hdir, haccess⟩
  · contradiction

end Extends

end Mosnix.Fs
