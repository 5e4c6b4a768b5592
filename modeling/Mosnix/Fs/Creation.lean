import Mosnix.Fs.Neutral

/-!
# Creating a node

What the creation of a node changes: the directory has one more entry, at its end, and the other
directories are as before.  The new node is found by a lookup, unless it was created in a mount
point, and the names in a directory stay distinct.
-/

namespace Mosnix.Fs

open Fat Program

variable {σ : Type} {sd : SdDriver σ} {s s' : FileSystem σ} {b c d dir node : BufId} {i child : Inode}
  {name path : List Byte} {held infos : List BufId}

/-! ### Directories -/

/-- A directory entry: its buffer, its name and its inode. -/
abbrev Listed := BufId × List Byte × Option BufId

/-- The entry in a buffer. -/
abbrev listed (e : BufId × RamfsDirent) : Listed := (e.1, e.2.name, e.2.inode)

/-- The directory `dir` of the RAM file system has the entries `L`. -/
def Lists (s : FileSystem σ) (dir : BufId) (L : List Listed) : Prop :=
  ∃ i l, s.buf dir = .inode i ∧ i.op = .ramfs ∧ S_ISDIR i.mode = true ∧ Chain s i.ramfsDir l
    ∧ L = l.map listed

/-- No entry is in two directories. -/
def Apart (s : FileSystem σ) : Prop :=
  ∀ dir dir' L L' x x', Lists s dir L → Lists s dir' L' → x ∈ L → x' ∈ L' → x.1 = x'.1 → dir = dir'

/-- No directory has two entries with the same name. -/
def Distinct (s : FileSystem σ) : Prop :=
  ∀ dir L, Lists s dir L → (L.map fun x => x.2.1).Nodup

variable {L : List Listed}

/-- A directory has one list. -/
theorem Lists.unique {L' : List Listed} (h : Lists s dir L) (h' : Lists s dir L') : L = L' := by
  obtain ⟨i, l, hi, -, -, hl, rfl⟩ := h
  obtain ⟨i', l', hi', -, -, hl', rfl⟩ := h'
  rw [hi] at hi'
  cases hi'
  rw [hl.unique hl']

/-- A directory of a well-formed file system has entries. -/
theorem WellFormed.exists_lists (hs : WellFormed s) (hi : s.buf dir = .inode i)
    (hop : i.op = .ramfs) (hdir : S_ISDIR i.mode = true) :
  ∃ L, Lists s dir L
  := by
  obtain ⟨l, hl, -⟩ := (hs.inodeOk dir i hi).chain hop hdir
  exact ⟨_, i, l, hi, hop, hdir, hl, rfl⟩

/-- The entries of a directory that is not a mount point, in terms of its list. -/
theorem entry_iff_lists :
  Entry s dir name c ↔ (∃ i, RamDir s dir i) ∧ ∃ L₁ x L₂, Lists s dir (L₁ ++ x :: L₂)
    ∧ x.2 = (name, some c) ∧ ∀ y ∈ L₁, y.2.1 ≠ name
  := by
  constructor
  · rintro ⟨i, l₁, e, l₂, hdir, hl, rfl, hc, hl₁⟩
    refine ⟨⟨i, hdir⟩, l₁.map listed, listed e, l₂.map listed, ?_, by simp [hc], ?_⟩
    · exact ⟨i, _, hdir.buf_eq, hdir.op_eq, hdir.isDir, hl, by simp⟩
    · intro y hy
      obtain ⟨e', he', rfl⟩ := List.mem_map.mp hy
      apply hl₁ e' he'
  · rintro ⟨⟨i, hdir⟩, L₁, x, L₂, ⟨i', l, hi', -, -, hl, hL⟩, hx, hL₁⟩
    have heq := hdir.buf_eq
    rw [hi'] at heq
    cases heq
    obtain ⟨l₁, l', rfl, rfl, hl'⟩ := List.append_eq_map_iff.mp hL
    obtain ⟨e, l₂, rfl, rfl, rfl⟩ := List.map_eq_cons_iff.mp hl'
    simp only [Prod.mk.injEq] at hx
    refine ⟨i, l₁, e, l₂, hdir, hl, hx.1, hx.2, ?_⟩
    intro e' he'
    apply hL₁ _ (List.mem_map_of_mem he')

/-- References do not change the entries of directories. -/
theorem Extends.lists_iff (h : Extends s s' held infos) :
  Lists s' dir L ↔ Lists s dir L
  := by
  constructor
  · rintro ⟨i, l, hi, hop, hdir, hl, rfl⟩
    obtain ⟨i₀, hi₀, rfl⟩ := h.ramfs_inode hi hop
    exact ⟨i₀, l, hi₀, hop, hdir, h.chain_iff.mp hl, rfl⟩
  · rintro ⟨i, l, hi, hop, hdir, hl, rfl⟩
    exact ⟨_, l, h.inode_eq hi, hop, hdir, h.chain_iff.mpr hl, rfl⟩

theorem Extends.apart_iff (h : Extends s s' held infos) : Apart s' ↔ Apart s := by
  simp only [Apart, h.lists_iff]

theorem Extends.distinct_iff (h : Extends s s' held infos) : Distinct s' ↔ Distinct s := by
  simp only [Distinct, h.lists_iff]

/-! ### The new entry -/

section Chain

variable {p : Option BufId} {l : List (BufId × RamfsDirent)} {e : BufId × RamfsDirent}
  {new : RamfsDirent}

/-- A chain depends only on its own entries. -/
theorem Chain.congr_mem (h : Chain s p l) (hbuf : ∀ e ∈ l, s'.buf e.1 = .dirent e.2) :
  Chain s' p l
  := by
  induction l generalizing p with
  | nil => exact h
  | cons e l ih =>
      obtain ⟨hp, -, hl⟩ := h
      refine ⟨hp, hbuf e (by simp), ih hl ?_⟩
      intro e' he'
      apply hbuf e' (by simp [he'])

/-- An entry is linked to the last entry of a chain. -/
theorem Chain.link (h : Chain s p (l ++ [e])) (hbuf : ∀ e' ∈ l, s'.buf e'.1 = .dirent e'.2)
    (he : s'.buf e.1 = .dirent { e.2 with next := some d }) (hd : s'.buf d = .dirent new)
    (hnew : new.next = none) :
  Chain s' p (l ++ [(e.1, { e.2 with next := some d }), (d, new)])
  := by
  induction l generalizing p with
  | nil => exact ⟨h.1, he, rfl, hd, hnew⟩
  | cons e' l ih =>
      obtain ⟨hp, -, hl⟩ := h
      refine ⟨hp, hbuf e' (by simp), ih hl ?_⟩
      intro e'' he''
      apply hbuf e'' (by simp [he''])

theorem Chain.buf_eq_of_mem (h : Chain s p l) (he : e ∈ l) : s.buf e.1 = .dirent e.2 := by
  obtain ⟨l₁, l₂, rfl⟩ := List.append_of_mem he
  exact h.suffix.2.1

end Chain

namespace Created

variable (h : Created s s' dir name child d c)

include h

/-- A buffer that is in use is not one of the new ones. -/
theorem ne_of_ne_raw (hb : s.buf b ≠ .raw) :
  b ≠ d ∧ b ≠ c
  := by
  constructor
  · rintro rfl
    apply hb h.dirent_raw
  · rintro rfl
    apply hb h.inode_raw

theorem buf_dirent :
  s'.buf d = .dirent { name := name, inode := some c }
  := by
  obtain ⟨i, l, -, -, -, -, hbuf⟩ := h.buf_eq
  simp [hbuf, h.ne]

/-- The buffers that are changed by the link to the new entry. -/
theorem buf_eq_of_ne (hd : b ≠ d) (hc : b ≠ c) (hdir : b ≠ dir)
    (hL : ∀ L, Lists s dir L → ∀ x ∈ L, x.1 ≠ b) :
  s'.buf b = s.buf b
  := by
  obtain ⟨i, l, hi, hop, hisdir, hl, hbuf⟩ := h.buf_eq
  rw [hbuf, Function.update_of_ne hc, Function.update_of_ne hd]
  cases l using List.reverseRecOn with
  | nil => simp [linkEntry, hdir]
  | append_singleton l e =>
      have hne : e.1 ≠ b := hL _ ⟨i, _, hi, hop, hisdir, hl, rfl⟩ (listed e) (by simp)
      simp [linkEntry, Ne.symm hne]

/-- An inode keeps its contents, except for the first entry of the directory. -/
theorem inode_eq (hb : s.buf b = .inode i) :
  ∃ p, s'.buf b = .inode { i with ramfsDir := p } ∧ (b ≠ dir → p = i.ramfsDir)
  := by
  obtain ⟨hbd, hbc⟩ := h.ne_of_ne_raw (show s.buf b ≠ .raw by simp [hb])
  by_cases hdir : b = dir
  · obtain ⟨i', l, hi', -, -, hl, hbuf⟩ := h.buf_eq
    rw [← hdir, hb] at hi'
    cases hi'
    rw [hbuf, Function.update_of_ne hbc, Function.update_of_ne hbd]
    cases l using List.reverseRecOn with
    | nil => exact ⟨some d, by simp [linkEntry, hdir], fun hne => absurd hdir hne⟩
    | append_singleton l e =>
        have he : s.buf e.1 = .dirent e.2 := hl.suffix.2.1
        have hne : b ≠ e.1 := by
          rintro rfl
          simp [hb] at he
        exact ⟨i.ramfsDir, by simp [linkEntry, hne, hb], fun _ => rfl⟩
  · refine ⟨i.ramfsDir, ?_, fun _ => rfl⟩
    rw [h.buf_eq_of_ne hbd hbc hdir, hb]
    rintro L ⟨i', l, -, -, -, hl, rfl⟩ x hx rfl
    obtain ⟨e, he, rfl⟩ := List.mem_map.mp hx
    have hbuf := hl.buf_eq_of_mem he
    rw [hb] at hbuf
    cases hbuf

/-- An inode is the new one, or it was there. -/
theorem inode_cases (hb : s'.buf b = .inode i) :
  b = c ∧ i = child
    ∨ ∃ i₀ p, s.buf b = .inode i₀ ∧ i = { i₀ with ramfsDir := p } ∧ (b ≠ dir → p = i₀.ramfsDir)
  := by
  by_cases hbc : b = c
  · left
    rw [hbc, h.buf_child] at hb
    exact ⟨hbc, (Buffer.inode.inj hb).symm⟩
  · right
    have hbd : b ≠ d := by
      rintro rfl
      rw [h.buf_dirent] at hb
      cases hb
    have hold : ∃ i₀, s.buf b = .inode i₀ := by
      obtain ⟨i', l, hi', -, -, -, hbuf⟩ := h.buf_eq
      rw [hbuf, Function.update_of_ne hbc, Function.update_of_ne hbd] at hb
      by_cases hdir : b = dir
      · exact ⟨i', by rw [hdir, hi']⟩
      · cases l using List.reverseRecOn with
        | nil => exact ⟨i, by simpa [linkEntry, hdir] using hb⟩
        | append_singleton l e =>
            have hne : b ≠ e.1 := by
              rintro rfl
              simp [linkEntry] at hb
            exact ⟨i, by simpa [linkEntry, hne] using hb⟩
    obtain ⟨i₀, hi₀⟩ := hold
    obtain ⟨p, hp, hne⟩ := h.inode_eq hi₀
    rw [hb] at hp
    exact ⟨i₀, p, hi₀, Buffer.inode.inj hp, hne⟩

theorem info_eq {x : FatfsInodeInfo} (hb : s.buf b = .info x) :
  s'.buf b = .info x
  := by
  obtain ⟨hbd, hbc⟩ := h.ne_of_ne_raw (show s.buf b ≠ .raw by simp [hb])
  obtain ⟨i, l, hi, -, -, -, -⟩ := h.buf_eq
  rw [h.buf_eq_of_ne hbd hbc, hb]
  · rintro rfl
    simp [hb] at hi
  · rintro L ⟨i', l', -, -, -, hl, rfl⟩ y hy rfl
    obtain ⟨e, he, rfl⟩ := List.mem_map.mp hy
    have hbuf := hl.buf_eq_of_mem he
    rw [hb] at hbuf
    cases hbuf

/-- Two buffers are taken. -/
theorem raw_iff :
  s'.buf b = .raw ↔ s.buf b = .raw ∧ b ≠ d ∧ b ≠ c
  := by
  by_cases hbc : b = c
  · simp [hbc, h.buf_child]
  · by_cases hbd : b = d
    · simp [hbd, h.buf_dirent]
    · obtain ⟨i, l, hi, -, -, hl, hbuf⟩ := h.buf_eq
      rw [hbuf, Function.update_of_ne hbc, Function.update_of_ne hbd]
      cases l using List.reverseRecOn with
      | nil =>
          by_cases hdir : b = dir
          · simp [linkEntry, hdir, hi]
          · simp [linkEntry, hdir, hbc, hbd]
      | append_singleton l e =>
          have he : s.buf e.1 = .dirent e.2 := hl.suffix.2.1
          by_cases hbe : b = e.1
          · simp [linkEntry, hbe, he]
          · simp [linkEntry, hbe, hbc, hbd]

/-! ### The directories after a creation -/

/-- The directory has one more entry. -/
theorem lists_dir (hL : Lists s dir L) :
  Lists s' dir (L ++ [(d, name, some c)])
  := by
  obtain ⟨i, l, hi, hop, hisdir, hl, hbuf⟩ := h.buf_eq
  obtain rfl := hL.unique ⟨i, l, hi, hop, hisdir, hl, rfl⟩
  obtain ⟨hdird, hdirc⟩ := h.ne_of_ne_raw (show s.buf dir ≠ .raw by simp [hi])
  cases l using List.reverseRecOn with
  | nil =>
      refine ⟨{ i with ramfsDir := some d }, [(d, { name := name, inode := some c })], ?_, hop,
        hisdir, ⟨rfl, h.buf_dirent, rfl⟩, rfl⟩
      simp [hbuf, linkEntry, hdird, hdirc]
  | append_singleton l e =>
      have he : s.buf e.1 = .dirent e.2 := hl.suffix.2.1
      have hdire : dir ≠ e.1 := by
        rintro rfl
        simp [hi] at he
      obtain ⟨hed, hec⟩ := h.ne_of_ne_raw (show s.buf e.1 ≠ .raw by simp [he])
      have hdir : s'.buf dir = .inode i := by simp [hbuf, linkEntry, hdird, hdirc, hdire, hi]
      have hlast : s'.buf e.1 = .dirent { e.2 with next := some d } := by
        simp [hbuf, linkEntry, hed, hec]
      refine ⟨i, _, hdir, hop, hisdir, hl.link ?_ hlast h.buf_dirent rfl, by simp⟩
      intro e' he'
      have hbuf' := hl.buf_eq_of_mem (List.mem_append_left [e] he')
      obtain ⟨hed', hec'⟩ := h.ne_of_ne_raw (show s.buf e'.1 ≠ .raw by simp [hbuf'])
      have hne : e'.1 ≠ e.1 := by
        have hnodup := hl.nodup
        rw [List.map_append, List.nodup_append] at hnodup
        apply hnodup.2.2 _ (List.mem_map_of_mem he')
        simp
      simp [hbuf, linkEntry, hed', hec', hne, hbuf']

/-- The other directories have the same entries. -/
theorem lists_of_ne (ha : Apart s) (hL : Lists s b L) (hb : b ≠ dir) :
  Lists s' b L
  := by
  have hL' := hL
  obtain ⟨i, l, hi, hop, hisdir, hl, rfl⟩ := hL
  obtain ⟨p, hp, heq⟩ := h.inode_eq hi
  rw [heq hb] at hp
  refine ⟨i, l, hp, hop, hisdir, hl.congr_mem ?_, rfl⟩
  intro e he
  have hbuf := hl.buf_eq_of_mem he
  obtain ⟨hed, hec⟩ := h.ne_of_ne_raw (show s.buf e.1 ≠ .raw by simp [hbuf])
  obtain ⟨i', l', hi', -⟩ := h.buf_eq
  rw [h.buf_eq_of_ne hed hec, hbuf]
  · rintro rfl
    simp [hi'] at hbuf
  · intro L hL x hx hxe
    apply hb
    apply ha b dir _ L (listed e) x hL' hL _ hx hxe.symm
    apply List.mem_map_of_mem he

end Created

/-- A new inode of the RAM file system. -/
structure IsNew (i : Inode) : Prop where
  op_eq : i.op = .ramfs
  count_pos : 1 ≤ i.count
  dir_eq : i.ramfsDir = none
  mount_eq : i.ramfsMount = none

/-- The entries of a directory have inodes. -/
theorem WellFormed.lists_inode (hs : WellFormed s) (hL : Lists s dir L) :
  ∀ x ∈ L, ∃ c ci, x.2.2 = some c ∧ s.buf c = .inode ci
  := by
  obtain ⟨i, l, hi, hop, hdir, hl, rfl⟩ := hL
  obtain ⟨l', hl', hinodes⟩ := (hs.inodeOk dir i hi).chain hop hdir
  rw [hl'.unique hl] at hinodes
  intro x hx
  obtain ⟨e, he, rfl⟩ := List.mem_map.mp hx
  apply hinodes e he

theorem Lists.chain (hL : Lists s dir L) (hi : s.buf dir = .inode i)
    (hinodes : ∀ x ∈ L, ∃ c ci, x.2.2 = some c ∧ s.buf c = .inode ci) :
  ∃ l, Chain s i.ramfsDir l ∧ ∀ e ∈ l, ∃ c ci, e.2.inode = some c ∧ s.buf c = .inode ci
  := by
  obtain ⟨i', l, hi', -, -, hl, rfl⟩ := hL
  rw [hi] at hi'
  cases hi'
  refine ⟨l, hl, ?_⟩
  intro e he
  apply hinodes (listed e) (List.mem_map_of_mem he)

namespace Created

variable (h : Created s s' dir name child d c)

include h

/-- A new directory has no entries. -/
theorem lists_child (hnew : IsNew child) (hdir : S_ISDIR child.mode = true) :
  Lists s' c []
  :=
  ⟨child, [], h.buf_child, hnew.op_eq, hdir, hnew.dir_eq, rfl⟩

/-- The entries of the directories after a creation. -/
theorem lists_cases (hs : WellFormed s) (ha : Apart s) (hnew : IsNew child) {L' : List Listed}
    (hL' : Lists s' b L') :
  (b = dir ∧ ∃ L, Lists s dir L ∧ L' = L ++ [(d, name, some c)]) ∨ (b = c ∧ L' = [])
    ∨ b ≠ dir ∧ Lists s b L'
  := by
  have hinv := hL'
  obtain ⟨i, l, hi, hop, hisdir, -, -⟩ := hinv
  obtain ⟨rfl, rfl⟩ | ⟨i₀, p, hi₀, rfl, -⟩ := h.inode_cases hi
  · right
    left
    exact ⟨rfl, hL'.unique (h.lists_child hnew hisdir)⟩
  · obtain ⟨L, hL⟩ := hs.exists_lists hi₀ hop hisdir
    by_cases hb : b = dir
    · left
      rw [hb] at hL hL'
      exact ⟨hb, L, hL, hL'.unique (h.lists_dir hL)⟩
    · right
      right
      rw [hL'.unique (h.lists_of_ne ha hL hb)]
      exact ⟨hb, hL⟩

/-- The file system stays well formed. -/
theorem wellFormed (hs : WellFormed s) (ha : Apart s) (hnew : IsNew child) :
  WellFormed s'
  where
  free_nodup := h.free_nodup
  mem_free b := by rw [h.mem_free, hs.mem_free, h.raw_iff]
  root := by
    obtain ⟨i, hi⟩ := hs.root
    obtain ⟨p, hp, -⟩ := h.inode_eq hi
    rw [h.root_eq]
    exact ⟨_, hp⟩
  inodeOk b i hi := by
    obtain ⟨rfl, rfl⟩ | ⟨i₀, p, hi₀, rfl, hp⟩ := h.inode_cases hi
    · refine ⟨hnew.count_pos, ?_, fun _ _ => ⟨[], hnew.dir_eq, by simp⟩, ?_⟩
      · intro hop
        rw [hnew.op_eq] at hop
        cases hop
      · intro _ _ m hm
        rw [hnew.mount_eq] at hm
        cases hm
    · have hok := hs.inodeOk b i₀ hi₀
      refine ⟨hok.count_pos, ?_, ?_, ?_⟩
      · intro hop
        obtain ⟨j, x, hj, hx⟩ := hok.info hop
        exact ⟨j, x, hj, h.info_eq hx⟩
      · intro hop hisdir
        obtain ⟨L, hL⟩ := hs.exists_lists hi₀ hop hisdir
        have hold : ∀ x ∈ L, ∃ c ci, x.2.2 = some c ∧ s'.buf c = .inode ci := by
          intro x hx
          obtain ⟨c', ci, hc', hci⟩ := hs.lists_inode hL x hx
          obtain ⟨p, hp, -⟩ := h.inode_eq hci
          exact ⟨c', _, hc', hp⟩
        by_cases hb : b = dir
        · rw [hb] at hL hi
          apply (h.lists_dir hL).chain hi
          intro x hx
          obtain hx | hx := List.mem_append.mp hx
          · apply hold x hx
          · rw [List.mem_singleton.mp hx]
            exact ⟨c, child, rfl, h.buf_child⟩
        · apply (h.lists_of_ne ha hL hb).chain hi hold
      · intro hop hisdir m hm
        obtain ⟨mi, hmi, hfat⟩ := hok.mount hop hisdir m hm
        obtain ⟨q, hq, -⟩ := h.inode_eq hmi
        exact ⟨_, hq, hfat⟩

/-- The new entry is in no other directory. -/
theorem notMem_lists (hL : Lists s b L) :
  ∀ x ∈ L, x.1 ≠ d
  := by
  obtain ⟨i, l, -, -, -, hl, rfl⟩ := hL
  intro x hx hxd
  obtain ⟨e, he, rfl⟩ := List.mem_map.mp hx
  have hbuf := hl.buf_eq_of_mem he
  rw [hxd, h.dirent_raw] at hbuf
  cases hbuf

/-- The lists of the directories stay apart. -/
theorem apart (hs : WellFormed s) (ha : Apart s) (hnew : IsNew child) :
  Apart s'
  := by
  intro b b' L L' x x' hL hL' hx hx' heq
  obtain ⟨rfl, L₀, hL₀, rfl⟩ | ⟨-, rfl⟩ | ⟨hb, hL₀⟩ := h.lists_cases hs ha hnew hL
  · obtain ⟨rfl, -⟩ | ⟨-, rfl⟩ | ⟨-, hL₀'⟩ := h.lists_cases hs ha hnew hL'
    · rfl
    · simp at hx'
    · obtain hx | hx := List.mem_append.mp hx
      · apply ha _ _ L₀ L' x x' hL₀ hL₀' hx hx' heq
      · rw [List.mem_singleton.mp hx] at heq
        cases h.notMem_lists hL₀' x' hx' heq.symm
  · simp at hx
  · obtain ⟨rfl, L₀', hL₀', rfl⟩ | ⟨-, rfl⟩ | ⟨-, hL₀'⟩ := h.lists_cases hs ha hnew hL'
    · obtain hx' | hx' := List.mem_append.mp hx'
      · apply ha _ _ L L₀' x x' hL₀ hL₀' hx hx' heq
      · rw [List.mem_singleton.mp hx'] at heq
        cases h.notMem_lists hL₀ x hx heq
    · simp at hx'
    · apply ha _ _ L L' x x' hL₀ hL₀' hx hx' heq

/-- The names stay distinct if the name is new. -/
theorem distinct (hs : WellFormed s) (ha : Apart s) (hnew : IsNew child) (hd : Distinct s)
    (hname : ∀ L, Lists s dir L → ∀ x ∈ L, x.2.1 ≠ name) :
  Distinct s'
  := by
  intro b L hL
  obtain ⟨-, L₀, hL₀, rfl⟩ | ⟨-, rfl⟩ | ⟨-, hL₀⟩ := h.lists_cases hs ha hnew hL
  · rw [List.map_append, List.nodup_append]
    refine ⟨hd dir L₀ hL₀, by simp, ?_⟩
    intro n hn n' hn'
    obtain ⟨x, hx, rfl⟩ := List.mem_map.mp hn
    rw [List.map_singleton, List.mem_singleton] at hn'
    rw [hn']
    apply hname L₀ hL₀ x hx
  · simp
  · apply hd b L hL₀

/-! ### The walk to the new node -/

/-- A directory that could be searched still can be. -/
theorem searchable (hb : Searchable s b) :
  Searchable s' b
  := by
  obtain ⟨i, hi, hisdir, haccess⟩ := hb
  obtain ⟨p, hp, -⟩ := h.inode_eq hi
  exact ⟨_, hp, hisdir, haccess⟩

theorem ramDir (hb : RamDir s b i) :
  ∃ i', RamDir s' b i'
  := by
  obtain ⟨p, hp, -⟩ := h.inode_eq hb.buf_eq
  exact ⟨_, hp, hb.op_eq, hb.isDir, hb.unmounted⟩

/-- The entries that were there are found. -/
theorem entry (ha : Apart s) {n : List Byte} {c' : BufId} (he : Entry s b n c') :
  Entry s' b n c'
  := by
  rw [entry_iff_lists] at he ⊢
  obtain ⟨⟨i, hi⟩, L₁, x, L₂, hL, hx, hL₁⟩ := he
  refine ⟨h.ramDir hi, ?_⟩
  by_cases hb : b = dir
  · rw [hb] at hL ⊢
    have hL' := h.lists_dir hL
    rw [List.append_assoc, List.cons_append] at hL'
    exact ⟨L₁, x, _, hL', hx, hL₁⟩
  · exact ⟨L₁, x, L₂, h.lists_of_ne ha hL hb, hx, hL₁⟩

omit h in
/-- No entry of a directory that is not a mount point has the name. -/
theorem name_notMem (hram : RamDir s dir i) (hv : Vacant s dir name) :
  ∀ L, Lists s dir L → ∀ x ∈ L, x.2.1 ≠ name
  := by
  rintro L ⟨i', l, hi', -, -, hl, rfl⟩ x hx
  have heq := hram.buf_eq
  rw [hi'] at heq
  cases heq
  obtain ⟨e, he, rfl⟩ := List.mem_map.mp hx
  apply hv i l hram hl e he

/-- The new entry is found, unless the directory is a mount point. -/
theorem entry_new (hs : WellFormed s) (hram : RamDir s dir i) (hv : Vacant s dir name) :
  Entry s' dir name c
  := by
  obtain ⟨L, hL⟩ := hs.exists_lists hram.buf_eq hram.op_eq hram.isDir
  rw [entry_iff_lists]
  exact ⟨h.ramDir hram, L, _, [], h.lists_dir hL, rfl, name_notMem hram hv L hL⟩

/-- A path to a directory still leads to it. -/
theorem parent (ha : Apart s) (hp : Parent s node path dir name) :
  Parent s' node path dir name
  := by
  apply hp.mono
  · intro b
    apply h.searchable
  · intro b n c'
    apply h.entry ha

end Created

section Lookup

variable {ci : Inode} {wanted : Bool} {oflag mode : Word} {Q : Int × Option BufId → FileSystem σ → Prop}

/-- A directory is not a symbolic link. -/
theorem not_S_ISLNK_of_S_ISDIR {m : Word} (h : S_ISDIR m = true) : S_ISLNK m = false := by
  rw [S_ISDIR, beq_iff_eq] at h
  rw [S_ISLNK, h]
  rfl

/-- The loop of `inode_lookup` at a component of the path that is an entry of a directory. -/
theorem inodeLookupLoop_of_entry {fuel : ℕ} (hs : WellFormed s) (h : Extends s s' [node] [])
    (hpath : path ≠ []) (hsearch : Searchable s node)
    (he : Entry s node (path.take (nameLen path)) c) (hci : s.buf c = .inode ci)
    (hlnk : S_ISLNK ci.mode = false)
    (hQ : ∀ t, Extends s t [c] [] → Ends (if path.drop (nameLen path) = []
      then inodeLookupCheck wanted c oflag mode
      else inodeLookupLoop sd wanted oflag mode fuel c (path.drop (nameLen path + 1))) t Q) :
  Ends (inodeLookupLoop sd wanted oflag mode (fuel + 1) node path) s' Q
  := by
  have he' := h.entry_iff.mpr he
  obtain ⟨i, hi, hdir, haccess⟩ := h.searchable hsearch
  have hop : i.op = .ramfs := by
    obtain ⟨i', -, -, -, hram, -⟩ := he'
    have heq := hram.buf_eq
    rw [hi] at heq
    cases heq
    apply hram.op_eq
  unfold inodeLookupLoop
  rw [if_neg hpath]
  apply Ends.bind_of_eq (readInode_eq hi)
  rw [if_neg (not_not.mpr hdir), if_neg haccess]
  have hci' := h.inode_eq hci
  rw [hop]
  apply Ends.bind_of_eq (he'.ramfsLookup_eq hci')
  dsimp only
  rw [if_neg (by simp [ENOENT]), if_neg (by decide)]
  have h₁ := (h.trans ((h.wellFormed hs).ref hci')).perm (List.Perm.swap node c [])
  apply Ends.bind_discard (h₁.inodeDeref_ends hs)
  intro _ t ht
  apply Ends.bind_of_eq (readInode_eq (ht.inode_eq hci))
  rw [if_neg (by simp [hlnk])]
  apply hQ t ht

/-- The loop of `inode_lookup` along a path to an entry of a directory. -/
theorem Parent.inodeLookupLoop_ends {fuel : ℕ} (hp : Parent s node path dir name)
    (hs : WellFormed s) (h : Extends s s' [node] []) (he : Entry s dir name c)
    (hci : s.buf c = .inode ci) (hlnk : S_ISLNK ci.mode = false) (hfuel : path.length < fuel)
    (hQ : ∀ t, Extends s t [c] [] → Ends (inodeLookupCheck wanted c oflag mode) t Q) :
  Ends (inodeLookupLoop sd wanted oflag mode fuel node path) s' Q
  := by
  induction hp generalizing s' fuel with
  | last hpath hlast hsearch =>
      cases fuel with
      | zero => omega
      | succ n =>
          apply inodeLookupLoop_of_entry hs h hpath hsearch he hci hlnk
          rw [if_pos hlast]
          apply hQ
  | @next node c' dir path name hpath hnext hsearch hentry hrest ih =>
      cases fuel with
      | zero => omega
      | succ n =>
          obtain ⟨ci', hci', hdir, -⟩ := hrest.searchable
          apply inodeLookupLoop_of_entry hs h hpath hsearch hentry hci' (not_S_ISLNK_of_S_ISDIR hdir)
          rw [if_neg hnext]
          intro t ht
          apply ih ht he
          have hpos : 0 < path.length := List.length_pos_of_ne_nil hpath
          rw [List.length_drop]
          omega

/-- `inode_lookup` of an entry of a directory. -/
theorem Parent.inodeLookup_ends {pathname : List Byte}
    (hp : Parent s s.root (pathname.drop 1) dir name) (hs : WellFormed s) (he : Entry s dir name c)
    (hci : s.buf c = .inode ci) (hlnk : S_ISLNK ci.mode = false)
    (hQ : ∀ t, Extends s t [c] [] → Ends (inodeLookupCheck wanted c oflag mode) t Q) :
  Ends (inodeLookup sd wanted pathname oflag mode) s Q
  := by
  apply Ends.bind hs.inodeGetRoot_ends
  rintro _ t ⟨rfl, ht⟩
  apply hp.inodeLookupLoop_ends hs ht he hci hlnk _ hQ
  rw [List.length_drop]
  omega

end Lookup

end Mosnix.Fs
