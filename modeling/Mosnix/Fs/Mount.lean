import Mosnix.Fs.Rest

/-!
# Mounting a file system

A directory of the RAM file system becomes a mount point when its inode gets a pointer to an inode
of the FAT file system and a bit in its mode.  The reference to that inode is then one of the file
system at rest.  The number of a device node is set in the same way, by a store to its inode.
-/

namespace Mosnix.Fs

open Fat Program

variable {σ : Type} {s s' s₀ : FileSystem σ} {b dir j m : BufId} {i i' : Inode}
  {held infos : List BufId} {q : Policy} {x : FatfsInodeInfo}

/-! ### A store to an inode -/

/-- The inode `i'` has the same operations, references and directory entries as `i`, and is a
directory if `i` is. -/
structure SameDir (i i' : Inode) : Prop where
  op_eq : i'.op = i.op
  count_eq : i'.count = i.count
  isDir_eq : S_ISDIR i'.mode = S_ISDIR i.mode
  dir_eq : i'.ramfsDir = i.ramfsDir
  info_eq : i'.fatfsInfo = i.fatfsInfo

namespace SameDir

/-- An inode that stays one. -/
theorem buf_inode (h : SameDir i i') (hi : s.buf b = .inode i) {c : BufId} {ci : Inode}
    (hc : s.buf c = .inode ci) :
  ∃ ci', (s.set b (.inode i')).buf c = .inode ci' ∧ ci'.op = ci.op
  := by
  by_cases hcb : c = b
  · subst hcb
    rw [hi] at hc
    cases hc
    exact ⟨i', FileSystem.set_buf_self, h.op_eq⟩
  · exact ⟨ci, by rw [FileSystem.set_buf_of_ne hcb, hc], rfl⟩

theorem dirent_iff (hi : s.buf b = .inode i) {c : BufId} {e : RamfsDirent} :
  (s.set b (.inode i')).buf c = .dirent e ↔ s.buf c = .dirent e
  := by
  by_cases hcb : c = b
  · simp [hcb, hi]
  · rw [FileSystem.set_buf_of_ne hcb]

theorem chain_iff (hi : s.buf b = .inode i) {p : Option BufId} {l : List (BufId × RamfsDirent)} :
  Chain (s.set b (.inode i')) p l ↔ Chain s p l
  := by
  constructor
  · intro hl
    apply hl.congr
    intro c e
    apply (dirent_iff hi).mp
  · intro hl
    apply hl.congr
    intro c e
    apply (dirent_iff hi).mpr

variable (h : SameDir i i')

include h

/-- The lists of the directories do not depend on the change. -/
theorem lists_iff (hi : s.buf b = .inode i) {L : List Listed} :
  Lists (s.set b (.inode i')) dir L ↔ Lists s dir L
  := by
  by_cases hdir : dir = b
  · subst hdir
    simp [Lists, hi, chain_iff hi, h.op_eq, h.isDir_eq, h.dir_eq]
  · simp [Lists, FileSystem.set_buf_of_ne hdir, chain_iff hi]

theorem ramInode_iff (hi : s.buf b = .inode i) (c : BufId) :
  RamInode (s.set b (.inode i')) c ↔ RamInode s c
  := by
  by_cases hcb : c = b
  · subst hcb
    simp [RamInode, hi, h.op_eq]
  · simp [RamInode, FileSystem.set_buf_of_ne hcb]

/-- The pointers in the other inodes lead to what they should. -/
theorem inodeOk (hi : s.buf b = .inode i) {ci : Inode} (hok : InodeOk s ci) :
  InodeOk (s.set b (.inode i')) ci
  where
  count_pos := hok.count_pos
  info hop := by
    obtain ⟨k, y, hk, hy⟩ := hok.info hop
    refine ⟨k, y, hk, ?_⟩
    rw [FileSystem.set_buf_of_ne, hy]
    rintro rfl
    simp [hi] at hy
  chain hop hdir := by
    obtain ⟨l, hl, hinodes⟩ := hok.chain hop hdir
    refine ⟨l, (chain_iff hi).mpr hl, ?_⟩
    intro e he
    obtain ⟨c, ci, hc, hci⟩ := hinodes e he
    obtain ⟨ci', hci', -⟩ := h.buf_inode hi hci
    exact ⟨c, ci', hc, hci'⟩
  mount hop hdir m hm := by
    obtain ⟨mi, hmi, hfat⟩ := hok.mount hop hdir m hm
    obtain ⟨mi', hmi', hop'⟩ := h.buf_inode hi hmi
    exact ⟨mi', hmi', hop'.trans hfat⟩

/-- A store to an inode of a file system at rest. -/
theorem rest (hs : Rest q s) (hi : s.buf b = .inode i) (hmount : i'.op = .ramfs → S_ISDIR i'.mode = true → ∀ m, i'.ramfsMount = some m →
      ∃ mi, s.buf m = .inode mi ∧ mi.op = .fatfs)
    (hnode : i'.op = .ramfs → NodeOk q s.root b i') :
  Rest q (s.set b (.inode i'))
  where
  wellFormed := by
    constructor
    · exact hs.wellFormed.set (by simp [hi]) (by simp)
    · obtain ⟨ri, hri⟩ := hs.wellFormed.root
      obtain ⟨ri', hri', -⟩ := h.buf_inode hi hri
      exact ⟨ri', hri'⟩
    · intro c ci hci
      by_cases hcb : c = b
      · subst hcb
        rw [FileSystem.set_buf_self] at hci
        cases hci
        have hok := h.inodeOk hi (hs.wellFormed.inodeOk c i hi)
        constructor
        · rw [h.count_eq]
          apply hok.count_pos
        · rw [h.op_eq, h.info_eq]
          apply hok.info
        · rw [h.op_eq, h.isDir_eq, h.dir_eq]
          apply hok.chain
        · intro hop hdir m hm
          obtain ⟨mi, hmi, hfat⟩ := hmount hop hdir m hm
          obtain ⟨mi', hmi', hop'⟩ := h.buf_inode hi hmi
          exact ⟨mi', hmi', hop'.trans hfat⟩
      · rw [FileSystem.set_buf_of_ne hcb] at hci
        apply h.inodeOk hi (hs.wellFormed.inodeOk c ci hci)
  apart := by
    simp only [Apart, h.lists_iff hi]
    apply hs.apart
  tree := hs.tree.congr rfl (fun _ _ => h.lists_iff hi) (h.ramInode_iff hi) fun _ _ =>
    (dirent_iff hi).mp
  node c ci hci hop := by
    by_cases hcb : c = b
    · subst hcb
      rw [FileSystem.set_buf_self] at hci
      cases hci
      apply hnode hop
    · rw [FileSystem.set_buf_of_ne hcb] at hci
      apply hs.node c ci hci hop
  distinct hq := by
    simp only [Distinct, h.lists_iff hi]
    apply hs.distinct hq

end SameDir

/-- A store to an inode that is also made in the file system at rest. -/
theorem Extends.setInode (h : Extends s₀ s held infos) (hi : s₀.buf b = .inode i) :
  Extends (s₀.set b (.inode i')) (s.set b (.inode { i' with count := i'.count + held.count b })) held
    infos
  := by
  have hb := h.inode_eq hi
  apply h.parallel
  · exact h.root_eq
  · exact h.set (by simp [hb]) (by simp)
  · intro c hc
    by_cases hcb : c = b
    · exact ⟨_, by rw [hcb, FileSystem.set_buf_self]⟩
    · rw [FileSystem.set_buf_of_ne hcb]
      apply h.held_inode c hc
  · intro c
    by_cases hcb : c = b
    · right
      simp [hcb, hi, Buffer.addRefs]
    · left
      simp [FileSystem.set_buf_of_ne hcb]

/-- The number of a device is set. -/
theorem FsOk.setDevice (h : FsOk q s held infos) (hi : s.buf b = .inode i) (hop : i.op = .ramfs)
    (dev : Word) :
  FsOk q (s.set b (.inode { i with device := dev })) held infos
  := by
  obtain ⟨s₀, hrest, hext⟩ := h
  obtain ⟨i₀, hi₀, rfl⟩ := hext.ramfs_inode hi hop
  have hsame : SameDir i₀ { i₀ with device := dev } := ⟨rfl, rfl, rfl, rfl, rfl⟩
  refine ⟨_, hsame.rest hrest hi₀ ?_ ?_, hext.setInode hi₀⟩
  · apply (hrest.wellFormed.inodeOk b i₀ hi₀).mount
  · intro _
    have hnode := hrest.node b i₀ hi₀ hop
    exact ⟨hnode.count_eq, hnode.typed, hnode.mounted_iff⟩

/-! ### An inode that is mounted -/

/-- The file system with the inode `mi` and its information `x` in addition. -/
def FileSystem.adopt (s : FileSystem σ) (m : BufId) (mi : Inode) (j : BufId) (x : FatfsInodeInfo) :
    FileSystem σ :=
  { s with
    buf := Function.update (Function.update s.buf j (.info x)) m (.inode mi)
    freeBuffers := s.freeBuffers.filter fun b => b ≠ m ∧ b ≠ j }

section Adopt

variable {mi : Inode}

/-- The other buffers are as they were. -/
theorem FileSystem.adopt_buf_of_ne (hm : b ≠ m) (hj : b ≠ j) :
  (s.adopt m mi j x).buf b = s.buf b
  := by
  simp [FileSystem.adopt, hm, hj]

/-- An inode of the FAT file system is added to a file system at rest. -/
theorem Rest.adopt (h : Rest q s) (hm : s.buf m = .raw) (hj : s.buf j = .raw) (hjm : j ≠ m)
    (hop : mi.op = .fatfs) (hcount : mi.count = 1) (hinfo : mi.fatfsInfo = some j) :
  Rest q (s.adopt m mi j x)
  := by
  have hs := h.wellFormed
  have hbuf_m : (s.adopt m mi j x).buf m = .inode mi := by simp [FileSystem.adopt]
  have hbuf_j : (s.adopt m mi j x).buf j = .info x := by simp [FileSystem.adopt, hjm]
  have hfree : FreeListOk (s.adopt m mi j x) := by
    refine ⟨hs.free_nodup.filter _, fun b => ?_⟩
    by_cases hbm : b = m
    · simp [hbm, FileSystem.adopt]
    · by_cases hbj : b = j
      · rw [hbj, hbuf_j]
        simp [FileSystem.adopt]
      · rw [FileSystem.adopt_buf_of_ne hbm hbj]
        simp [FileSystem.adopt, hbm, hbj, hs.mem_free]
  have hok : FsOk q (s.adopt m mi j x) [m] [] := ⟨s, h, hfree.extends_fresh hm hj rfl hbuf_m hbuf_j
    (fun _ => FileSystem.adopt_buf_of_ne) hop hcount hinfo⟩
  refine ⟨hok.wellFormed, hok.apart, hok.tree, ?_, hok.distinct⟩
  intro b i hi hiop
  have hne : b ≠ m := by
    rintro rfl
    rw [hbuf_m] at hi
    cases hi
    rw [hop] at hiop
    cases hiop
  have hnode := hok.node hi hiop
  rw [List.count_singleton, beq_false_of_ne hne.symm] at hnode
  simpa using hnode

/-- A reference to a new inode of the FAT file system becomes one of the file system at rest. -/
theorem Extends.adopt (h : Extends s₀ s (m :: held) infos) (hm : s₀.buf m = .raw)
    (hheld : m ∉ held) :
  ∃ mi j x, mi.op = .fatfs ∧ mi.count = 1 ∧ mi.fatfsInfo = some j ∧ s₀.buf j = .raw ∧ j ≠ m
    ∧ Extends (s₀.adopt m mi j x) s held infos
  := by
  obtain ⟨mi, hmi⟩ := h.held_inode m List.mem_cons_self
  obtain ⟨i', hi', -⟩ | ⟨-, hop, hcount, -⟩ := h.inode_cases hmi
  · simp [hm] at hi'
  obtain ⟨j, x, hj, hjraw, hx, hinfos⟩ := h.owner m mi hm hmi
  have hjm : j ≠ m := by
    rintro rfl
    simp [hmi] at hx
  rw [List.count_cons_self, List.count_eq_zero.mpr hheld] at hcount
  refine ⟨mi, j, x, hop, hcount, hj, hjraw, hjm, ?_⟩
  have hcount_of_ne {b : BufId} (hb : b ≠ m) : (m :: held).count b = held.count b :=
    List.count_cons_of_ne (Ne.symm hb)
  have hraw {b : BufId} (hb : (s₀.adopt m mi j x).buf b = .raw) :
      b ≠ m ∧ b ≠ j ∧ s₀.buf b = .raw := by
    have hbm : b ≠ m := by
      rintro rfl
      simp [FileSystem.adopt] at hb
    have hbj : b ≠ j := by
      rintro rfl
      simp [FileSystem.adopt, hjm] at hb
    rw [FileSystem.adopt_buf_of_ne hbm hbj] at hb
    exact ⟨hbm, hbj, hb⟩
  constructor
  · exact ⟨h.free_nodup, h.mem_free⟩
  · exact h.root_eq
  · intro b hb
    by_cases hbm : b = m
    · simp [hbm, FileSystem.adopt, hmi, List.count_eq_zero.mpr hheld]
    · by_cases hbj : b = j
      · simp [hbj, FileSystem.adopt, hjm, hx, Buffer.addRefs]
      · rw [FileSystem.adopt_buf_of_ne hbm hbj] at hb ⊢
        rw [h.old b hb, hcount_of_ne hbm]
  · intro b hb
    obtain ⟨hbm, hbj, hb₀⟩ := hraw hb
    cases h.new b hb₀ with
    | raw hbuf => apply New.raw hbuf
    | inode i hbuf hiop hicount hmem =>
        rw [hcount_of_ne hbm] at hicount
        apply New.inode i hbuf hiop hicount (List.mem_of_ne_of_mem hbm hmem)
    | owned b' i hfree hbuf hinfo =>
        apply New.owned b' i _ hbuf hinfo
        rw [FileSystem.adopt_buf_of_ne, hfree]
        · rintro rfl
          rw [hmi] at hbuf
          cases hbuf
          rw [hj] at hinfo
          cases hinfo
          contradiction
        · rintro rfl
          simp [hx] at hbuf
    | info hmem => apply New.info hmem
  · intro b hb
    apply h.held_inode b (List.mem_cons_of_mem _ hb)
  · intro b i hb hi
    obtain ⟨hbm, hbj, hb₀⟩ := hraw hb
    obtain ⟨k, y, hk, hkraw, hy, hmem⟩ := h.owner b i hb₀ hi
    refine ⟨k, y, hk, ?_, hy, hmem⟩
    rw [FileSystem.adopt_buf_of_ne, hkraw]
    · rintro rfl
      simp [hmi] at hy
    · rintro rfl
      apply hbm (h.owner_unique b m i mi k hb₀ hm hi hmi hk hj)
  · intro b c i i' k hb hc hi hi'
    apply h.owner_unique b c i i' k (hraw hb).2.2 (hraw hc).2.2 hi hi'
  · apply h.infos_nodup
  · intro b hb
    obtain ⟨hb₀, y, hy⟩ := h.infos_new b hb
    refine ⟨?_, y, hy⟩
    rw [FileSystem.adopt_buf_of_ne, hb₀]
    · rintro rfl
      simp [hmi] at hy
    · rintro rfl
      contradiction

end Adopt

/-! ### The mount point -/

theorem S_IFMT_or_S_ISVTX (mode : Word) : (mode ||| S_ISVTX) &&& S_IFMT = mode &&& S_IFMT := by
  ext n hn
  simp only [BitVec.getElem_and, BitVec.getElem_or, S_ISVTX, S_IFMT]
  interval_cases n <;> simp

theorem isMounted_or_S_ISVTX (mode : Word) : isMounted (mode ||| S_ISVTX) = true := by
  rw [isMounted, bne_iff_ne]
  intro h
  have hbit : ((mode ||| S_ISVTX) &&& S_ISVTX).getLsbD 9 = (0 : Word).getLsbD 9 := by rw [h]
  simp [S_ISVTX] at hbit

/-- A new inode of the FAT file system is mounted on a directory. -/
theorem FsOk.mount (h : FsOk q s held infos) (h' : Extends s s' [m] []) (hm : s.buf m = .raw)
    (hi : s'.buf dir = .inode i) (hop : i.op = .ramfs) (hdir : S_ISDIR i.mode = true) :
  FsOk q (s'.set dir (.inode { i with mode := i.mode ||| S_ISVTX, ramfsMount := some m })) held infos
  := by
  obtain ⟨s₀, hrest, hext⟩ := h
  have hheld : m ∉ held := by
    rw [← List.count_eq_zero]
    apply hext.count_eq_zero hm
  obtain ⟨mi, j, x, hmop, hcount, hinfo, hj, hjm, hext'⟩ :=
    (hext.trans h').adopt (hext.raw_of_raw hm) hheld
  have hrest' : Rest q (s₀.adopt m mi j x) :=
    hrest.adopt (hext.raw_of_raw hm) hj hjm hmop hcount hinfo
  obtain ⟨i₀, hi₀, rfl⟩ := hext'.ramfs_inode hi hop
  have hnode := hrest'.node dir i₀ hi₀ hop
  have hisdir : S_ISDIR (i₀.mode ||| S_ISVTX) = S_ISDIR i₀.mode := by
    rw [S_ISDIR, S_IFMT_or_S_ISVTX, ← S_ISDIR]
  have hsame : SameDir i₀ { i₀ with mode := i₀.mode ||| S_ISVTX, ramfsMount := some m } :=
    ⟨rfl, rfl, hisdir, rfl, rfl⟩
  refine ⟨_, hsame.rest hrest' hi₀ ?_ ?_, hext'.setInode hi₀⟩
  · rintro _ _ _ ⟨rfl⟩
    exact ⟨mi, by simp [FileSystem.adopt], hmop⟩
  · intro _
    refine ⟨hnode.count_eq, ?_, ?_⟩
    · left
      exact hisdir.trans hdir
    · rw [isMounted_or_S_ISVTX, hisdir]
      simpa using hdir

end Mosnix.Fs
