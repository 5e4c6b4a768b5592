import Mosnix.Fs.Structure

/-!
# The file system at rest

The references that the kernel holds to inodes come and go.  Without them, the file system is at
rest: it has the tree of the RAM file system, and the inodes of the file systems that are mounted.
`FsOk q s held infos` says that `s` is a file system at rest with the references `held` to inodes
and the information `infos` about open files.  The policy `q` says what is known about the nodes
that were created.

Lookups, the creation of nodes and mounts lead from such a file system to another.
-/

namespace Mosnix.Fs

open Fat Program

/-- What is known about the nodes that are created: whether the names in a directory are distinct,
and whether every node is a directory or a device. -/
structure Policy where
  distinct : Prop
  typed : Prop

variable {σ : Type} {sd : SdDriver σ} {s s' s₀ : FileSystem σ} {b c d dir j m : BufId}
  {i child : Inode} {name : List Byte} {held held' infos infos' : List BufId} {q : Policy}

/-- The mode of a node of the RAM file system is that of a directory or a device, or it has no
type. -/
def Typed (q : Policy) (mode : Word) : Prop :=
  S_ISDIR mode = true ∨ S_ISCHR mode = true ∨ S_ISBLK mode = true
    ∨ ¬ q.typed ∧ mode &&& S_IFMT = 0

/-- The inode `i` of the node `b` of the RAM file system with the root `root`, without references
from open files. -/
structure NodeOk (q : Policy) (root b : BufId) (i : Inode) : Prop where
  count_eq : i.count = if b = root then 3 else 1
  typed : Typed q i.mode
  mounted_iff : isMounted i.mode = true ↔ S_ISDIR i.mode = true ∧ i.ramfsMount ≠ none

/-- A file system without references from open files. -/
structure Rest (q : Policy) (s : FileSystem σ) : Prop where
  wellFormed : WellFormed s
  apart : Apart s
  tree : RamTree s
  node : ∀ b i, s.buf b = .inode i → i.op = .ramfs → NodeOk q s.root b i
  distinct : q.distinct → Distinct s

/-- A file system at rest with the references `held` and the information `infos` in addition. -/
def FsOk (q : Policy) (s : FileSystem σ) (held infos : List BufId) : Prop :=
  ∃ s₀, Rest q s₀ ∧ Extends s₀ s held infos

namespace FsOk

section

variable (h : FsOk q s held infos)

include h

/-- The file system is well formed, with any references held. -/
theorem wellFormed : WellFormed s := by
  obtain ⟨s₀, hrest, hext⟩ := h
  apply hext.wellFormed hrest.wellFormed

theorem apart : Apart s := by
  obtain ⟨s₀, hrest, hext⟩ := h
  rw [hext.apart_iff]
  apply hrest.apart

theorem tree : RamTree s := by
  obtain ⟨s₀, hrest, hext⟩ := h
  apply hext.ramTree hrest.tree

theorem distinct (hq : q.distinct) : Distinct s := by
  obtain ⟨s₀, hrest, hext⟩ := h
  rw [hext.distinct_iff]
  apply hrest.distinct hq

/-- The inode of a node, up to the references from open files. -/
theorem node (hi : s.buf b = .inode i) (hop : i.op = .ramfs) :
  NodeOk q s.root b { i with count := i.count - held.count b }
  := by
  obtain ⟨s₀, hrest, hext⟩ := h
  obtain ⟨i₀, hi₀, rfl⟩ := hext.ramfs_inode hi hop
  have hnode := hrest.node b i₀ hi₀ hop
  rw [hext.root_eq]
  refine ⟨?_, hnode.typed, hnode.mounted_iff⟩
  rw [← hnode.count_eq, add_sub_cancel_right]

/-- The types of the nodes of the RAM file system. -/
theorem type_mem (hi : s.buf b = .inode i) (hop : i.op = .ramfs) :
  i.mode &&& S_IFMT ∈ [0, S_IFDIR, S_IFCHR, S_IFBLK]
  := by
  have htyped := (h.node hi hop).typed
  simp only [Typed, S_ISDIR, S_ISCHR, S_ISBLK, beq_iff_eq] at htyped
  simp only [List.mem_cons, List.not_mem_nil, or_false]
  tauto

/-- There are no regular files in the RAM file system. -/
theorem noReg (hi : s.buf b = .inode i) (hop : i.op = .ramfs) :
  S_ISREG i.mode = false
  := by
  have hmem := h.type_mem hi hop
  rw [S_ISREG, beq_eq_false_iff_ne]
  intro heq
  rw [heq] at hmem
  revert hmem
  decide

/-- There are no symbolic links in the RAM file system. -/
theorem noLnk (hi : s.buf b = .inode i) (hop : i.op = .ramfs) :
  S_ISLNK i.mode = false
  := by
  have hmem := h.type_mem hi hop
  rw [S_ISLNK, beq_eq_false_iff_ne]
  intro heq
  rw [heq] at hmem
  revert hmem
  decide

/-- A policy that says less. -/
theorem mono {q' : Policy} (hdistinct : q'.distinct → q.distinct) (htyped : q'.typed → q.typed) :
  FsOk q' s held infos
  := by
  obtain ⟨s₀, hrest, hext⟩ := h
  refine ⟨s₀, ⟨hrest.wellFormed, hrest.apart, hrest.tree, ?_, ?_⟩, hext⟩
  · intro b i hi hop
    obtain ⟨hcount, hmode, hmounted⟩ := hrest.node b i hi hop
    have hmode' : Typed q' i.mode := by
      rw [Typed] at hmode ⊢
      tauto
    exact ⟨hcount, hmode', hmounted⟩
  · exact fun hq => hrest.distinct (hdistinct hq)

/-- References are taken one after the other. -/
theorem trans (h' : Extends s s' held' infos') :
  FsOk q s' (held' ++ held) (infos' ++ infos)
  := by
  obtain ⟨s₀, hrest, hext⟩ := h
  exact ⟨s₀, hrest, hext.trans h'⟩

theorem perm (hperm : held.Perm held') (hinfos : infos.Perm infos') :
  FsOk q s held' infos'
  := by
  obtain ⟨s₀, hrest, hext⟩ := h
  exact ⟨s₀, hrest, (hext.perm hperm).perm_infos hinfos⟩

end

/-- `inode_deref` gives up a reference that is held. -/
theorem inodeDeref_ends (h : FsOk q s (b :: held) infos) :
  Ends (inodeDeref b) s fun _ s' => FsOk q s' held infos
  := by
  obtain ⟨s₀, hrest, hext⟩ := h
  apply (hext.inodeDeref_ends hrest.wellFormed).mono
  intro _ s' hext'
  exact ⟨s₀, hrest, hext'⟩

end FsOk

/-! ### The file system at boot -/

section Boot

variable {t : σ}

theorem inode_of_boot (hi : (boot t).buf b = .inode i) :
  b = bootRoot ∧ i = { op := .ramfs, count := 3, mode := rootMode }
  := by
  by_cases hb : b = bootRoot
  · exact ⟨hb, by simpa [boot, hb, eq_comm] using hi⟩
  · simp [boot, hb] at hi

/-- There is no directory entry at boot. -/
theorem lists_boot {L : List Listed} (hL : Lists (boot t) dir L) : L = [] := by
  obtain ⟨i, l, hi, -, -, hl, rfl⟩ := hL
  obtain ⟨-, rfl⟩ := inode_of_boot hi
  cases l with
  | nil => rfl
  | cons e l => cases hl.1

/-- The file system is at rest at boot. -/
theorem rest_boot (q : Policy) (t : σ) : Rest q (boot t) where
  wellFormed := wellFormed_boot t
  apart := by
    intro dir dir' L L' x x' hL _ hx
    rw [lists_boot hL] at hx
    cases hx
  tree := by
    constructor
    · exact ⟨[], { op := .ramfs, count := 3, mode := rootMode }, [], by simp [boot], rfl, by decide,
        rfl, rfl⟩
    · rintro b ⟨i, hi, -⟩
      obtain ⟨rfl, -⟩ := inode_of_boot hi
      apply Below.root
    · intro dir L x c hL hx
      rw [lists_boot hL] at hx
      cases hx
    · intro dir dir' L L' x x' hL _ hx
      rw [lists_boot hL] at hx
      cases hx
    · intro dir L x hL hx
      rw [lists_boot hL] at hx
      cases hx
    · intro d e he
      by_cases hd : d = bootRoot
      · simp [boot, hd] at he
      · simp [boot, hd] at he
  node b i hi _ := by
    obtain ⟨rfl, rfl⟩ := inode_of_boot hi
    refine ⟨rfl, Or.inl ?_, ?_⟩
    · decide
    · decide
  distinct _ := by
    intro dir L hL
    rw [lists_boot hL]
    apply List.nodup_nil

end Boot

/-! ### Changes to the file system at rest -/

/-- The same change is made to the file system at rest and to the one with references: every
buffer is left alone, or it is used for the file system at rest then and was not used for the
references before. -/
theorem Extends.parallel {s₀' : FileSystem σ} (h : Extends s₀ s held infos)
    (hroot : s'.root = s₀'.root) (hfree : FreeListOk s')
    (hheld : ∀ b ∈ held, ∃ i, s'.buf b = .inode i)
    (hchange : ∀ b, s₀'.buf b = s₀.buf b ∧ s'.buf b = s.buf b
      ∨ s₀'.buf b ≠ .raw ∧ s'.buf b = (s₀'.buf b).addRefs (held.count b)
        ∧ (s₀.buf b = .raw → s.buf b = .raw)) :
  Extends s₀' s' held infos
  := by
  have hsame {b : BufId} (hb : s₀'.buf b = .raw) : s₀.buf b = .raw ∧ s'.buf b = s.buf b := by
    obtain ⟨heq, heq'⟩ | ⟨hne, -⟩ := hchange b
    · exact ⟨heq ▸ hb, heq'⟩
    · contradiction
  have hnew {b : BufId} (hb : s₀.buf b = .raw) (hne : s.buf b ≠ .raw) :
      s₀'.buf b = .raw ∧ s'.buf b = s.buf b := by
    obtain ⟨heq, heq'⟩ | ⟨-, -, hraw⟩ := hchange b
    · exact ⟨heq.trans hb, heq'⟩
    · cases hne (hraw hb)
  constructor
  · exact hfree
  · exact hroot
  · intro b hb
    obtain ⟨heq, heq'⟩ | ⟨-, heq, -⟩ := hchange b
    · rw [heq']
      rw [heq] at hb ⊢
      apply h.old b hb
    · apply heq
  · intro b hb
    obtain ⟨hb₀, heq⟩ := hsame hb
    cases h.new b hb₀ with
    | raw hbuf => apply New.raw (heq.trans hbuf)
    | inode i hbuf hop hcount hmem => apply New.inode i (heq.trans hbuf) hop hcount hmem
    | owned b' i hraw hbuf hinfo =>
        obtain ⟨hb', heq'⟩ := hnew hraw (by simp [hbuf])
        apply New.owned b' i hb' (heq'.trans hbuf) hinfo
    | info hmem => apply New.info hmem
  · apply hheld
  · intro b i hb hi
    obtain ⟨hb₀, heq⟩ := hsame hb
    obtain ⟨j, x, hj, hjraw, hx, hmem⟩ := h.owner b i hb₀ (heq.symm.trans hi)
    obtain ⟨hj', heq'⟩ := hnew hjraw (by simp [hx])
    exact ⟨j, x, hj, hj', heq'.trans hx, hmem⟩
  · intro b c i i' j hb hc hi hi'
    obtain ⟨hb₀, heq⟩ := hsame hb
    obtain ⟨hc₀, heq'⟩ := hsame hc
    apply h.owner_unique b c i i' j hb₀ hc₀ (heq.symm.trans hi) (heq'.symm.trans hi')
  · apply h.infos_nodup
  · intro b hb
    obtain ⟨hraw, x, hx⟩ := h.infos_new b hb
    obtain ⟨hb', heq⟩ := hnew hraw (by simp [hx])
    exact ⟨hb', x, heq.trans hx⟩

/-- A free buffer is not held. -/
theorem Extends.count_eq_zero (h : Extends s₀ s held infos) (hb : s.buf b = .raw) :
  held.count b = 0
  := by
  rw [List.count_eq_zero]
  intro hmem
  obtain ⟨i, hi⟩ := h.held_inode b hmem
  simp [hb] at hi

/-- The creation of a node is also one in the file system at rest. -/
theorem Created.rest (h : Created s s' dir name child d c) (hext : Extends s₀ s held infos)
    (hs₀ : WellFormed s₀) :
  ∃ s₀', Created s₀ s₀' dir name child d c ∧ Extends s₀' s' held infos
  := by
  obtain ⟨i, l, hi, hop, hdir, hl, hbuf⟩ := h.buf_eq
  obtain ⟨i₀, hi₀, rfl⟩ := hext.ramfs_inode hi hop
  have hl₀ := hext.chain_iff.mp hl
  let s₀' : FileSystem σ := { s₀ with
    buf := Function.update (Function.update (linkEntry s₀ dir i₀ l d) d
      (.dirent { name := name, inode := some c })) c (.inode child)
    freeBuffers := s₀.freeBuffers.filter fun b => b ≠ d ∧ b ≠ c }
  have hcreated : Created s₀ s₀' dir name child d c := by
    refine ⟨h.name_le, hext.raw_of_raw h.dirent_raw, hext.raw_of_raw h.inode_raw, h.ne,
      ⟨i₀, l, hi₀, hop, hdir, hl₀, rfl⟩, hs₀.free_nodup.filter _, ?_, rfl⟩
    intro b
    simp [s₀']
  refine ⟨s₀', hcreated, hext.parallel ?_ ⟨h.free_nodup, ?_⟩ ?_ ?_⟩
  · exact h.root_eq.trans hext.root_eq
  · intro b
    rw [h.mem_free, hext.mem_free, h.raw_iff]
  · intro b hb
    obtain ⟨i, hi⟩ := hext.held_inode b hb
    obtain ⟨p, hp, -⟩ := h.inode_eq hi
    exact ⟨_, hp⟩
  · intro b
    by_cases hbc : b = c
    · right
      subst hbc
      refine ⟨?_, ?_, fun _ => h.inode_raw⟩
      · simp [s₀']
      · simp [s₀', h.buf_child, hext.count_eq_zero h.inode_raw]
    by_cases hbd : b = d
    · right
      subst hbd
      refine ⟨?_, ?_, fun _ => h.dirent_raw⟩
      · simp [s₀', hbc]
      · simp [s₀', hbc, h.buf_dirent, Buffer.addRefs]
    have hs₀' : s₀'.buf b = linkEntry s₀ dir i₀ l d b := by simp [s₀', hbc, hbd]
    rw [hs₀', hbuf, Function.update_of_ne hbc, Function.update_of_ne hbd]
    cases l using List.reverseRecOn with
    | nil =>
        by_cases hbdir : b = dir
        · right
          simp [linkEntry, hbdir, hi₀, Buffer.addRefs]
        · left
          simp [linkEntry, hbdir]
    | append_singleton l e =>
        have he : s₀.buf e.1 = .dirent e.2 := hl₀.suffix.2.1
        by_cases hbe : b = e.1
        · right
          simp [linkEntry, hbe, he, Buffer.addRefs]
        · left
          simp [linkEntry, hbe]

/-! ### Creating a node -/

/-- The mode of a node that is created. -/
structure ModeOk (q : Policy) (mode : Word) : Prop where
  typed : Typed q mode
  unmounted : isMounted mode = false

theorem isNew_newInode (mode : Word) : IsNew (newInode mode 1) := ⟨rfl, le_rfl, rfl, rfl⟩

/-- A node is created in a file system at rest. -/
theorem Rest.created {mode : Word} (h : Rest q s)
    (hc : Created s s' dir name (newInode mode 1) d c) (hname : NameOk name) (hmode : ModeOk q mode)
    (hdistinct : q.distinct → ∀ L, Lists s dir L → ∀ x ∈ L, x.2.1 ≠ name) :
  Rest q s'
  where
  wellFormed := hc.wellFormed h.wellFormed h.apart (isNew_newInode mode)
  apart := hc.apart h.wellFormed h.apart (isNew_newInode mode)
  tree := hc.ramTree h.wellFormed h.apart (isNew_newInode mode) h.tree hname
  node b i hi hop := by
    rw [hc.root_eq]
    obtain ⟨rfl, rfl⟩ | ⟨i₀, p, hi₀, rfl, -⟩ := hc.inode_cases hi
    · have hroot : b ≠ s.root := by
        rintro rfl
        obtain ⟨i, hi⟩ := h.wellFormed.root
        simp [hc.inode_raw] at hi
      refine ⟨?_, hmode.typed, ?_⟩
      · rw [if_neg hroot]
        rfl
      · simp [newInode, hmode.unmounted]
    · have hnode := h.node b i₀ hi₀ hop
      exact ⟨hnode.count_eq, hnode.typed, hnode.mounted_iff⟩
  distinct hq :=
    hc.distinct h.wellFormed h.apart (isNew_newInode mode) (h.distinct hq) (hdistinct hq)

/-- A node is created, and a reference to it is held. -/
theorem FsOk.created {mode : Word} (h : FsOk q s held infos)
    (hc : Created s s' dir name (newInode mode 2) d c) (hname : NameOk name) (hmode : ModeOk q mode)
    (hdistinct : q.distinct → ∀ L, Lists s dir L → ∀ x ∈ L, x.2.1 ≠ name) :
  FsOk q s' (c :: held) infos
  := by
  obtain ⟨s₀, hrest, hext⟩ := h
  obtain ⟨s₀', hc₀, hext₀⟩ := (hc.set_child (newInode mode 1)).rest hext hrest.wellFormed
  have hrest₀ : Rest q s₀' := by
    apply hrest.created hc₀ hname hmode
    intro hq L hL
    apply hdistinct hq L (hext.lists_iff.mpr hL)
  have hok : FsOk q (s'.set c (.inode (newInode mode 1))) held infos := ⟨s₀', hrest₀, hext₀⟩
  have href := hok.wellFormed.ref FileSystem.set_buf_self
  have heq : (s'.set c (.inode (newInode mode 1))).set c
      (.inode { newInode mode 1 with count := (newInode mode 1).count + 1 }) = s' := by
    apply FileSystem.ext
    · rw [FileSystem.set, FileSystem.set, Function.update_idem, Function.update_eq_self_iff,
        hc.buf_child]
      rfl
    · rfl
    · rfl
    · rfl
  rw [heq] at href
  apply hok.trans href

/-! ### Information about open files -/

/-- The first buffer of the free list is used for information about an open file. -/
theorem WellFormed.addInfo {free : List BufId} {x : FatfsInodeInfo} (hs : WellFormed s)
    (hfree : s.freeBuffers = j :: free) (hbuf : s'.buf = Function.update s.buf j (.info x))
    (hfree' : s'.freeBuffers = free) (hroot : s'.root = s.root) :
  Extends s s' [] [j]
  := by
  have hj : s.buf j = .raw := by
    rw [← hs.mem_free, hfree]
    simp
  have hne {b : BufId} (hb : s.buf b ≠ .raw) : b ≠ j := by
    rintro rfl
    contradiction
  have hinode {b : BufId} {i : Inode} (hb : s.buf b = .raw) (hi : s'.buf b = .inode i) : False := by
    rw [hbuf, Function.update_apply] at hi
    split_ifs at hi
    simp [hb] at hi
  constructor
  · apply hs.take (l := [j])
    · rw [hfree, hfree', List.singleton_append]
    · simp [hbuf]
    · intro b hb
      rw [hbuf, Function.update_of_ne (List.mem_singleton.not.mp hb)]
  · apply hroot
  · intro b hb
    rw [hbuf, Function.update_of_ne (hne hb)]
    simp
  · intro b hb
    by_cases hbj : b = j
    · apply New.info
      simp [hbj]
    · apply New.raw
      rw [hbuf, Function.update_of_ne hbj, hb]
  · intro b hb
    simp at hb
  · intro b i hb hi
    cases hinode hb hi
  · intro b c i i' k hb _ hi
    cases hinode hb hi
  · apply List.nodup_singleton
  · intro b hb
    rw [List.mem_singleton.mp hb]
    refine ⟨hj, x, ?_⟩
    simp [hbuf]

/-- A buffer with information about an open file is changed, or freed. -/
theorem Extends.changeInfo (h : Extends s₀ s held infos) (hj : j ∈ infos)
    (hbuf : ∀ b, b ≠ j → s'.buf b = s.buf b) (hroot : s'.root = s.root)
    (hfree : FreeListOk s')
    (hx : s'.buf j = .raw ∧ infos = j :: infos' ∨ (∃ x, s'.buf j = .info x) ∧ infos' = infos) :
  Extends s₀ s' held infos'
  := by
  obtain ⟨hjraw, x₀, hx₀⟩ := h.infos_new j hj
  have hsub : ∀ b ∈ infos', b ∈ infos := by
    obtain ⟨-, rfl⟩ | ⟨-, rfl⟩ := hx
    · intro b hb
      apply List.mem_cons_of_mem _ hb
    · intro b hb
      apply hb
  have hinode {b : BufId} {i : Inode} : s'.buf b = .inode i ↔ s.buf b = .inode i := by
    by_cases hb : b = j
    · rw [hb, hx₀]
      obtain ⟨hraw, -⟩ | ⟨⟨x, hx⟩, -⟩ := hx
      · simp [hraw]
      · simp [hx]
    · rw [hbuf b hb]
  constructor
  · exact hfree
  · rw [hroot, h.root_eq]
  · intro b hb
    rw [hbuf b _, h.old b hb]
    rintro rfl
    contradiction
  · intro b hb
    by_cases hbj : b = j
    · obtain ⟨hraw, -⟩ | ⟨-, rfl⟩ := hx
      · apply New.raw
        rw [hbj, hraw]
      · apply New.info
        rwa [hbj]
    · cases h.new b hb with
      | raw hraw =>
          apply New.raw
          rw [hbuf b hbj, hraw]
      | inode i hi hop hcount hheld => apply New.inode i (hinode.mpr hi) hop hcount hheld
      | owned b' i hfree hi hinfo => apply New.owned b' i hfree (hinode.mpr hi) hinfo
      | info hmem =>
          apply New.info
          obtain ⟨-, rfl⟩ | ⟨-, rfl⟩ := hx
          · apply List.mem_of_ne_of_mem hbj hmem
          · apply hmem
  · intro b hb
    obtain ⟨i, hi⟩ := h.held_inode b hb
    exact ⟨i, hinode.mpr hi⟩
  · intro b i hb hi
    obtain ⟨k, x, hk, hkraw, hkx, hmem⟩ := h.owner b i hb (hinode.mp hi)
    refine ⟨k, x, hk, hkraw, ?_, fun hk' => hmem (hsub k hk')⟩
    rw [hbuf k _, hkx]
    rintro rfl
    contradiction
  · intro b c i i' k hb hc hi hi'
    apply h.owner_unique b c i i' k hb hc (hinode.mp hi) (hinode.mp hi')
  · obtain ⟨-, rfl⟩ | ⟨-, rfl⟩ := hx
    · apply (List.nodup_cons.mp h.infos_nodup).2
    · apply h.infos_nodup
  · intro b hb
    obtain ⟨hraw, y, hy⟩ := h.infos_new b (hsub b hb)
    refine ⟨hraw, ?_⟩
    by_cases hbj : b = j
    · obtain ⟨-, rfl⟩ | ⟨⟨x, hx⟩, -⟩ := hx
      · rw [hbj] at hb
        cases (List.nodup_cons.mp h.infos_nodup).1 hb
      · exact ⟨x, by rw [hbj, hx]⟩
    · exact ⟨y, by rw [hbuf b hbj, hy]⟩

/-- The information about an open file is freed. -/
theorem Extends.freeInfo (h : Extends s₀ s held (j :: infos)) :
  Extends s₀ (s.free j) held infos
  := by
  obtain ⟨-, x, hx⟩ := h.infos_new j List.mem_cons_self
  apply h.changeInfo List.mem_cons_self
  · intro b hb
    apply FileSystem.free_buf_of_ne hb
  · rfl
  · exact h.free (by simp [hx])
  · left
    exact ⟨FileSystem.free_buf_self, rfl⟩

/-- The information about an open file is changed. -/
theorem Extends.setInfo (h : Extends s₀ s held infos) (hj : j ∈ infos) (x : FatfsInodeInfo) :
  Extends s₀ (s.set j (.info x)) held infos
  := by
  obtain ⟨-, y, hy⟩ := h.infos_new j hj
  apply h.changeInfo hj
  · intro b hb
    apply FileSystem.set_buf_of_ne hb
  · rfl
  · exact h.set (by simp [hy]) (by simp)
  · right
    exact ⟨⟨x, FileSystem.set_buf_self⟩, rfl⟩

end Mosnix.Fs
