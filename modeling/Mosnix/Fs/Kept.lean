import Mosnix.Fs.Access
import Mosnix.Fs.Mount

/-!
# Nodes that keep their names

`Kept s s'` says that the nodes of the RAM file system `s` are there in `s'`, of the same type and
with the same permissions and device, and that they have the same names, except for the names in
directories on which a file system is mounted.  References may be added or given up, nodes may be
created, and file systems mounted.  A walk along a path then goes on to lead to the same node, up to
a directory on which a file system is mounted.
-/

namespace Mosnix.Fs

open Fat Program

variable {σ : Type} {s s' s'' s₀ : FileSystem σ} {a b c d dir m : BufId} {i i' i'' child : Inode}
  {name : List Byte} {stack : List (List Byte)} {dirs held held' infos infos' : List BufId}
  {q : Policy}

/-- The inode `i'` is `i`, up to its references, its entries and a file system that is mounted on
it. -/
structure SameNode (i i' : Inode) : Prop where
  op_eq : i'.op = i.op
  device_eq : i'.device = i.device
  mode_eq : i'.mode = i.mode ∨ i'.mode = i.mode ||| S_ISVTX

namespace SameNode

/-- Changes one after the other. -/
theorem trans (h : SameNode i i') (h' : SameNode i' i'') : SameNode i i'' := by
  refine ⟨h'.op_eq.trans h.op_eq, h'.device_eq.trans h.device_eq, ?_⟩
  obtain hmode | hmode := h.mode_eq
  · rw [← hmode]
    apply h'.mode_eq
  · right
    obtain hmode' | hmode' := h'.mode_eq
    · rw [hmode', hmode]
    · rw [hmode', hmode, BitVec.or_assoc, BitVec.or_self]

/-- A file system that is mounted stays mounted. -/
theorem isMounted (h : SameNode i i') (hi : Fs.isMounted i.mode = true) :
  Fs.isMounted i'.mode = true
  := by
  obtain hmode | hmode := h.mode_eq
  · rw [hmode, hi]
  · rw [hmode, isMounted_or_S_ISVTX]

end SameNode

/-- A file system is mounted on the directory `dir`. -/
def MountPoint (s : FileSystem σ) (dir : BufId) : Prop :=
  ∃ i, s.buf dir = .inode i ∧ i.op = .ramfs ∧ isMounted i.mode = true

/-- The nodes and the entries of `s` are there in `s'`, except for the entries of directories on
which a file system is mounted, and the nodes of `s` have no other entries in `s'`. -/
structure Kept (s s' : FileSystem σ) : Prop where
  root_eq : s'.root = s.root
  node : ∀ b i, s.buf b = .inode i → i.op = .ramfs → ∃ i', s'.buf b = .inode i' ∧ SameNode i i'
  entry : ∀ dir name c, Entry s dir name c → Entry s' dir name c ∨ MountPoint s' dir
  old : ∀ dir name c, Entry s' dir name c → RamInode s c → Entry s dir name c

/-- References are added or given up. -/
theorem Extends.kept (h : Extends s₀ s held infos) (h' : Extends s₀ s' held' infos') :
  Kept s s'
  where
  root_eq := h'.root_eq.trans h.root_eq.symm
  node := by
    intro b i hi hop
    obtain ⟨i₀, hi₀, rfl⟩ := h.ramfs_inode hi hop
    exact ⟨_, h'.inode_eq hi₀, rfl, rfl, Or.inl rfl⟩
  entry := by
    intro dir name c he
    left
    apply h'.entry_iff.mpr (h.entry_iff.mp he)
  old := by
    intro dir name c he _
    apply h.entry_iff.mpr (h'.entry_iff.mp he)

/-- A node that was there gets no other entry when a node is created. -/
theorem Created.entry_old (h : Created s s' dir name child d c) (hs : WellFormed s) (ha : Apart s)
    (hnew : IsNew child) {n : List Byte} (he : Entry s' a n b) (hb : RamInode s b) :
  Entry s a n b
  := by
  rw [entry_iff_lists] at he ⊢
  obtain ⟨⟨i', hi'⟩, L₁, x, L₂, hL, hx, hL₁⟩ := he
  have hram {L : List Listed} (hL₀ : Lists s a L) : ∃ i, RamDir s a i := by
    obtain ⟨j, -, hj, -⟩ := hL₀
    obtain ⟨rfl, -⟩ | ⟨i₀, p, hi₀, rfl, -⟩ := h.inode_cases hi'.buf_eq
    · rw [h.inode_raw] at hj
      cases hj
    · exact ⟨i₀, hi₀, hi'.op_eq, hi'.isDir, hi'.unmounted⟩
  obtain ⟨rfl, L, hL₀, heq⟩ | ⟨-, hnil⟩ | ⟨-, hL₀⟩ := h.lists_cases hs ha hnew hL
  · refine ⟨hram hL₀, L₁, x, ?_⟩
    obtain rfl | ⟨L₂, y, rfl⟩ := List.eq_nil_or_concat' L₂
    · obtain ⟨-, rfl⟩ := List.append_inj' heq rfl |>.imp_right List.singleton_inj.mp
      obtain ⟨j, hj, -⟩ := hb
      cases hx
      rw [h.inode_raw] at hj
      cases hj
    · rw [← List.cons_append, ← List.append_assoc] at heq
      obtain ⟨rfl, -⟩ := List.append_inj' heq rfl
      exact ⟨L₂, hL₀, hx, hL₁⟩
  · simp at hnil
  · exact ⟨hram hL₀, L₁, x, L₂, hL₀, hx, hL₁⟩

/-- A node is created. -/
theorem Created.kept (h : Created s s' dir name child d c) (hs : WellFormed s) (ha : Apart s)
    (hnew : IsNew child) :
  Kept s s'
  where
  root_eq := h.root_eq
  node := by
    intro b i hi _
    obtain ⟨p, hp, -⟩ := h.inode_eq hi
    exact ⟨_, hp, rfl, rfl, Or.inl rfl⟩
  entry := by
    intro dir name c he
    left
    apply h.entry ha he
  old := by
    intro dir name c he hc
    apply h.entry_old hs ha hnew he hc

theorem ramDir_set_of_ne {x : Buffer} (ha : a ≠ dir) : RamDir (s.set dir x) a i ↔ RamDir s a i := by
  constructor
  · rintro ⟨hi, hop, hdir, hmount⟩
    rw [FileSystem.set_buf_of_ne ha] at hi
    exact ⟨hi, hop, hdir, hmount⟩
  · rintro ⟨hi, hop, hdir, hmount⟩
    rw [← FileSystem.set_buf_of_ne ha] at hi
    exact ⟨hi, hop, hdir, hmount⟩

/-- The entries of a directory on which a file system is mounted are hidden. -/
theorem RamDir.entry_mount_iff (hram : RamDir s dir i) :
  Entry (s.set dir (.inode { i with mode := i.mode ||| S_ISVTX, ramfsMount := some m })) a name c
    ↔ Entry s a name c ∧ a ≠ dir
  := by
  have hsame : SameDir i { i with mode := i.mode ||| S_ISVTX, ramfsMount := some m } := by
    refine ⟨rfl, rfl, ?_, rfl, rfl⟩
    rw [S_ISDIR, S_IFMT_or_S_ISVTX, ← S_ISDIR]
  simp only [entry_iff_lists, hsame.lists_iff hram.buf_eq]
  by_cases hd : a = dir
  · subst hd
    simp only [ne_eq, not_true_eq_false, and_false, iff_false]
    rintro ⟨⟨j, hj⟩, -⟩
    have hbuf := hj.buf_eq
    rw [FileSystem.set_buf_self] at hbuf
    cases hbuf
    have hmounted := hj.unmounted
    rw [isMounted_or_S_ISVTX] at hmounted
    cases hmounted
  · simp only [ramDir_set_of_ne hd, hd, ne_eq, not_false_eq_true, and_true]

/-- A file system is mounted on a directory. -/
theorem RamDir.kept_mount (hram : RamDir s dir i) :
  Kept s (s.set dir (.inode { i with mode := i.mode ||| S_ISVTX, ramfsMount := some m }))
  where
  root_eq := rfl
  node := by
    intro b j hj hop
    by_cases hb : b = dir
    · subst hb
      rw [hram.buf_eq] at hj
      cases hj
      exact ⟨_, FileSystem.set_buf_self, rfl, rfl, Or.inr rfl⟩
    · exact ⟨j, by rw [FileSystem.set_buf_of_ne hb, hj], rfl, rfl, Or.inl rfl⟩
  entry := by
    intro d name c he
    by_cases hd : d = dir
    · subst hd
      right
      exact ⟨_, FileSystem.set_buf_self, hram.op_eq, isMounted_or_S_ISVTX i.mode⟩
    · left
      apply hram.entry_mount_iff.mpr ⟨he, hd⟩
  old := by
    intro d name c he _
    exact (hram.entry_mount_iff.mp he).1

namespace Kept

/-- Nothing is changed. -/
theorem refl (s : FileSystem σ) : Kept s s where
  root_eq := rfl
  node _ i hi _ := ⟨i, hi, rfl, rfl, Or.inl rfl⟩
  entry _ _ _ he := Or.inl he
  old _ _ _ he _ := he

variable (h : Kept s s')

include h

theorem ramInode (hb : RamInode s b) : RamInode s' b := by
  obtain ⟨i, hi, hop⟩ := hb
  obtain ⟨i', hi', hsame⟩ := h.node b i hi hop
  exact ⟨i', hi', hsame.op_eq.trans hop⟩

/-- A mount point stays one. -/
theorem mountPoint (hd : MountPoint s dir) : MountPoint s' dir := by
  obtain ⟨i, hi, hop, hmounted⟩ := hd
  obtain ⟨i', hi', hsame⟩ := h.node dir i hi hop
  exact ⟨i', hi', hsame.op_eq.trans hop, hsame.isMounted hmounted⟩

theorem trans (h' : Kept s' s'') : Kept s s'' where
  root_eq := h'.root_eq.trans h.root_eq
  node := by
    intro b i hi hop
    obtain ⟨i', hi', hsame⟩ := h.node b i hi hop
    obtain ⟨i'', hi'', hsame'⟩ := h'.node b i' hi' (hsame.op_eq.trans hop)
    exact ⟨i'', hi'', hsame.trans hsame'⟩
  entry := by
    intro dir name c he
    obtain he' | hmounted := h.entry dir name c he
    · apply h'.entry dir name c he'
    · right
      apply h'.mountPoint hmounted
  old := by
    intro dir name c he hc
    apply h.old _ _ _ _ hc
    apply h'.old _ _ _ he (h.ramInode hc)

/-- The walk along a path goes on, up to a directory on which a file system is mounted. -/
theorem walk (hw : Walk s a stack dirs b) :
  Walk s' a stack dirs b ∨ ∃ d ∈ dirs, MountPoint s' d
  := by
  induction hw with
  | nil a =>
      left
      apply Walk.nil
  | cons hentry _ ih =>
      obtain hentry' | hmounted := h.entry _ _ _ hentry
      · obtain hrest | ⟨d, hd, hmounted⟩ := ih
        · left
          apply Walk.cons hentry' hrest
        · right
          exact ⟨d, List.mem_cons_of_mem _ hd, hmounted⟩
      · right
        exact ⟨_, List.mem_cons_self, hmounted⟩

/-- A walk to a node that was there is one that was there. -/
theorem walk_old (hw : Walk s' a stack dirs b) (hb : RamInode s b) :
  Walk s a stack dirs b ∧ RamInode s a
  := by
  induction hw with
  | nil a => exact ⟨Walk.nil a, hb⟩
  | cons hentry _ ih =>
      obtain ⟨hrest, hc⟩ := ih hb
      have hentry' := h.old _ _ _ hentry hc
      refine ⟨Walk.cons hentry' hrest, ?_⟩
      obtain ⟨i, -, -, -, hram, -⟩ := hentry'
      exact ⟨i, hram.buf_eq, hram.op_eq⟩

end Kept

/-- A reference that is held is given up. -/
theorem FsOk.kept_inodeDeref (h : FsOk q s (b :: held) infos) :
  Ends (inodeDeref b) s fun _ s' => Kept s s'
  := by
  obtain ⟨s₀, hrest, hext⟩ := h
  apply (hext.inodeDeref_ends hrest.wellFormed).mono
  intro _ s' hext'
  apply hext.kept hext'

end Mosnix.Fs
