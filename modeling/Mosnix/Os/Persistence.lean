import Mosnix.Os.Directories

/-!
# No name is lost

The nodes of the RAM file system keep their names.  Whatever the processes do, a path goes on to
lead to the same node, of the same type and with the same permissions and device, until a file
system is mounted on one of the directories of the path; a file system that is mounted stays
mounted; and a node that is there gets no other name.
-/

namespace Mosnix.Os

open Fat Fs Path Program

variable {σ : Type} {sd : SdDriver σ} {k k' : Kernel σ}

/-- A run keeps the names. -/
theorem kept_of_reachable {k₀ : Kernel σ} (hk₀ : (kernel sd).Reachable (fun _ _ => True) k₀)
    (hk : ((kernel sd).startAt k₀).Reachable (fun _ _ => True) k) :
  Kept k₀.fs k.fs
  := by
  induction hk with
  | start h =>
      cases h
      apply Kept.refl
  | step hk _ hstep ih =>
      apply ih.trans
      have hreach := hk₀.startAt hk fun _ _ _ => trivial
      exact ((kernelOk_anything hreach).step (counted_of_reachable hreach) (allowed_anything _ _) hstep).kept

/-- Along every run the nodes of the RAM file system stay there, with their types, permissions and
devices.  A path goes on to lead to the same node until a file system is mounted on one of the
directories of the path, and no other path ever leads to it. -/
theorem names_persist {k₀ : Kernel σ} {b : BufId} {i : Inode}
    (hk₀ : (kernel sd).Reachable (fun _ _ => True) k₀) (hi : k₀.fs.buf b = .inode i)
    (hop : i.op = .ramfs) (hk : ((kernel sd).startAt k₀).Reachable (fun _ _ => True) k) :
  (∃ i', k.fs.buf b = .inode i' ∧ SameNode i i')
    ∧ (∀ stack dirs, Walk k₀.fs k₀.fs.root stack dirs b →
      Walk k.fs k.fs.root stack dirs b ∨ ∃ d ∈ dirs, MountPoint k.fs d)
    ∧ ∀ stack dirs, Walk k.fs k.fs.root stack dirs b → Walk k₀.fs k₀.fs.root stack dirs b
  := by
  have hkept := kept_of_reachable hk₀ hk
  rw [hkept.root_eq]
  refine ⟨hkept.node b i hi hop, ?_, ?_⟩
  · intro stack dirs hw
    apply hkept.walk hw
  · intro stack dirs hw
    exact (hkept.walk_old hw ⟨i, hi, hop⟩).1

/-- The directory `/m` keeps its name while the directory `/m/x` is created. -/
theorem names_persist_slashM :
  ∃ k₀ k i, (kernel noCard).Reachable (fun _ _ => True) k₀ ∧ k₀.fs.buf 97 = .inode i
    ∧ sysMkdir noCard (some slashMX) 0x1FF { k₀ with current := 0 } = some (0, k)
    ∧ Walk k₀.fs k₀.fs.root [[chr 'm']] [bootRoot] 97
    ∧ (∃ i', k.fs.buf 97 = .inode i' ∧ SameNode i i')
    ∧ (Walk k.fs k.fs.root [[chr 'm']] [bootRoot] 97 ∨ MountPoint k.fs bootRoot)
  := by
  have hrun : ((sysMkdir noCard (some slashM) 0x1FF { bootKernel with current := 0 }).bind fun x =>
      (sysMkdir noCard (some slashMX) 0x1FF { x.2 with current := 0 }).map fun y =>
        (x.1, y.1, x.2.fs.root, x.2.fs.buf bootRoot, x.2.fs.buf 98, x.2.fs.buf 97))
        = some (0, 0, bootRoot, .inode { newInode rootMode 3 with ramfsDir := some 98 },
          .dirent ⟨[chr 'm'], some 97, none⟩, .inode (newInode 0x41ED 1)) := by
    decide +kernel
  obtain ⟨⟨_, k₀⟩, heq₀, hrun'⟩ := Option.bind_eq_some_iff.mp hrun
  obtain ⟨⟨_, k⟩, heq, hx⟩ := Option.map_eq_some_iff.mp hrun'
  simp only [Prod.mk.injEq] at hx
  obtain ⟨rfl, rfl, hroot, hrootBuf, hdirent, hm⟩ := hx
  have hboot : (kernel noCard).Reachable (fun _ _ => True) bootKernel := .start bootKernel_start
  have h := kernelOk_anything hboot
  have hshell := booted_bootKernel.shell_eq
  obtain ⟨cwd, hcwd⟩ := h.cwds 0 shell hshell
  have hstep₀ : (kernel noCard).step bootKernel (.call 0 (.mkdir (some slashM) 0x1FF)) k₀ :=
    ⟨⟨shell, hshell, by simp [shell]⟩, 0, heq₀⟩
  have hk₀ : (kernel noCard).Reachable (fun _ _ => True) k₀ := .step hboot trivial hstep₀
  have htable : k₀.processTable 0 = some shell := by
    have hends := (sysMkdir_ends (h.setCurrent 0) hshell hcwd False.elim).ensures.of_eq heq₀
    rw [hends.2.1]
    apply hshell
  have hstep : (kernel noCard).step k₀ (.call 0 (.mkdir (some slashMX) 0x1FF)) k :=
    ⟨⟨shell, htable, by simp [shell]⟩, 0, heq⟩
  have hk : ((kernel noCard).startAt k₀).Reachable (fun _ _ => True) k :=
    .step (a := Action.call 0 (.mkdir (some slashMX) 0x1FF)) (.start rfl) trivial hstep
  have hw : Walk k₀.fs k₀.fs.root [[chr 'm']] [bootRoot] 97 := by
    rw [hroot]
    exact walk_first ⟨hrootBuf, rfl, by decide, by decide⟩ rfl hdirent rfl rfl
  obtain ⟨hnode, hwalk, -⟩ := names_persist hk₀ hm rfl hk
  exact ⟨k₀, k, _, hk₀, hm, heq, hw, hnode, by simpa using hwalk _ _ hw⟩

end Mosnix.Os
