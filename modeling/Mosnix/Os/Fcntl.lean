import Mosnix.Os.Steps

/-!
# Commands on descriptors

The commands of `sys_fcntl`.  A command that fails has no effect, except for `F_SETFD` and `F_SETFL`:
these make their change, but the `break` after it leads to the `return -EINVAL` at the end of the
function (`sysFcntl_iff`).
-/

namespace Mosnix.Os

open Fat Fs Program

variable {σ : Type} {k k' : Kernel σ} {f : FileId} {n : Fd} {p : Proc} {fd cmd value : Int}

/-- The descriptor `fd` of the process refers to a file. -/
def IsOpen (p : Proc) (fd : Int) (n : Fd) (f : FileId) : Prop :=
  fdIndex fd = some n ∧ p.fd n = some f

/-- The descriptors, the close-on-exec flags, and the flags and counts of the open files are the
same. -/
def FilesUnchanged (k k' : Kernel σ) : Prop :=
  (∀ pid, (k'.processTable pid).map (fun p => (p.fd, p.cloexec))
      = (k.processTable pid).map fun p => (p.fd, p.cloexec))
    ∧ ∀ f, (k'.globalFd f).flags = (k.globalFd f).flags ∧ (k'.globalFd f).count = (k.globalFd f).count

/-- A call of `sys_fcntl` by the process `p` that fails has no effect.  The commands `F_SETFD` and
`F_SETFL` succeed on a descriptor that is in use, and then `F_GETFD` and `F_GETFL` report the
change. -/
def FcntlOk (k : Kernel σ) (p : Proc) (fd cmd value : Int) : Prop :=
  Ends (sysFcntl fd cmd value) k fun r k' => (r < 0 → FilesUnchanged k k') ∧
    ∀ n f, IsOpen p fd n f →
      (cmd = F_SETFD → 0 ≤ r ∧ ∀ v, Ends (sysFcntl fd F_GETFD v) k' fun r' _ =>
        r' = ((setCloexec value).toNat : Int))
      ∧ (cmd = F_SETFL → 0 ≤ r ∧ ∀ v, Ends (sysFcntl fd F_GETFL v) k' fun r' _ =>
        r' = (setFlags (k.globalFd f).flags value).toInt)

theorem FilesUnchanged.refl (k : Kernel σ) : FilesUnchanged k k :=
  ⟨fun _ => rfl, fun _ => ⟨rfl, rfl⟩⟩

/-- A command on a descriptor that is not in use. -/
theorem sysFcntl_closed (hp : k.processTable k.current = some p)
    (hclosed : ∀ n f, ¬ IsOpen p fd n f) :
  sysFcntl fd cmd value k = some (-EBADF, k)
  := by
  apply (bind_eq (fileGet_eq hp fd)).trans
  cases hn : fdIndex fd with
  | none => rfl
  | some n =>
      cases hf : p.fd n with
      | none =>
          rw [Option.bind_some, hf]
          rfl
      | some f => cases hclosed n f ⟨hn, hf⟩

/-- A scan that fails changes nothing. -/
theorem sysDupScan_failed (hp : k.processTable k.current = some p) (oldfd newfd : Int) :
  Ends (sysDupScan oldfd newfd) k fun r k' => r < 0 → k' = k
  := by
  apply Ends.bind_of_eq (fileGet_eq hp oldfd)
  split
  · apply Ends.pure
    intro _
    rfl
  · split
    · apply Ends.pure
      intro _
      rfl
    · apply Ends.bind_of_eq (currentProc_eq hp)
      split
      · apply Ends.pure
        intro _
        rfl
      · apply Ends.bind_of_eq fileRef_eq
        apply Ends.bind_of_eq setCurrentProc_eq
        apply Ends.pure
        intro hneg
        omega

/-- A command on a descriptor that is in use: `F_SETFD` and `F_SETFL` always fail, and the other
commands change nothing if they fail. -/
theorem sysFcntl_open (hp : k.processTable k.current = some p) (hopen : IsOpen p fd n f) :
  Ends (sysFcntl fd cmd value) k fun r k' =>
    (cmd = F_SETFD ∨ cmd = F_SETFL) ∧ r < 0
      ∨ (cmd ≠ F_SETFD ∧ cmd ≠ F_SETFL) ∧ (r < 0 → k' = k)
  := by
  apply Ends.bind_of_eq (fileGet_eq hp fd)
  rw [hopen.1, Option.bind_some, hopen.2]
  apply Ends.bind_of_eq (currentProc_eq hp)
  apply Ends.bind_of_eq readFile_eq
  split_ifs with hdup hgetfd hsetfd hgetfl hsetfl
  · apply (sysDupScan_failed hp fd value).mono
    intro r k' hfailed
    right
    exact ⟨by rw [hdup]; decide, hfailed⟩
  · apply Ends.pure
    right
    exact ⟨by rw [hgetfd]; decide, fun _ => rfl⟩
  · apply Ends.bind_of_eq setCurrentProc_eq
    apply Ends.pure
    left
    exact ⟨Or.inl hsetfd, by decide⟩
  · apply Ends.pure
    right
    exact ⟨by rw [hgetfl]; decide, fun _ => rfl⟩
  · apply Ends.bind_of_eq setFile_eq
    apply Ends.pure
    left
    exact ⟨Or.inr hsetfl, by decide⟩
  · apply Ends.pure
    right
    exact ⟨⟨hsetfd, hsetfl⟩, fun _ => rfl⟩

/-- A call of `sys_fcntl` is as it should be if and only if the descriptor is not in use, or the command
is not `F_SETFD` or `F_SETFL`. -/
theorem sysFcntl_iff (hp : k.processTable k.current = some p) (fd cmd value : Int) :
  FcntlOk k p fd cmd value ↔ ∀ n f, IsOpen p fd n f → cmd ≠ F_SETFD ∧ cmd ≠ F_SETFL
  := by
  constructor
  · rintro ⟨r, k', hrun, -, hset⟩ n f hopen
    obtain ⟨hcmd, hneg⟩ | ⟨hcmd, -⟩ := (sysFcntl_open hp hopen).ensures.of_eq hrun
    · obtain ⟨hsetfd, hsetfl⟩ := hset n f hopen
      obtain hcmd | hcmd := hcmd
      · have hnonneg := (hsetfd hcmd).1
        omega
      · have hnonneg := (hsetfl hcmd).1
        omega
    · apply hcmd
  · intro hcmd
    by_cases hopen : ∃ n f, IsOpen p fd n f
    · obtain ⟨n, f, hopen⟩ := hopen
      apply (sysFcntl_open hp hopen).mono
      rintro r k' (⟨hset, -⟩ | ⟨hother, hfailed⟩)
      · obtain ⟨hsetfd, hsetfl⟩ := hcmd n f hopen
        cases hset.elim hsetfd hsetfl
      · refine ⟨?_, fun _ _ _ => ⟨fun h => absurd h hother.1, fun h => absurd h hother.2⟩⟩
        intro hneg
        rw [hfailed hneg]
        apply FilesUnchanged.refl
    · have hclosed : ∀ n f, ¬ IsOpen p fd n f := fun n f h => hopen ⟨n, f, h⟩
      refine ⟨_, k, sysFcntl_closed hp hclosed, fun _ => FilesUnchanged.refl k, ?_⟩
      intro n f h
      cases hclosed n f h

/-- The shell sets the close-on-exec flag of descriptor 0: the call fails, but the flag is set. -/
theorem sysFcntl_F_SETFD :
  (∃ k', sysFcntl 0 F_SETFD 1 bootKernel = some (-EINVAL, k')
    ∧ (bootKernel.processTable 0).map (fun p => p.cloexec 0) = some 0
    ∧ (k'.processTable 0).map (fun p => p.cloexec 0) = some 1)
    ∧ ¬ FcntlOk bootKernel shell 0 F_SETFD 1
  := by
  have hrun : (sysFcntl 0 F_SETFD 1 bootKernel).map
      (fun x => (x.1, (x.2.processTable 0).map fun p => p.cloexec 0)) = some (-EINVAL, some 1) := by
    decide +kernel
  obtain ⟨⟨r, k'⟩, heq, hk'⟩ := Option.map_eq_some_iff.mp hrun
  obtain ⟨rfl, hflag⟩ : r = -EINVAL ∧ _ := Prod.ext_iff.mp hk'
  refine ⟨⟨k', heq, by decide +kernel, hflag⟩, ?_⟩
  rintro ⟨r, k'', heq', -, hset⟩
  rw [heq] at heq'
  cases heq'
  have hnonneg := ((hset 0 0 ⟨rfl, rfl⟩).1 rfl).1
  exact absurd hnonneg (by decide)

/-- The shell reads the close-on-exec flag of descriptor 0. -/
theorem sysFcntl_F_GETFD :
  bootKernel.processTable bootKernel.current = some shell
    ∧ FcntlOk bootKernel shell 0 F_GETFD 0
  := by
  have hp : bootKernel.processTable bootKernel.current = some shell := booted_bootKernel.shell_eq
  refine ⟨hp, (sysFcntl_iff hp 0 F_GETFD 0).mpr ?_⟩
  intro n f _
  decide

end Mosnix.Os
