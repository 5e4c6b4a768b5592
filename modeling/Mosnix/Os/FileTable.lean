import Mosnix.Lib.Refs
import Mosnix.Os.Calls

/-!
# The table of open files

Every entry of `global_fd` counts its references: the file descriptors of the processes, and the
calls of `sys_read` and `sys_write` that have not ended.  `Counted k e` says that the counts are
those of the state `k`, up to the references `e` that a system call holds while it runs, and that
the record of the calls agrees with the counts: the calls of `file_new` and of `close` for a file
alternate, and the file has references from a call of `file_new` to the call of `close` after it.
-/

namespace Mosnix.Os

open Fat Fs Program

variable {σ : Type} {sd : SdDriver σ} {k k' k'' : Kernel σ} {f g : FileId} {pid : ProcId} {n : Fd}
  {p p' : Proc} {e : FileId → ℤ}

/-! ### References -/

/-- The file that a file descriptor of a process refers to. -/
def Kernel.slot (k : Kernel σ) (q : ProcId × Fd) : Option FileId :=
  (k.processTable q.1).bind fun p => p.fd q.2

/-- The file of the read or write of a process that is in flight. -/
def Kernel.transfer (k : Kernel σ) (pid : ProcId) : Option FileId :=
  (k.processTable pid).bind Proc.inFlight

/-- The number of references to a file. -/
def Kernel.refs (k : Kernel σ) (f : FileId) : ℕ :=
  Refs.refs k.slot f + Refs.refs k.transfer f

/-- The file of a call that is recorded. -/
def FileEvent.file : FileEvent → FileId
  | .opened f => f
  | .closed f => f

/-- The calls for the file `f` alternate: `file_new` first, and `close` before the next call of
`file_new`.  The file is open after the last call if `b` is true. -/
inductive History (f : FileId) : List FileEvent → Bool → Prop where
  | start : History f [] false
  | opened {l : List FileEvent} (h : History f l false) : History f (.opened f :: l) true
  | closed {l : List FileEvent} (h : History f l true) : History f (.closed f :: l) false
  | other {l : List FileEvent} {b : Bool} (x : FileEvent) (hx : x.file ≠ f) (h : History f l b) :
      History f (x :: l) b

/-- The reference that a slot with the contents `v` is. -/
def one (v : Option FileId) (f : FileId) : ℤ := if v = some f then 1 else 0

/-- The counts of the files are those of the state, with the references `e` in addition. -/
structure Counted (k : Kernel σ) (e : FileId → ℤ) : Prop where
  count_eq : ∀ f, (k.globalFd f).count = k.refs f + e f
  history : ∀ f, History f k.events (decide (0 < (k.globalFd f).count))

/-- A file that a file descriptor refers to. -/
theorem refs_pos_of_fd (hp : k.processTable pid = some p) (hf : p.fd n = some f) :
  0 < k.refs f
  := by
  have hslot : k.slot (pid, n) = some f := by simp [Kernel.slot, hp, hf]
  have hpos := Refs.refs_pos hslot
  rw [Kernel.refs]
  omega

/-- A file that is in flight. -/
theorem refs_pos_of_inFlight (hp : k.processTable pid = some p) (hf : p.inFlight = some f) :
  0 < k.refs f
  := by
  have htransfer : k.transfer pid = some f := by simp [Kernel.transfer, hp, hf]
  have hpos := Refs.refs_pos htransfer
  rw [Kernel.refs]
  omega

/-- A process has as many references as it has descriptors, and one more. -/
theorem refs_le (k : Kernel σ) (f : FileId) :
  k.refs f ≤ CONFIG_PROC_MAX * (CONFIG_PROC_FD_MAX + 1)
  := by
  have hslot := Refs.refs_le_card k.slot f
  have htransfer := Refs.refs_le_card k.transfer f
  rw [Fintype.card_prod, Fintype.card_fin, Fintype.card_fin] at hslot
  rw [Fintype.card_fin] at htransfer
  rw [Kernel.refs, Nat.mul_add, Nat.mul_one]
  omega

section SetProc

/-- The references of a process after one of them is replaced. -/
theorem slot_setProc (hp : k.processTable pid = some p) {v : Option FileId}
    (hfd : p'.fd = Function.update p.fd n v) :
  (k.setProc pid p').slot = Function.update k.slot (pid, n) v
  := by
  funext ⟨pid', m⟩
  by_cases hpid : pid' = pid
  · subst hpid
    by_cases hm : m = n
    · subst hm
      simp [Kernel.slot, Kernel.setProc, hfd]
    · simp [Kernel.slot, Kernel.setProc, hfd, hm, hp]
  · simp [Kernel.slot, Kernel.setProc, hpid]

theorem slot_setProc_of_fd_eq (hp : k.processTable pid = some p) (hfd : p'.fd = p.fd) :
  (k.setProc pid p').slot = k.slot
  := by
  funext ⟨pid', m⟩
  by_cases hpid : pid' = pid
  · subst hpid
    simp [Kernel.slot, Kernel.setProc, hfd, hp]
  · simp [Kernel.slot, Kernel.setProc, hpid]

theorem transfer_setProc : (k.setProc pid p').transfer = Function.update k.transfer pid p'.inFlight
  := by
  funext pid'
  by_cases hpid : pid' = pid
  · subst hpid
    simp [Kernel.transfer, Kernel.setProc]
  · simp [Kernel.transfer, Kernel.setProc, hpid]

end SetProc

namespace Counted

/-- The counts do not depend on the file system, and on the other members of a file. -/
theorem congr (h : Counted k e) (hcount : ∀ f, (k'.globalFd f).count = (k.globalFd f).count)
    (hproc : k'.processTable = k.processTable) (hevents : k'.events = k.events) :
  Counted k' e
  := by
  have hslot : k'.slot = k.slot := by
    funext q
    rw [Kernel.slot, Kernel.slot, hproc]
  have htransfer : k'.transfer = k.transfer := by
    funext pid
    rw [Kernel.transfer, Kernel.transfer, hproc]
  constructor
  · intro f
    rw [hcount, h.count_eq, Kernel.refs, Kernel.refs, hslot, htransfer]
  · intro f
    rw [hcount, hevents]
    apply h.history

/-- A store to a file descriptor. -/
theorem setFd (h : Counted k e) (p' : Proc) (hp : k.processTable pid = some p) {v : Option FileId}
    (hfd : p'.fd = Function.update p.fd n v) (hin : p'.inFlight = p.inFlight) :
  Counted (k.setProc pid p') (e + one (p.fd n) - one v)
  := by
  constructor
  · intro f
    have hslot := Refs.refs_update k.slot (pid, n) v f
    have htransfer : (k.setProc pid p').transfer = k.transfer := by
      rw [transfer_setProc, hin, Function.update_eq_self_iff]
      simp [Kernel.transfer, hp]
    have hold : k.slot (pid, n) = p.fd n := by simp [Kernel.slot, hp]
    rw [hold] at hslot
    change (k.globalFd f).count = _
    rw [h.count_eq, Kernel.refs, Kernel.refs, slot_setProc hp hfd, htransfer]
    simp only [Pi.add_apply, Pi.sub_apply, one]
    split_ifs at hslot ⊢ <;> push_cast <;> omega
  · apply h.history

/-- A read or write begins or ends. -/
theorem setInFlight (h : Counted k e) (p' : Proc) (hp : k.processTable pid = some p)
    (hfd : p'.fd = p.fd) :
  Counted (k.setProc pid p') (e + one p.inFlight - one p'.inFlight)
  := by
  constructor
  · intro f
    have htransfer := Refs.refs_update k.transfer pid p'.inFlight f
    have hold : k.transfer pid = p.inFlight := by simp [Kernel.transfer, hp]
    rw [hold] at htransfer
    change (k.globalFd f).count = _
    rw [h.count_eq, Kernel.refs, Kernel.refs, slot_setProc_of_fd_eq hp hfd, transfer_setProc]
    simp only [Pi.add_apply, Pi.sub_apply, one]
    split_ifs at htransfer ⊢ <;> push_cast <;> omega
  · apply h.history

/-- A reference to an open file is taken. -/
theorem ref (h : Counted k e) (hpos : 0 < (k.globalFd f).count) :
  Counted (k.refFile f) (e + one (some f))
  := by
  constructor
  · intro g
    change (Function.update k.globalFd f _ g).count = (k.refs g : ℤ) + _
    by_cases hg : g = f
    · subst hg
      simp only [Function.update_self, h.count_eq, Pi.add_apply, one, if_true]
      ring
    · simp [hg, h.count_eq, one, Ne.symm hg]
  · intro g
    change History g k.events (decide (0 < (Function.update k.globalFd f _ g).count))
    have hg' := h.history g
    by_cases hg : g = f
    · subst hg
      rw [decide_eq_true hpos] at hg'
      rwa [Function.update_self, decide_eq_true (by dsimp only; omega)]
    · rwa [Function.update_of_ne hg]

end Counted

/-- A reference is given up. -/
theorem Counted.derefFile (h : Counted k e) (hpos : 0 < (k.globalFd f).count)
    (fs : FileSystem σ) :
  Counted (k.derefFile f fs) (e - one (some f))
  := by
  constructor
  · intro g
    change (Function.update k.globalFd f _ g).count = (k.refs g : ℤ) + _
    by_cases hg : g = f
    · subst hg
      simp only [Function.update_self, h.count_eq, Pi.sub_apply, one, if_true]
      ring
    · simp [hg, h.count_eq, one, Ne.symm hg]
  · intro g
    change History g (if (k.globalFd f).count - 1 ≤ 0 then _ else _)
      (decide (0 < (Function.update k.globalFd f _ g).count))
    have hg' := h.history g
    by_cases hg : g = f
    · subst hg
      rw [decide_eq_true hpos] at hg'
      rw [Function.update_self]
      split_ifs with hlast
      · rw [decide_eq_false (by dsimp only; omega)]
        apply History.closed hg'
      · rwa [decide_eq_true (by dsimp only; omega)]
    · rw [Function.update_of_ne hg]
      split_ifs with hlast
      · apply History.other _ _ hg'
        exact Ne.symm hg
      · apply hg'

/-- A file is opened, with one reference. -/
theorem Counted.newFile (h : Counted k e) (hzero : (k.globalFd f).count = 0) (flags mode : Word) :
  Counted (k.newFile f flags mode) (e + one (some f))
  := by
  constructor
  · intro g
    change (Function.update k.globalFd f _ g).count = (k.refs g : ℤ) + _
    by_cases hg : g = f
    · subst hg
      have hcount := h.count_eq g
      simp only [Function.update_self, Pi.add_apply, one, if_true]
      omega
    · simp [hg, h.count_eq, one, Ne.symm hg]
  · intro g
    change History g (.opened f :: k.events) (decide (0 < (Function.update k.globalFd f _ g).count))
    have hg' := h.history g
    by_cases hg : g = f
    · subst hg
      rw [decide_eq_false (by omega)] at hg'
      rw [Function.update_self]
      apply History.opened hg'
    · rw [Function.update_of_ne hg]
      apply History.other _ _ hg'
      exact Ne.symm hg

/-- The file `f` is stored in the file descriptor. -/
theorem Counted.putFile (h : Counted k (e + one (some f)))
    (hp : k.processTable k.current = some p) (hn : p.fd n = none) :
  Counted (k.setProc k.current { p with fd := Function.update p.fd n (some f) }) e
  := by
  have hput := h.setFd { p with fd := Function.update p.fd n (some f) } hp rfl rfl
  rw [hn, show one none = 0 from funext fun g => by simp [one], add_zero, add_sub_cancel_right]
    at hput
  apply hput

/-! ### Opening a file -/

/-- At most the file system and the file `f` are changed from `k` to `k'`, and the count of `f` is
not. -/
structure Touched (k : Kernel σ) (f : FileId) (k' : Kernel σ) : Prop where
  count_eq : (k'.globalFd f).count = (k.globalFd f).count
  file_eq : ∀ g, g ≠ f → k'.globalFd g = k.globalFd g
  processTable_eq : k'.processTable = k.processTable
  current_eq : k'.current = k.current
  tempPath_eq : k'.tempPath = k.tempPath
  events_eq : k'.events = k.events

namespace Touched

theorem refl : Touched k f k := ⟨rfl, fun _ _ => rfl, rfl, rfl, rfl, rfl⟩

variable (h : Touched k f k')

include h

theorem trans (h' : Touched k' f k'') : Touched k f k'' := by
  refine ⟨h'.count_eq.trans h.count_eq, ?_, h'.processTable_eq.trans h.processTable_eq,
    h'.current_eq.trans h.current_eq, h'.tempPath_eq.trans h.tempPath_eq,
    h'.events_eq.trans h.events_eq⟩
  intro g hg
  rw [h'.file_eq g hg, h.file_eq g hg]

theorem setFs (fs : FileSystem σ) : Touched k f { k' with fs := fs } :=
  ⟨h.count_eq, h.file_eq, h.processTable_eq, h.current_eq, h.tempPath_eq, h.events_eq⟩

theorem setFile (file : File) (hcount : file.count = (k'.globalFd f).count) :
  Touched k f (k'.setFile f file)
  := by
  refine ⟨?_, ?_, h.processTable_eq, h.current_eq, h.tempPath_eq, h.events_eq⟩
  · rw [← h.count_eq, ← hcount]
    simp [Kernel.setFile]
  · intro g hg
    rw [← h.file_eq g hg]
    simp [Kernel.setFile, hg]

/-- The count of the file is kept. -/
theorem counted (hk : Counted k e) : Counted k' e := by
  apply hk.congr _ h.processTable_eq h.events_eq
  intro g
  by_cases hg : g = f
  · rw [hg, h.count_eq]
  · rw [h.file_eq g hg]

/-- A program on the file system. -/
theorem onFs {α : Type} (m : FsM σ α) :
  Ensures (onFs m) k' fun _ k'' => Touched k f k''
  := by
  apply onFs_ensures.mono
  rintro _ _ ⟨fs, rfl⟩
  apply h.setFs

/-- Opening a file of the card. -/
theorem fatfsOpenInfo {cluster size : Long} {op : FileOps} :
  Ensures (fatfsOpenInfo sd f cluster size op) k' fun _ k'' => Touched k f k''
  := by
  apply Ensures.bind (h.onFs _)
  rintro (_ | info) k₁ h₁
  · apply Ensures.pure
    apply h₁
  · apply Ensures.bind_of_eq readFile_eq
    apply Ensures.bind_of_eq setFile_eq
    have h₂ := h₁.setFile { k₁.globalFd f with fatfsInfo := some info } rfl
    apply Ensures.bind (h₂.onFs _)
    intro opened k₃ h₃
    apply Ensures.bind (h₃.onFs _)
    intro _ k₄ h₄
    split_ifs
    · apply Ensures.bind_of_eq setFile_eq
      apply Ensures.pure
      apply h₄.setFile
      rw [h₄.count_eq, ← h₁.count_eq]
    · apply Ensures.bind (h₄.onFs _)
      intro _ k₅ h₅
      apply Ensures.pure
      apply h₅

theorem fatfsOpen :
  Ensures (fatfsOpen sd f) k' fun _ k'' => Touched k f k''
  := by
  apply Ensures.bind_of_eq readFile_eq
  split
  · apply Ensures.fault
  · apply Ensures.bind (h.onFs _)
    intro i k₁ h₁
    split_ifs
    · apply Ensures.bind (h₁.onFs _)
      intro info k₂ h₂
      apply Ensures.bind (h₂.onFs _)
      rintro (_ | cluster) k₃ h₃
      · apply Ensures.pure
        apply h₃
      · apply h₃.fatfsOpenInfo
    · apply Ensures.bind (h₁.onFs _)
      intro info k₂ h₂
      apply h₂.fatfsOpenInfo
    · apply Ensures.pure
      apply h₁

/-- Opening a directory that a file system is mounted on. -/
theorem ramfsOpenMount {b : BufId} :
  Ensures (ramfsOpenMount sd f b) k' fun _ k'' => Touched k f k''
  := by
  apply Ensures.bind_of_eq readFile_eq
  apply Ensures.bind (h.onFs _)
  intro i k₁ h₁
  split
  · apply Ensures.fault
  · apply Ensures.bind (h₁.onFs _)
    intro _ k₂ h₂
    apply Ensures.bind_discard (h₂.onFs _)
    intro _ k₃ h₃
    apply Ensures.bind (h₃.onFs _)
    intro m k₄ h₄
    apply Ensures.bind_of_eq setFile_eq
    split
    · apply fatfsOpen
      apply h₄.setFile
      rw [h₄.count_eq, ← h.count_eq]
    · apply Ensures.fault

/-- Opening a device. -/
theorem ramfsOpenDevice {b : BufId} :
  Ensures (ramfsOpenDevice f b) k' fun _ k'' => Touched k f k''
  := by
  apply Ensures.bind_of_eq readFile_eq
  apply Ensures.bind_of_eq setFile_eq
  have h₁ := h.setFile { k'.globalFd f with inode := none } rfl
  apply Ensures.bind (h₁.onFs _)
  intro i k₂ h₂
  apply Ensures.bind (P := fun _ k'' => Touched k f k'')
  · unfold charDeviceOpen deviceOpen
    split
    · apply Ensures.pure
      apply h₂
    · apply Ensures.bind_of_eq readFile_eq
      apply Ensures.bind_of_eq setFile_eq
      apply Ensures.pure
      apply h₂.setFile
      rfl
  · intro r k₃ h₃
    apply Ensures.bind_discard (h₃.onFs _)
    intro _ k₄ h₄
    apply Ensures.pure
    apply h₄

/-- Opening an inode touches the new file only. -/
theorem openInode {op : InodeOps} :
  Ensures (openInode sd op f) k' fun _ k'' => Touched k f k''
  := by
  cases op with
  | fatfs => apply h.fatfsOpen
  | ramfs =>
      apply Ensures.bind_of_eq readFile_eq
      split
      · apply Ensures.fault
      · split_ifs
        · apply h.ramfsOpenMount
        · apply Ensures.bind_of_eq setFile_eq
          apply Ensures.pure
          apply h.setFile
          rfl
        · apply Ensures.pure
          apply h
        · apply h.ramfsOpenDevice
        · apply Ensures.pure
          apply h

end Touched

/-! ### System calls -/

theorem Counted.setFs (h : Counted k e) (fs : FileSystem σ) (tempPath : List Byte) :
  Counted { k with fs := fs, tempPath := tempPath } e
  :=
  h.congr (fun _ => rfl) rfl rfl

theorem one_none : one none = 0 := by
  funext g
  simp [one]

/-- A file that is referred to is in use. -/
theorem Counted.count_pos (h : Counted k e) (hpos : 0 < (k.refs f : ℤ) + e f) :
  0 < (k.globalFd f).count
  := by
  rw [h.count_eq]
  apply hpos

/-- A reference that is held in addition is given up. -/
theorem Counted.drop (h : Counted k (e + one (some f))) (he : 0 ≤ e f) (fs : FileSystem σ) :
  Counted (k.derefFile f fs) e
  := by
  have hderef := h.derefFile (f := f) ?_ fs
  · rwa [add_sub_cancel_right] at hderef
  · apply h.count_pos
    simp only [Pi.add_apply, one, if_true]
    omega

/-- A reference to a file that a descriptor refers to. -/
theorem Counted.refFile (h : Counted k 0) (hp : k.processTable pid = some p)
    (hf : p.fd n = some f) :
  Counted (k.refFile f) (one (some f))
  := by
  have hpos := refs_pos_of_fd hp hf
  have href := h.ref (f := f) (h.count_pos (by simpa using hpos))
  rwa [zero_add] at href

/-- A store to a member of a process that is not a reference. -/
theorem Counted.setProc (h : Counted k e) (hp : k.processTable pid = some p) (hfd : p'.fd = p.fd)
    (hin : p'.inFlight = p.inFlight) :
  Counted (k.setProc pid p') e
  := by
  have hset := h.setInFlight p' hp hfd
  rwa [hin, add_sub_cancel_right] at hset

/-- `file_open` after the lookup: it fails, or stores a new file in the first descriptor that is not in
use. -/
def Puts (k : Kernel σ) (p : Proc) (r : Int) (k' : Kernel σ) : Prop :=
  r < 0 ∧ k'.processTable = k.processTable
    ∨ ∃ n f, r = (n : Fd) ∧ firstFree p = some n ∧ k'.processTable
      = Function.update k.processTable k.current (some { p with fd := Function.update p.fd n (some f) })

section Calls

variable {c : Syscall} {m : KernelM σ Int} (hp : k.processTable k.current = some p)

include hp

theorem fileOpenInode_puts {b : BufId} {flags : Word} :
  Ensures (fileOpenInode sd b flags) k fun r k' => Puts k p r k' ∧ (Counted k 0 → Counted k' 0)
  := by
  apply Ensures.bind onFs_ensures
  rintro i _ ⟨fs, rfl⟩
  apply Ensures.bind fileNew_ends.ensures
  rintro _ k₁ (⟨rfl, rfl, -⟩ | ⟨f, rfl, hzero, rfl⟩)
  · apply Ensures.bind_discard onFs_ensures
    rintro _ _ ⟨fs', rfl⟩
    apply Ensures.pure
    exact ⟨Or.inl ⟨by decide, rfl⟩, fun h => h.setFs fs' k.tempPath⟩
  · apply Ensures.bind_of_eq readFile_eq
    apply Ensures.bind_of_eq setFile_eq
    have htouched := (Touched.refl (k := Kernel.newFile _ f flags i.mode)).setFile
      { (Kernel.newFile { k with fs := fs } f flags i.mode).globalFd f with inode := some b } rfl
    apply Ensures.bind htouched.openInode
    intro error k₂ ht
    have htable : k₂.processTable = k.processTable := ht.processTable_eq
    have hcurrent : k₂.current = k.current := ht.current_eq
    have hcounted (h : Counted k 0) : Counted k₂ (0 + one (some f)) :=
      ht.counted ((h.setFs fs k.tempPath).newFile hzero flags i.mode)
    have hderef {r : Int} (hr : r < 0) :
        Ensures (do discard (fileDeref f); return r) k₂ fun r k' =>
          Puts k p r k' ∧ (Counted k 0 → Counted k' 0) := by
      apply Ensures.bind_discard fileDeref_ensures
      rintro _ _ ⟨fs', rfl⟩
      apply Ensures.pure
      exact ⟨Or.inl ⟨hr, htable⟩, fun h => (hcounted h).drop le_rfl fs'⟩
    split_ifs with herror
    · apply hderef herror
    · have hp₂ : k₂.processTable k₂.current = some p := by rw [htable, hcurrent, hp]
      apply Ensures.bind (filePut_ends hp₂).ensures
      rintro r k₃ (⟨hr, rfl⟩ | ⟨n, rfl, hn, rfl⟩)
      · rw [if_pos hr]
        apply hderef hr
      · rw [if_neg (by omega)]
        apply Ensures.pure
        refine ⟨Or.inr ⟨n, f, rfl, hn, ?_⟩, fun h => (hcounted h).putFile hp₂ (fd_of_firstFree hn)⟩
        rw [Kernel.setProc, htable, hcurrent]

/-- `file_open` puts a file into the table and counts it, or fails. -/
theorem fileOpen_puts {path : Option CStr} {flags mode : Word} :
  Ensures (fileOpen sd path flags mode) k fun r k' => Puts k p r k' ∧ (Counted k 0 → Counted k' 0)
  := by
  apply Ensures.bind inodeLookupPath_ensures
  rintro ⟨error, inode⟩ _ ⟨fs, tempPath, rfl⟩
  dsimp only
  split_ifs with herror
  · apply Ensures.pure
    exact ⟨Or.inl ⟨herror, rfl⟩, fun h => h.setFs fs tempPath⟩
  · split
    · apply Ensures.fault
    · apply (fileOpenInode_puts (k := { k with fs := fs, tempPath := tempPath }) hp).mono
      rintro r k' ⟨hputs, hcounted⟩
      exact ⟨hputs, fun h => hcounted (h.setFs fs tempPath)⟩

/-- A call that looks up a path puts a file into a descriptor, or changes no file. -/
theorem LooksUp.puts (hc : LooksUp c) :
  Ensures (c.run sd) k fun r k' => Opens c ∧ Puts k p r k' ∧ (Counted k 0 → Counted k' 0)
    ∨ ¬ Opens c ∧ Located k p k'
  := by
  by_cases hopens : Opens c
  · simp only [hopens, true_and, not_true_eq_false, false_and, or_false]
    cases c with
    | «open» path flags mode =>
        apply Ensures.bind_of_eq (currentProc_eq hp)
        apply fileOpen_puts hp
    | opendir path => apply fileOpen_puts hp
    | _ => cases hopens
  · simp only [hopens, false_and, not_false_eq_true, true_and, false_or]
    apply hc.located hp hopens

/-- What a system call goes on with keeps the counts. -/
theorem Does.counted (hdoes : Does sd k p c m k') (h : Counted k 0)
    (hready : c ≠ .transferEnd → p.inFlight = none) :
  Ensures m k' fun _ k' => Counted k' 0
  := by
  cases hdoes with
  | returns => exact Ensures.pure h
  | closes hn hf =>
      rename_i fd n f
      have hset := h.setFd { p with fd := Function.update p.fd n none } hp rfl rfl
      rw [one_none, sub_zero, hf] at hset
      apply fileDeref_ensures.mono
      rintro _ _ ⟨fs, rfl⟩
      apply hset.drop le_rfl
  | begins hc hf =>
      rename_i n f
      have hnone : p.inFlight = none := by
        apply hready
        rintro rfl
        cases hc
      have hset := (h.refFile hp hf).setInFlight { p with inFlight := some f } hp rfl
      rw [hnone, one_none, add_zero, sub_self] at hset
      exact Ensures.pure hset
  | ends hf =>
      have hset := h.setInFlight { p with inFlight := none } hp rfl
      rw [one_none, sub_zero, hf] at hset
      apply Ensures.bind_discard fileDeref_ensures
      rintro _ _ ⟨fs, rfl⟩
      apply Ensures.pure
      apply hset.drop le_rfl
  | faults => apply Ensures.fault
  | duplicates hc hf =>
      rename_i m n f
      have href := h.refFile hp hf
      apply (dup2Replace_ensures (k := k.refFile f) hp).mono
      rintro _ _ ⟨-, k₁, rfl, ⟨hn, rfl⟩ | ⟨f₂, fs, hn, rfl⟩⟩
      · have hset := href.setFd (p.install n f) hp rfl rfl
        rw [hn, one_none, add_zero, sub_self] at hset
        apply hset
      · have hrefs := refs_pos_of_fd hp hn
        have hone : 0 ≤ one (some f) f₂ := by
          rw [one]
          split_ifs <;> decide
        have hpos := href.count_pos (f := f₂) (show 0 < (k.refs f₂ : ℤ) + _ by omega)
        have hset := (href.derefFile hpos fs).setFd (p.install n f) hp rfl rfl
        rw [hn, sub_add_cancel, sub_self] at hset
        apply hset
  | flags => exact Ensures.pure (h.setProc hp rfl rfl)
  | sets =>
      apply Ensures.pure
      apply (Touched.refl.setFile _ _).counted h
      rfl
  | masks => exact Ensures.pure (h.setProc hp rfl rfl)
  | looksUp hc =>
      apply (hc.puts hp).mono
      rintro r _ (⟨-, -, hcounted⟩ | ⟨-, fs, tempPath, cwd, rfl⟩)
      · apply hcounted h
      · exact (h.setFs fs tempPath).setProc hp rfl rfl

end Calls

/-- A system call keeps the counts. -/
theorem run_counted (h : Counted k 0) (c : Syscall) (hready : Ready k k.current c) :
  Ensures (c.run sd) k fun _ k' => Counted k' 0
  := by
  obtain ⟨p, hp, hin⟩ := hready
  apply (run_comes hp c).ensures
  intro m k' hdoes
  apply hdoes.counted hp h hin.mpr

/-- The operation of a file in flight changes the file and the file system only. -/
theorem operate_ensures {posn : Long} {info : FatfsInodeInfo} {t : σ} :
  Ensures (operate posn info t) k fun _ k' => ∃ f, Touched k f k'
  := by
  apply Ensures.bind currentProc_ensures
  rintro p k ⟨rfl, -⟩
  split
  · apply Ensures.fault
  · rename_i f _
    apply Ensures.bind_of_eq readFile_eq
    apply Ensures.bind_of_eq setFile_eq
    have h₁ := (Touched.refl (k := k) (f := f)).setFile { k.globalFd f with posn := posn } rfl
    apply Ensures.bind (h₁.onFs _)
    intro _ k₂ h₂
    split
    · exact Ensures.pure ⟨f, h₂⟩
    · apply Ensures.bind_discard (h₂.onFs _)
      intro _ k₃ h₃
      apply (h₃.onFs _).mono
      intro _ k₄ h₄
      exact ⟨f, h₄⟩

/-- A new process has no references. -/
theorem Counted.newProc (h : Counted k e) (hnone : k.processTable pid = none)
    (hfd : ∀ n, p.fd n = none) (hin : p.inFlight = none) :
  Counted (k.setProc pid p) e
  := by
  have hslot : (k.setProc pid p).slot = k.slot := by
    funext ⟨pid', m⟩
    by_cases hpid : pid' = pid
    · subst hpid
      simp [Kernel.slot, Kernel.setProc, hnone, hfd]
    · simp [Kernel.slot, Kernel.setProc, hpid]
  have htransfer : (k.setProc pid p).transfer = k.transfer := by
    rw [transfer_setProc, hin, Function.update_eq_self_iff]
    simp [Kernel.transfer, hnone]
  constructor
  · intro f
    rw [Kernel.refs, hslot, htransfer]
    apply h.count_eq
  · apply h.history

/-- A step of the kernel keeps the counts. -/
theorem Counted.step {a : Action σ} (h : Counted k 0) (hstep : (kernel sd).step k a k') :
  Counted k' 0
  := by
  have hcurrent (pid : ProcId) : Counted { k with current := pid } 0 :=
    h.congr (fun _ => rfl) rfl rfl
  cases a with
  | call pid c =>
      obtain ⟨hready, r, heq⟩ := hstep
      apply (run_counted (hcurrent pid) c hready).of_eq heq
  | operate pid posn info t =>
      obtain ⟨f, htouched⟩ := operate_ensures.of_eq hstep
      apply htouched.counted (hcurrent pid)
  | procCreate parent =>
      obtain ⟨r, heq⟩ := hstep
      obtain rfl | ⟨pid, p, hnone, hchild, rfl⟩ := procCreate_ensures.of_eq heq
      · apply h
      · apply h.newProc hnone hchild.fd_eq hchild.inFlight_eq

/-! ### The kernel after boot -/

/-- The shell after `proc_start_shell`. -/
def shell : Proc where
  fd := Function.update (Function.update (Function.update (fun _ => none) 0 (some 0)) 1 (some 0)) 2
    (some 0)
  umask := 0x12
  cwd := rootCwd

/-- The console after `proc_start_shell`. -/
def console : File := ⟨3, O_RDWR, 0x1B0, some .basicTty, none, none, 0⟩

/-- The kernel after `proc_start_shell`. -/
structure Booted (k : Kernel σ) (t : σ) (tempPath : List Byte) : Prop where
  fs_eq : k.fs = boot t
  tempPath_eq : k.tempPath = tempPath
  console_eq : k.globalFd 0 = console
  count_eq : ∀ f, f ≠ 0 → (k.globalFd f).count = 0
  shell_eq : k.processTable 0 = some shell
  process_eq : ∀ pid, pid ≠ 0 → k.processTable pid = none
  events_eq : k.events = [.opened 0]

theorem procStartShell_ends (t : σ) (files : FileId → File) (tempPath : List Byte) :
  Ends procStartShell (kernelInit t files tempPath) fun _ k => Booted k t tempPath
  := by
  refine ⟨(), _, rfl, ?_⟩
  constructor
  · rfl
  · rfl
  · rfl
  · intro f hf
    simp [Kernel.setFile, Kernel.setProc, hf, kernelInit, fileInit]
  · rfl
  · intro pid hpid
    simp [Kernel.setFile, Kernel.setProc, hpid, kernelInit]
  · rfl

theorem Booted.refs_eq {t : σ} {tempPath : List Byte} (h : Booted k t tempPath) (f : FileId) :
  k.refs f = if f = 0 then 3 else 0
  := by
  have hslot : k.slot = fun q => if q.1 = 0 then shell.fd q.2 else none := by
    funext q
    by_cases hq : q.1 = 0
    · simp [Kernel.slot, hq, h.shell_eq]
    · simp [Kernel.slot, hq, h.process_eq]
  have htransfer : k.transfer = fun _ => none := by
    funext pid
    by_cases hpid : pid = 0
    · simp [Kernel.transfer, hpid, h.shell_eq, shell]
    · simp [Kernel.transfer, hpid, h.process_eq]
  rw [Kernel.refs, hslot, htransfer]
  revert f
  decide +kernel

/-- The counts are right at boot. -/
theorem Booted.counted {t : σ} {tempPath : List Byte} (h : Booted k t tempPath) : Counted k 0 := by
  constructor
  · intro f
    rw [h.refs_eq]
    by_cases hf : f = 0
    · simp [hf, h.console_eq, console]
    · simp [hf, h.count_eq]
  · intro f
    rw [h.events_eq]
    by_cases hf : f = 0
    · rw [hf, h.console_eq]
      apply History.opened History.start
    · rw [h.count_eq f hf]
      apply History.other _ _ History.start
      exact Ne.symm hf

/-- The counts are right in every state of the kernel. -/
theorem counted_of_reachable (hk : (kernel sd).Reachable (fun _ _ => True) k) : Counted k 0 := by
  apply hk.invariant
  · rintro k ⟨t, files, tempPath, -, heq⟩
    apply ((procStartShell_ends t files tempPath).ensures.of_eq heq).counted
  · intro k a k' h _ hstep
    apply h.step hstep

end Mosnix.Os
