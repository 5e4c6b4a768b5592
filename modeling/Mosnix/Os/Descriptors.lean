import Mosnix.Os.Directories

/-!
# File descriptors

What a system call does to the descriptors of the process that makes it, and to their close-on-exec
flags (`run_effect`).

The flags are in an array of their own.  `sys_dup`, `sys_dup2` and `sys_fcntl` clear the flag of a
descriptor that they install, but `file_open` does not, and `sys_close` does not clear the flag of
the descriptor that it removes.  A flag is therefore left over when a descriptor with the flag is
closed and opened again; if this does not happen then the flags are right in every state.
-/

namespace Mosnix.Os

open Fat Fs Program

variable {σ : Type} {sd : SdDriver σ} {k k' : Kernel σ} {f : FileId} {n : Fd} {p p' : Proc}
  {pid : ProcId} {c : Syscall} {r : Int}

/-! ### The effect of a call on the descriptors -/

/-- What the call `c` that returns `r` does to the descriptors of the process `p`. -/
inductive Changed (p : Proc) : Syscall → Int → Proc → Prop where
  | kept {c : Syscall} {r : Int} {p' : Proc} : p'.fd = p.fd → p'.cloexec = p.cloexec →
      (∀ n, ¬ Installs c r n) → Changed p c r p'
  | closed {fd r : Int} {n : Fd} : fdIndex fd = some n →
      Changed p (.close fd) r { p with fd := Function.update p.fd n none }
  | opened {c : Syscall} {n : Fd} {f : FileId} : Opens c → firstFree p = some n →
      Changed p c n { p with fd := Function.update p.fd n (some f) }
  | duplicated {c : Syscall} {n : Fd} {f : FileId} : Duplicates c →
      Changed p c n (p.install n f)
  | flagged {fd value r : Int} {n : Fd} {f : FileId} : fdIndex fd = some n → p.fd n = some f →
      Changed p (.fcntl fd F_SETFD value) r
        { p with cloexec := Function.update p.cloexec n (setCloexec value) }

/-- The call `c` of the current process `p` leads from `k` to `k'`. -/
def Effect (k : Kernel σ) (p : Proc) (c : Syscall) (r : Int) (k' : Kernel σ) : Prop :=
  ∃ p', k'.processTable = Function.update k.processTable k.current (some p') ∧ Changed p c r p'

section Calls

variable {m : KernelM σ Int} (hp : k.processTable k.current = some p)

include hp

/-- The processes are not changed. -/
theorem Effect.same (htable : k'.processTable = k.processTable) (hr : ∀ n, ¬ Installs c r n) :
  Effect k p c r k'
  := by
  refine ⟨p, ?_, .kept rfl rfl hr⟩
  rw [htable, ← hp, Function.update_eq_self]

/-- What a call goes on with does to the descriptors what the call does. -/
theorem Does.effect (hdoes : Does sd k p c m k') : Ensures m k' fun r k' => Effect k p c r k' := by
  cases hdoes with
  | returns hr => exact Ensures.pure (Effect.same hp rfl hr)
  | closes hn hf =>
      apply fileDeref_ensures.mono
      rintro r _ ⟨fs, rfl⟩
      exact ⟨_, rfl, .closed hn⟩
  | begins hc hf =>
      apply Ensures.pure
      refine ⟨_, rfl, .kept rfl rfl (not_installs ?_)⟩
      cases c <;> simp [Begins, Opens, Duplicates] at hc ⊢
  | ends hf =>
      apply Ensures.bind_discard fileDeref_ensures
      rintro _ _ ⟨fs, rfl⟩
      apply Ensures.pure
      exact ⟨_, rfl, .kept rfl rfl (not_installs (by simp [Opens, Duplicates]))⟩
  | faults => apply Ensures.fault
  | duplicates hc hf =>
      apply (dup2Replace_ensures (k := k.refFile _) hp).mono
      rintro _ _ ⟨rfl, k₁, rfl, ⟨-, rfl⟩ | ⟨f₂, fs, -, rfl⟩⟩
      · exact ⟨_, rfl, .duplicated hc⟩
      · exact ⟨_, rfl, .duplicated hc⟩
  | flags hn hf => exact Ensures.pure ⟨_, rfl, .flagged hn hf⟩
  | sets => exact Ensures.pure (Effect.same hp rfl (not_installs_of_neg (by decide)))
  | masks =>
      apply Ensures.pure
      exact ⟨_, rfl, .kept rfl rfl (not_installs (by simp [Opens, Duplicates]))⟩
  | looksUp hc =>
      apply (hc.puts hp).mono
      rintro r _ (⟨hopens, ⟨hr, htable⟩ | ⟨n, f, rfl, hn, htable⟩, -⟩ | ⟨hopens, fs, tempPath, cwd, rfl⟩)
      · exact Effect.same hp htable (not_installs_of_neg hr)
      · exact ⟨_, htable, .opened hopens hn⟩
      · refine ⟨_, rfl, .kept rfl rfl (not_installs ?_)⟩
        cases c <;> simp [LooksUp, Opens, Duplicates] at hc hopens ⊢

/-- What a system call does to the descriptors of the current process. -/
theorem run_effect (c : Syscall) : Ensures (c.run sd) k fun r k' => Effect k p c r k' := by
  apply (run_comes hp c).ensures
  intro m k' hdoes
  apply hdoes.effect hp

end Calls

/-! ### The close-on-exec flags -/

/-- The descriptors of the processes to which the flag was applied after they were installed. -/
abbrev Marks := Set (ProcId × Fd)

/-- The call `c` of the process `pid` applies the flag to its descriptor `n`, which is in use. -/
def Flags (k : Kernel σ) (pid : ProcId) (c : Syscall) (n : Fd) : Prop :=
  ∃ fd value, c = .fcntl fd F_SETFD value ∧ fdIndex fd = some n
    ∧ BitVec.ofInt 16 value &&& FD_CLOEXEC ≠ 0 ∧ k.slot (pid, n) ≠ none

/-- The marks after the call `c` of the process `pid` returns `r`. -/
def Marks.after (m : Marks) (k : Kernel σ) (pid : ProcId) (c : Syscall) (r : Int) : Marks :=
  (m ∪ {x | x.1 = pid ∧ Flags k pid c x.2}) \ {x | x.1 = pid ∧ Installs c r x.2}

/-- The kernel with the marks. -/
def markedKernel (sd : SdDriver σ) : System (Kernel σ × Marks) (Action σ) where
  start s := (kernel sd).start s.1 ∧ s.2 = ∅
  step s a s' :=
    match a with
    | .call pid c => Ready s.1 pid c ∧ ∃ r, c.run sd { s.1 with current := pid } = some (r, s'.1)
        ∧ s'.2 = s.2.after s.1 pid c r
    | a => (kernel sd).step s.1 a s'.1 ∧ s'.2 = s.2

/-- A descriptor that is in use has the flag only if it is marked. -/
def Fresh (s : Kernel σ × Marks) : Prop :=
  ∀ pid p n, s.1.processTable pid = some p → p.fd n ≠ none → p.cloexec n ≠ 0 → (pid, n) ∈ s.2

/-- A call that opens a file finds the flag cleared, of the first descriptor that is not in use. -/
def FindsClear (s : Kernel σ × Marks) : Action σ → Prop
  | .call pid c => Opens c → ∀ p n, s.1.processTable pid = some p → firstFree p = some n →
      p.cloexec n = 0
  | _ => True

/-- A call finds the flag cleared of the descriptor that it installs, if it installs one. -/
def InstallsClear (sd : SdDriver σ) (s : Kernel σ × Marks) (a : Action σ) : Prop :=
  ∀ pid c r n k', a = .call pid c → c.run sd { s.1 with current := pid } = some (r, k') →
    Installs c r n → FindsClear s a

/-- A descriptor with the flag had it before the call, or the call applies it; unless the call installs
a descriptor whose flag was left over. -/
theorem Changed.flag_cases (hchanged : Changed p c r p')
    (hclear : ∀ n, Installs c r n → Opens c → ∀ m, firstFree p = some m → p.cloexec m = 0)
    (hfd : p'.fd n ≠ none) (hflag : p'.cloexec n ≠ 0) :
  ¬ Installs c r n ∧ p.fd n ≠ none ∧ (p.cloexec n ≠ 0 ∨ ∃ fd value, c = .fcntl fd F_SETFD value
    ∧ fdIndex fd = some n ∧ BitVec.ofInt 16 value &&& FD_CLOEXEC ≠ 0)
  := by
  cases hchanged with
  | kept hfd' hflag' hr =>
      rw [hfd'] at hfd
      rw [hflag'] at hflag
      exact ⟨hr n, hfd, Or.inl hflag⟩
  | closed hn =>
      dsimp only at hfd hflag
      rw [Function.update_apply] at hfd
      split_ifs at hfd with heq
      · cases hfd rfl
      · exact ⟨not_installs (by simp [Opens, Duplicates]) n, hfd, Or.inl hflag⟩
  | opened hc hn =>
      rename_i n₀ f
      dsimp only at hfd hflag
      rw [Function.update_apply] at hfd
      split_ifs at hfd with heq
      · rw [heq] at hflag
        cases hflag (hclear n₀ ⟨rfl, Or.inl hc⟩ hc n₀ hn)
      · refine ⟨?_, hfd, Or.inl hflag⟩
        rintro ⟨hr, -⟩
        apply heq (Fin.ext (by omega))
  | duplicated hc =>
      rename_i n₀ f
      simp only [Proc.install, Function.update_apply] at hfd hflag
      split_ifs at hfd hflag with heq
      · cases hflag rfl
      · refine ⟨?_, hfd, Or.inl hflag⟩
        rintro ⟨hr, -⟩
        apply heq (Fin.ext (by omega))
  | flagged hn hf =>
      rename_i fd value n₀ f
      have hr : ¬ Installs (.fcntl fd F_SETFD value) r n := by
        apply not_installs
        simp [Opens, Duplicates, F_SETFD, F_DUPFD]
      dsimp only at hfd hflag
      rw [Function.update_apply] at hflag
      split_ifs at hflag with heq
      · subst heq
        refine ⟨hr, hfd, Or.inr ⟨fd, value, rfl, hn, ?_⟩⟩
        intro hzero
        rw [setCloexec, hzero] at hflag
        cases hflag rfl
      · exact ⟨hr, hfd, Or.inl hflag⟩

/-- The flag of a descriptor that a call installs. -/
theorem Changed.cloexec_eq (hchanged : Changed p c r p') (hn : Installs c r n) :
  p'.cloexec n = 0 ↔ (Opens c → ∀ m, firstFree p = some m → p.cloexec m = 0)
  := by
  cases hchanged with
  | kept _ _ hr => cases hr n hn
  | closed => cases not_installs (by simp [Opens, Duplicates]) n hn
  | opened hc hfirst =>
      rename_i n₀ f
      obtain rfl : n₀ = n := Fin.ext (by simpa using hn.1)
      constructor
      · rintro hzero - m hm
        rw [hfirst] at hm
        cases hm
        apply hzero
      · intro hclear
        apply hclear hc n₀ hfirst
  | duplicated hc =>
      rename_i n₀ f
      obtain rfl : n₀ = n := Fin.ext (by simpa using hn.1)
      constructor
      · intro _ hopens
        cases c <;> simp [Opens, Duplicates] at hopens hc
      · intro _
        apply Function.update_self
  | flagged =>
      cases not_installs (by simp [Opens, Duplicates, F_SETFD, F_DUPFD]) n hn

/-- A call keeps the flags right, if it finds the flag cleared of the descriptor that it installs. -/
theorem Fresh.changed {m : Marks} (h : Fresh (k, m)) (hp : k.processTable pid = some p)
    (htable : k'.processTable = Function.update k.processTable pid (some p'))
    (hchanged : Changed p c r p')
    (hclear : ∀ n, Installs c r n → Opens c → ∀ m, firstFree p = some m → p.cloexec m = 0) :
  Fresh (k', m.after k pid c r)
  := by
  intro pid' q n hq hfd hflag
  dsimp only at hq
  rw [htable] at hq
  by_cases hpid : pid' = pid
  · subst hpid
    rw [Function.update_self, Option.some.injEq] at hq
    subst hq
    obtain ⟨hr, hfd', hflag' | ⟨fd, value, hc, hn, hvalue⟩⟩ :=
      hchanged.flag_cases hclear hfd hflag
    · exact ⟨Or.inl (h pid' p n hp hfd' hflag'), fun hx => hr hx.2⟩
    · refine ⟨Or.inr ⟨rfl, fd, value, hc, hn, hvalue, ?_⟩, fun hx => hr hx.2⟩
      simpa [Kernel.slot, hp] using hfd'
  · rw [Function.update_of_ne hpid] at hq
    exact ⟨Or.inl (h pid' q n hq hfd hflag), fun hx => hpid hx.1⟩

theorem Fresh.congr {m : Marks} (h : Fresh (k, m)) (htable : k'.processTable = k.processTable) :
  Fresh (k', m)
  := by
  intro pid p n hp
  dsimp only at hp
  rw [htable] at hp
  apply h pid p n hp

/-- A new process has no descriptors. -/
theorem Fresh.newProc {m : Marks} (h : Fresh (k, m)) (hfd : ∀ n, p.fd n = none) :
  Fresh (k.setProc pid p, m)
  := by
  intro pid' q n hq hn hflag
  by_cases heq : pid' = pid
  · subst heq
    simp only [Kernel.setProc, Function.update_self, Option.some.injEq] at hq
    subst hq
    cases hn (hfd n)
  · simp only [Kernel.setProc, Function.update_of_ne heq] at hq
    apply h pid' q n hq hn hflag

/-- After the boot no descriptor has the flag. -/
theorem fresh_of_start {s : Kernel σ × Marks} (h : (markedKernel sd).start s) : Fresh s := by
  obtain ⟨⟨t, files, tempPath, -, heq⟩, -⟩ := h
  have hbooted := (procStartShell_ends t files tempPath).ensures.of_eq heq
  intro pid p n hp hfd hflag
  by_cases hpid : pid = 0
  · rw [hpid, hbooted.shell_eq] at hp
    cases hp
    cases hflag rfl
  · rw [hbooted.process_eq pid hpid] at hp
    cases hp

/-- A step keeps the marks. -/
theorem Fresh.step {s s' : Kernel σ × Marks} {a : Action σ} (h : Fresh s)
    (hok : InstallsClear sd s a) (hstep : (markedKernel sd).step s a s') :
  Fresh s'
  := by
  obtain ⟨k, m⟩ := s
  obtain ⟨k', m'⟩ := s'
  cases a with
  | call pid c =>
      obtain ⟨⟨p, hp, -⟩, r, hrun, hm⟩ := hstep
      obtain ⟨p', htable, hchanged⟩ :=
        (run_effect (k := { k with current := pid }) hp c).of_eq hrun
      dsimp only at hm
      rw [hm]
      apply h.changed hp htable hchanged
      intro n hn hopens n₀
      apply hok pid c r n k' rfl hrun hn hopens p n₀ hp
  | operate pid posn info t =>
      obtain ⟨hrun, rfl⟩ := hstep
      obtain ⟨f, htouched⟩ := operate_ensures.of_eq hrun
      apply h.congr htouched.processTable_eq
  | procCreate parent =>
      obtain ⟨⟨r, hrun⟩, hm⟩ := hstep
      dsimp only at hrun hm
      subst hm
      obtain rfl | ⟨pid, p, -, hchild, rfl⟩ := procCreate_ensures.of_eq hrun
      · apply h
      · apply h.newProc hchild.fd_eq

/-- A call that installs a descriptor clears its flag, or finds it cleared. -/
theorem cloexec_eq_zero_iff {s : Kernel σ × Marks} (hp : s.1.processTable pid = some p)
    (hrun : c.run sd { s.1 with current := pid } = some (r, k')) (hn : Installs c r n) :
  (k'.processTable pid).map (fun p => p.cloexec n) = some 0 ↔ FindsClear s (.call pid c)
  := by
  obtain ⟨p', htable, hchanged⟩ :=
    (run_effect (k := { s.1 with current := pid }) hp c).of_eq hrun
  have hp' : k'.processTable pid = some p' := by
    rw [htable]
    apply Function.update_self
  rw [hp', Option.map_some, Option.some.injEq, hchanged.cloexec_eq hn]
  constructor
  · intro hclear hopens q n₀ hq
    rw [hp] at hq
    cases hq
    apply hclear hopens
  · intro hclear hopens n₀
    apply hclear hopens p n₀ hp

/-- If every call that opens a file and installs a descriptor finds the flag of the descriptor cleared,
then a descriptor has the flag only if it was applied to it after it was installed.  A call that
installs a descriptor returns it with the flag cleared if and only if it is such a call, or does not
open a file. -/
theorem cloexec_of_reachable :
  (∀ s, (markedKernel sd).Reachable (InstallsClear sd) s → Fresh s)
    ∧ ∀ (s : Kernel σ × Marks) pid c r n k', Ready s.1 pid c →
      c.run sd { s.1 with current := pid } = some (r, k') → Installs c r n →
      ((k'.processTable pid).map (fun p => p.cloexec n) = some 0 ↔ FindsClear s (.call pid c))
  := by
  constructor
  · intro s hs
    apply hs.invariant
    · intro s hstart
      apply fresh_of_start hstart
    · intro s a s' h hok hstep
      apply h.step hok hstep
  · rintro s pid c r n k' ⟨p, hp, -⟩ hrun hn
    apply cloexec_eq_zero_iff hp hrun hn

/-- Every run of the kernel has marks. -/
theorem exists_marks {ok : Kernel σ × Marks → Action σ → Prop}
    (hk : (kernel sd).Reachable (fun k a => ∀ m, ok (k, m) a) k) :
  ∃ m, (markedKernel sd).Reachable ok (k, m)
  := by
  have hsim : ∃ s, (markedKernel sd).Reachable ok s ∧ s.1 = k := by
    apply hk.simulation (R := fun (k : Kernel σ) (s : Kernel σ × Marks) => s.1 = k)
    · intro k hk
      exact ⟨(k, ∅), ⟨hk, rfl⟩, rfl⟩
    · rintro k a k' ⟨_, m⟩ rfl hok hstep
      refine ⟨hok m, ?_⟩
      cases a with
      | call pid c =>
          obtain ⟨hready, r, hrun⟩ := hstep
          exact ⟨(k', m.after _ pid c r), ⟨hready, r, hrun, rfl⟩, rfl⟩
      | operate pid posn info t => exact ⟨(k', m), ⟨hstep, rfl⟩, rfl⟩
      | procCreate parent => exact ⟨(k', m), ⟨hstep, rfl⟩, rfl⟩
  obtain ⟨⟨k', m⟩, hreach, rfl⟩ := hsim
  exact ⟨m, hreach⟩

/-- The shell sets the flag of a descriptor, closes it, and opens a directory. -/
theorem cloexec_of_reachable_opendir :
  ∃ s, (markedKernel noCard).Reachable (fun _ _ => True) s ∧ ¬ Fresh s
  := by
  let cs : List Syscall := [.fcntl 0 F_SETFD 1, .close 0]
  have hrun : (runCalls noCard 0 cs bootKernel).map (fun x => (x.1, (x.2.processTable 0).map
      fun p => p.inFlight)) = some ([-22, 0], some none) := by
    decide +kernel
  have hopendir : ((runCalls noCard 0 cs bootKernel).bind fun x =>
      sysOpendir noCard (some slash) { x.2 with current := 0 }).map (fun x => (x.1,
        (x.2.processTable 0).map fun p => (p.fd 0, p.cloexec 0))) = some (0, some (some 1, 1)) := by
    decide +kernel
  obtain ⟨⟨rs, k⟩, heq, hk'⟩ := Option.map_eq_some_iff.mp hrun
  obtain ⟨-, hinFlight⟩ := Prod.ext_iff.mp hk'
  obtain ⟨p, hp, hinFlight⟩ := Option.map_eq_some_iff.mp hinFlight
  rw [heq, Option.bind_some] at hopendir
  obtain ⟨⟨r, k₁⟩, heq₁, hk₁⟩ := Option.map_eq_some_iff.mp hopendir
  obtain ⟨rfl, hp₁⟩ : r = 0 ∧ _ := Prod.ext_iff.mp hk₁
  obtain ⟨p₁, hp₁, hflags⟩ := Option.map_eq_some_iff.mp hp₁
  obtain ⟨hfd, hflag⟩ : p₁.fd 0 = some 1 ∧ p₁.cloexec 0 = 1 := Prod.ext_iff.mp hflags
  have hk : (kernel noCard).Reachable (fun _ _ => ∀ _ : Marks, True) k := by
    apply (runCalls_reachable (.start bootKernel_start) _ _).of_eq heq
    · simp
    · simp [cs]
  obtain ⟨m, hm⟩ : ∃ m, (markedKernel noCard).Reachable (fun _ _ => True) (k, m) := exists_marks hk
  refine ⟨(k₁, m.after k 0 (.opendir (some slash)) 0), ?_, ?_⟩
  · apply System.Reachable.step (a := .call 0 (.opendir (some slash))) hm trivial
    exact ⟨⟨p, hp, by simp [hinFlight]⟩, 0, heq₁, rfl⟩
  · intro hfresh
    have hmem := hfresh 0 p₁ 0 hp₁ (by simp [hfd]) (by simp [hflag])
    apply hmem.2
    exact ⟨rfl, rfl, Or.inl trivial⟩

/-- The shell sets the flags of two descriptors, closes one of them, and fails to open the path `/m`:
the flag of the other one was applied to it.  A directory that the shell opens right after the boot
has the flag cleared. -/
theorem cloexec_of_reachable_failed :
  (∃ s, (markedKernel noCard).Reachable (InstallsClear noCard) s ∧ Fresh s ∧ (0, 1) ∈ s.2
    ∧ (s.1.processTable 0).map (fun p => ((p.fd 0, p.fd 1), p.cloexec 0, p.cloexec 1))
      = some ((none, some 0), 1, 1))
    ∧ ∃ k', (Syscall.opendir (some slash)).run noCard { bootKernel with current := 0 } = some (3, k')
      ∧ (k'.processTable 0).map (fun p => p.cloexec 3) = some 0
  := by
  constructor
  · let cs : List Syscall := [.fcntl 0 F_SETFD 1, .fcntl 1 F_SETFD 1, .close 0]
    have hclear : ∀ k, ∀ c ∈ cs, ∀ m : Marks, InstallsClear noCard (k, m) (.call 0 c) := by
      rintro k c hc m _ _ r n k' ⟨⟩ - - hopens
      simp only [cs, List.mem_cons, List.not_mem_nil, or_false] at hc
      obtain rfl | rfl | rfl := hc <;> cases hopens
    have hrun : (runCalls noCard 0 cs bootKernel).map (fun x => (x.2.processTable 0).map
        fun p => p.inFlight) = some (some none) := by
      decide +kernel
    have hopendir : ((runCalls noCard 0 cs bootKernel).bind fun x =>
        sysOpendir noCard (some slashM) { x.2 with current := 0 }).map (fun x => (x.1,
          (x.2.processTable 0).map fun p => ((p.fd 0, p.fd 1), p.cloexec 0, p.cloexec 1)))
          = some (-ENOENT, some ((none, some 0), 1, 1)) := by
      decide +kernel
    obtain ⟨⟨rs, k⟩, heq, hinFlight⟩ := Option.map_eq_some_iff.mp hrun
    obtain ⟨p, hp, hinFlight⟩ := Option.map_eq_some_iff.mp hinFlight
    rw [heq, Option.bind_some] at hopendir
    obtain ⟨⟨r, k₁⟩, heq₁, hk₁⟩ := Option.map_eq_some_iff.mp hopendir
    simp only [Prod.mk.injEq] at hk₁
    obtain ⟨rfl, hflags⟩ := hk₁
    have hk : (kernel noCard).Reachable (fun k a => ∀ m, InstallsClear noCard (k, m) a) k := by
      apply (runCalls_reachable (.start bootKernel_start) hclear _).of_eq heq
      simp [cs]
    obtain ⟨m, hm⟩ := exists_marks hk
    have hreach : (markedKernel noCard).Reachable (InstallsClear noCard)
        (k₁, m.after k 0 (.opendir (some slashM)) (-ENOENT)) := by
      refine System.Reachable.step (a := .call 0 (.opendir (some slashM))) hm ?_ ?_
      · rintro _ _ r n k' ⟨⟩ hr hinstalls
        rw [show (Syscall.opendir (some slashM)).run noCard { k with current := 0 } = _ from heq₁] at hr
        cases hr
        cases not_installs_of_neg (by decide) n hinstalls
      · exact ⟨⟨p, hp, by simp [hinFlight]⟩, -ENOENT, heq₁, rfl⟩
    have hfresh := cloexec_of_reachable.1 _ hreach
    refine ⟨_, hreach, hfresh, ?_, hflags⟩
    obtain ⟨p₁, hp₁, hflags⟩ := Option.map_eq_some_iff.mp hflags
    simp only [Prod.mk.injEq] at hflags
    apply hfresh 0 p₁ 1 hp₁
    · rw [hflags.1.2]
      simp
    · rw [hflags.2.2]
      decide
  · have hrun : ((Syscall.opendir (some slash)).run noCard { bootKernel with current := 0 }).map
        (fun x => x.1) = some 3 := by
      decide +kernel
    obtain ⟨⟨r, k'⟩, heq, rfl⟩ := Option.map_eq_some_iff.mp hrun
    refine ⟨k', heq, ?_⟩
    refine (cloexec_of_reachable.2 (bootKernel, ∅) 0 _ _ 3 k' ?_ heq ?_).mpr ?_
    · exact ⟨shell, booted_bootKernel.shell_eq, by simp [shell]⟩
    · exact ⟨rfl, Or.inl trivial⟩
    · intro _ p n hp _
      dsimp only at hp
      rw [booted_bootKernel.shell_eq] at hp
      cases hp
      rfl

end Mosnix.Os
