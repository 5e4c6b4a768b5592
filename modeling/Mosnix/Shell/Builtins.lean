import Mosnix.Libc.String

/-!
# Builtin commands of the shell

The table of builtin commands and `cmd_find_builtin`, the binary search in it.  The search is
modelled for any table; reading an entry behind the end of the table is a fault, which is modelled
by `none`.  A table of pairs of pointers fits into the memory only if it has less than 2^14 entries,
so the sum of two indices is an `int`.
-/

namespace Mosnix.Shell

variable {H : Type}

/-- `struct builtin_command`, with handlers in `H`. -/
structure BuiltinCommand (H : Type) where
  name : List Byte
  handler : H

/-- The handlers of the builtin commands. -/
inductive BuiltinHandler where
  | cmdChdir
  | cmdLs
  | cmdMount
  | cmdPwd
  | cmdUname
  deriving DecidableEq

/-- `builtins` -/
def builtins : List (BuiltinCommand BuiltinHandler) :=
  [⟨str "cd", .cmdChdir⟩, ⟨str "ls", .cmdLs⟩, ⟨str "mount", .cmdMount⟩, ⟨str "pwd", .cmdPwd⟩,
    ⟨str "uname", .cmdUname⟩]

/-- The loop of `cmd_find_builtin`: the handler or NULL, unless an entry behind the end of the table
is read. -/
def cmdFindBuiltinLoop (table : List (BuiltinCommand H)) (name : List Byte) (left right : Int) :
    Option (Option H) :=
  if left ≤ right then
    match table[((left + right) / 2).toNat]? with
    | none => none
    | some entry =>
        if strcmp name entry.name < 0 then
          cmdFindBuiltinLoop table name left ((left + right) / 2 - 1)
        else if strcmp name entry.name > 0 then
          cmdFindBuiltinLoop table name ((left + right) / 2 + 1) right
        else
          some (some entry.handler)
  else
    some none
termination_by (right + 1 - left).toNat

/-- `cmd_find_builtin` in a table. -/
def cmdFindBuiltin (table : List (BuiltinCommand H)) (name : List Byte) : Option (Option H) :=
  cmdFindBuiltinLoop table name 0 table.length

/-! ### Sorted tables -/

/-- The names of the table are strictly ascending. -/
def Sorted (table : List (BuiltinCommand H)) : Prop :=
  table.Pairwise fun a b => strcmp a.name b.name < 0

instance (table : List (BuiltinCommand H)) : Decidable (Sorted table) :=
  inferInstanceAs (Decidable (table.Pairwise _))

theorem sorted_builtins : Sorted builtins := by
  decide

theorem Sorted.strKey_le {table : List (BuiltinCommand H)} (hsorted : Sorted table) {i j : ℕ}
    {a b : BuiltinCommand H} (ha : table[i]? = some a) (hb : table[j]? = some b) (hij : i ≤ j) :
  strKey a.name ≤ strKey b.name
  := by
  obtain ⟨hi, rfl⟩ := List.getElem?_eq_some_iff.mp ha
  obtain ⟨hj, rfl⟩ := List.getElem?_eq_some_iff.mp hb
  rcases Nat.lt_or_eq_of_le hij with hlt | rfl
  · exact (strcmp_neg_iff.mp (List.pairwise_iff_getElem.mp hsorted i j hi hj hlt)).le
  · exact le_rfl

/-! ### The search -/

/-- The entries before `left` are before the name, and those after `right` are after it. -/
structure Window (table : List (BuiltinCommand H)) (name : List Byte) (left right : Int) :
    Prop where
  left_nonneg : 0 ≤ left
  right_le : right ≤ table.length
  below : ∀ (i : ℕ) entry, table[i]? = some entry → (i : Int) < left → 0 < strcmp name entry.name
  above : ∀ (i : ℕ) entry, table[i]? = some entry → right < (i : Int) → strcmp name entry.name < 0

/-- The search starts with the whole table. -/
theorem Window.start (table : List (BuiltinCommand H)) (name : List Byte) :
  Window table name 0 table.length
  where
  left_nonneg := le_rfl
  right_le := le_rfl
  below _ _ _ h := by omega
  above i entry h hi := by
    have := (List.getElem?_eq_some_iff.mp h).1
    omega

section Step

variable {table : List (BuiltinCommand H)} {name : List Byte} {left right : Int}

variable (h : Window table name left right)

include h

/-- The search continues on the left of an entry that is after the name. -/
theorem Window.goLeft (hsorted : Sorted table) {middle : ℕ} {entry : BuiltinCommand H}
    (hentry : table[middle]? = some entry) (hle : (middle : Int) ≤ right)
    (hcmp : strcmp name entry.name < 0) :
  Window table name left (middle - 1)
  where
  left_nonneg := h.left_nonneg
  right_le := by
    have := h.right_le
    omega
  below := h.below
  above i e he hi := by
    rw [strcmp_neg_iff] at hcmp ⊢
    exact hcmp.trans_le (hsorted.strKey_le hentry he (by omega))

/-- The search continues on the right of an entry that is before the name. -/
theorem Window.goRight (hsorted : Sorted table) {middle : ℕ} {entry : BuiltinCommand H}
    (hentry : table[middle]? = some entry) (hcmp : 0 < strcmp name entry.name) :
  Window table name (middle + 1) right
  where
  left_nonneg := by omega
  right_le := h.right_le
  below i e he hi := by
    rw [strcmp_pos_iff] at hcmp ⊢
    exact (hsorted.strKey_le he hentry (by omega)).trans_lt hcmp
  above := h.above

/-- The entry in the middle of the window exists, unless the name is after all entries. -/
theorem Window.middle_lt (hlr : left ≤ right) (hname : ∃ entry ∈ table, strcmp name entry.name ≤ 0) :
  ((left + right) / 2).toNat < table.length
  := by
  obtain ⟨entry, hentry, hle⟩ := hname
  obtain ⟨i, hi⟩ := List.mem_iff_getElem?.mp hentry
  have hlt := (List.getElem?_eq_some_iff.mp hi).1
  have hleft : left ≤ i := not_lt.mp fun hlt => absurd (h.below i entry hi hlt) (not_lt.mpr hle)
  have := h.left_nonneg
  have := h.right_le
  omega

end Step

/-- What `cmd_find_builtin` is for: the handler of the entry with the given name, or NULL if there
is none. -/
structure Looked (table : List (BuiltinCommand H)) (name : List Byte) (found : Option H) :
    Prop where
  handler_iff : ∀ handler,
    found = some handler ↔ ∃ entry ∈ table, entry.name = name ∧ entry.handler = handler
  null_iff : found = none ↔ ∀ entry ∈ table, entry.name ≠ name

/-- An empty window: no entry has the name. -/
theorem Window.looked_none {table : List (BuiltinCommand H)} {name : List Byte} {left right : Int}
    (h : Window table name left right) (hlr : ¬ left ≤ right) :
  Looked table name none
  := by
  have habsent : ∀ entry ∈ table, entry.name ≠ name := by
    rintro entry hentry rfl
    obtain ⟨i, hi⟩ := List.mem_iff_getElem?.mp hentry
    have hzero : strcmp entry.name entry.name = 0 := strcmp_eq_zero_iff.mpr rfl
    have hleft : left ≤ i := not_lt.mp fun hlt => absurd (h.below i entry hi hlt) (by omega)
    have hright : (i : Int) ≤ right :=
      not_lt.mp fun hlt => absurd (h.above i entry hi hlt) (by omega)
    omega
  constructor
  · intro handler
    simp only [reduceCtorEq, false_iff]
    rintro ⟨entry, hentry, hname, -⟩
    exact habsent entry hentry hname
  · simpa using habsent

/-- An entry of a sorted table with the given name is the only one. -/
theorem Sorted.looked_some {table : List (BuiltinCommand H)} {entry : BuiltinCommand H}
    (hsorted : Sorted table) (hentry : entry ∈ table) :
  Looked table entry.name (some entry.handler)
  := by
  constructor
  · intro handler
    constructor
    · intro h
      exact ⟨entry, hentry, rfl, Option.some.inj h⟩
    · rintro ⟨other, hother, hname, rfl⟩
      obtain ⟨i, hi, rfl⟩ := List.mem_iff_getElem.mp hentry
      obtain ⟨j, hj, rfl⟩ := List.mem_iff_getElem.mp hother
      have hne : ∀ {a b : ℕ} (ha : a < table.length) (hb : b < table.length), a < b →
          table[a].name ≠ table[b].name := by
        intro a b ha hb hab h
        have hlt := List.pairwise_iff_getElem.mp hsorted a b ha hb hab
        rw [strcmp_eq_zero_iff.mpr h] at hlt
        exact lt_irrefl _ hlt
      rcases lt_trichotomy i j with hij | rfl | hij
      · exact absurd hname.symm (hne hi hj hij)
      · rfl
      · exact absurd hname (hne hj hi hij)
  · simp only [reduceCtorEq, false_iff, not_forall, not_not]
    exact ⟨entry, hentry, rfl⟩

/-- The search returns what it is for, unless the name is after all entries. -/
theorem cmdFindBuiltinLoop_looked {table : List (BuiltinCommand H)} {name : List Byte}
    (hsorted : Sorted table) (hname : ∃ entry ∈ table, strcmp name entry.name ≤ 0)
    (left right : Int) (h : Window table name left right) :
  ∃ found, cmdFindBuiltinLoop table name left right = some found ∧ Looked table name found
  := by
  fun_induction cmdFindBuiltinLoop table name left right with
  | case1 left right hlr hnone =>
      have hlt := h.middle_lt hlr hname
      rw [List.getElem?_eq_none_iff] at hnone
      omega
  | case2 left right hlr entry hentry hcmp ih =>
      have hmiddle : (((left + right) / 2).toNat : Int) = (left + right) / 2 := by
        have := h.left_nonneg
        omega
      have hnext := h.goLeft hsorted hentry (by omega) hcmp
      rw [hmiddle] at hnext
      exact ih hnext
  | case3 left right hlr entry hentry hcmp hcmp' ih =>
      have hmiddle : (((left + right) / 2).toNat : Int) = (left + right) / 2 := by
        have := h.left_nonneg
        omega
      have hnext := h.goRight hsorted hentry hcmp'
      rw [hmiddle] at hnext
      exact ih hnext
  | case4 left right hlr entry hentry hcmp hcmp' =>
      have hzero : strcmp name entry.name = 0 := by omega
      obtain rfl := strcmp_eq_zero_iff.mp hzero
      exact ⟨_, rfl, hsorted.looked_some (List.mem_of_getElem? hentry)⟩
  | case5 left right hlr => exact ⟨none, rfl, h.looked_none hlr⟩

/-- The search for a name after all entries ends behind the table. -/
theorem cmdFindBuiltinLoop_fault {table : List (BuiltinCommand H)} {name : List Byte}
    (hname : ∀ entry ∈ table, 0 < strcmp name entry.name) (left : Int) (h0 : 0 ≤ left)
    (hle : left ≤ table.length) :
  cmdFindBuiltinLoop table name left table.length = none
  := by
  rw [cmdFindBuiltinLoop, if_pos hle]
  cases hentry : table[((left + table.length) / 2).toNat]? with
  | none => rfl
  | some entry =>
      have hpos := hname entry (List.mem_of_getElem? hentry)
      have hlt := (List.getElem?_eq_some_iff.mp hentry).1
      dsimp only
      rw [if_neg (not_lt.mpr hpos.le), if_pos hpos]
      exact cmdFindBuiltinLoop_fault hname _ (by omega) (by omega)
termination_by (table.length - left).toNat

/-- In a sorted table `cmd_find_builtin` returns the handler of the entry with the given name, or
NULL if there is none, and only reads entries of the table, if and only if the name is not after all
entries. -/
theorem cmdFindBuiltin_looked_iff {table : List (BuiltinCommand H)} (hsorted : Sorted table)
    (name : List Byte) :
  (∃ found, cmdFindBuiltin table name = some found ∧ Looked table name found)
    ↔ ∃ entry ∈ table, strcmp name entry.name ≤ 0
  := by
  constructor
  · rintro ⟨found, hfound, -⟩
    by_contra hname
    push Not at hname
    have hfault := cmdFindBuiltinLoop_fault hname 0 le_rfl (by omega)
    rw [cmdFindBuiltin, hfault] at hfound
    exact absurd hfound (by simp)
  · intro hname
    apply cmdFindBuiltinLoop_looked hsorted hname _ _ (Window.start table name)

/-- The builtin `pwd` is found in the table of the shell. -/
theorem cmdFindBuiltin_looked_pwd :
  Sorted builtins ∧ ∃ found, cmdFindBuiltin builtins (str "pwd") = some found
    ∧ Looked builtins (str "pwd") found
  := ⟨sorted_builtins, (cmdFindBuiltin_looked_iff sorted_builtins (str "pwd")).mpr (by decide)⟩

/-- The search for the command `vi`, which sorts after `uname`, reads the entry behind the end of
the table of the shell. -/
theorem cmdFindBuiltin_vi : Sorted builtins ∧ cmdFindBuiltin builtins (str "vi") = none :=
  ⟨sorted_builtins, cmdFindBuiltinLoop_fault (by decide) 0 le_rfl (by decide)⟩

end Mosnix.Shell
