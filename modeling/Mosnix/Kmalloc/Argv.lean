import Mosnix.Kmalloc.FreeList
import Mosnix.Util

/-!
# The two passes over an argument vector

The function `kmalloc_copy_argv` of `kmalloc.c`.  It reads the arguments twice: before the allocation,
to determine the number of bytes, and after it, to copy them.  The arguments are in the memory of the
heap, and the headers that `kmalloc_user_alloc` stores between the two passes may be among them,
because the header of the remainder of a split block is not put behind the allocated bytes, but at
four times their distance.  The two passes come to the same number of bytes, and the copy ends exactly
at the end of the allocated bytes, if and only if the headers do not change the number of characters
of the arguments (`copyFits_iff`).
-/

namespace Mosnix.Kmalloc

open LinkedList

/-- Maximum number of arguments. -/
def CONFIG_ARGC_MAX : ℕ := 64

/-- Maximum number of characters of an argument. -/
def CONFIG_ARG_MAX : ℕ := 128

/-- The size of a pointer. -/
def SIZEOF_PTR : Word := 2

/-- An argument: NULL, or the bytes at the pointer. -/
abbrev Arg := Option (List Byte)

/-- The address of an element of the array of pointers at `c`. -/
def tableAddr (c : Word) (i : ℕ) : Word :=
  c + BitVec.ofNat 16 (2 * i)

/-- `argv[index]`: NULL, or the bytes that `strlen_constrained` may read at the pointer. -/
def argAt (mem : Memory) (argv : Word) (index : ℕ) : Arg :=
  let arg := mem.word (tableAddr argv index)
  if arg = 0 then none else some (mem.read arg CONFIG_ARG_MAX)

/-- The first `argc` arguments. -/
def argsAt (mem : Memory) (argv : Word) (argc : ℕ) : List Arg :=
  (List.range argc).map (argAt mem argv)

/-- An iteration of the loop that determines the number of bytes. -/
def addArg (size : Word) : Arg → Word
  | some arg => size + BitVec.ofNat 16 (strlenConstrained arg CONFIG_ARG_MAX) + 1
  | none => size + 1

/-- The body of the loop that formats the argument block: the memory and `buf` after it. -/
def formatArg : Memory × Word → Arg → Memory × Word
  | (mem, buf), some arg =>
      let size := strlenConstrained arg CONFIG_ARG_MAX
      let mem := mem.write buf (arg.take size)
      let buf := buf + BitVec.ofNat 16 size
      (mem.store buf 0, buf + 1)
  | (mem, buf), none => (mem.store buf 0, buf + 1)

/-- The number of bytes that an argument takes in the argument block. -/
def argBytes : Arg → ℕ
  | some arg => strlenConstrained arg CONFIG_ARG_MAX + 1
  | none => 1

/-- The state of the loop that formats the argument block: the memory, the pointer `buf`, and the
number of bytes that the loop has stored, which the code does not have. -/
structure Format where
  mem : Memory
  buf : Word
  stored : ℕ

/-- An iteration of the loop that formats the argument block. -/
def formatStep (argv : Word) (s : Format) (index : ℕ) : Format :=
  let arg := argAt s.mem argv index
  let (mem, buf) := formatArg (s.mem, s.buf) arg
  ⟨mem, buf, s.stored + argBytes arg⟩

/-- The loop that formats the argument block, after some iterations. -/
def format (argv : Word) (s : Format) (index : ℕ) : Format :=
  (List.range index).foldl (formatStep argv) s

/-- The result of `kmalloc_copy_argv`: the new heap and `argv_copy`, or NULL; with the variable `size`
after the first loop, and `buf` and the number of bytes stored after the second one. -/
structure ArgvCopy where
  heap : Heap
  argvCopy : Word
  size : Word
  buf : Word
  stored : ℕ

/-- `kmalloc_copy_argv` -/
def kmallocCopyArgv (h : Heap) (argc : Int) (argv : Word) : Option ArgvCopy := do
  let argc : Int := if argc > CONFIG_ARGC_MAX then CONFIG_ARGC_MAX else argc
  let table := BitVec.ofInt 16 (argc + 1) * SIZEOF_PTR
  let size := (argsAt h.mem argv argc.toNat).foldl addArg table
  let (h, buf) ← kmallocUserAlloc h size
  if buf = 0 then
    return ⟨h, 0, size, 0, 0⟩
  let s := format argv ⟨h.mem, buf + table, 0⟩ argc.toNat
  let mem := s.mem.storeWord (buf + BitVec.ofInt 16 argc * SIZEOF_PTR) 0
  return ⟨{ h with mem := mem }, buf, size, s.buf, s.stored⟩

/-- The number of arguments that are copied. -/
def argCount (argc : Int) : ℕ :=
  min argc.toNat CONFIG_ARGC_MAX

/-- The two passes agree: the size does not overflow, it is the number of bytes of the table of
pointers and of the bytes that the second pass stores, and `buf` ends behind `size` bytes from the
start of the block. -/
def CopyFits (h : Heap) (argc : Int) (argv : Word) : Prop :=
  ∃ copy, kmallocCopyArgv h argc argv = some copy
    ∧ copy.size.toNat
      = 2 * (argCount argc + 1) + ((argsAt h.mem argv (argCount argc)).map argBytes).sum
    ∧ (copy.argvCopy ≠ 0 → copy.size.toNat = 2 * (argCount argc + 1) + copy.stored
      ∧ copy.buf = copy.argvCopy + copy.size)

/-! ### The strings -/

/-- The string that is copied: the argument up to `CONFIG_ARG_MAX` characters, and the empty string
for NULL. -/
def argString : Arg → List Byte
  | some arg => (cString arg).take CONFIG_ARG_MAX
  | none => []

/-- The strings behind the table, each with its NUL. -/
def packed (argv : List Arg) : List Byte :=
  argv.flatMap fun arg => argString arg ++ [0]

theorem packed_cons (arg : Arg) (argv : List Arg) :
  packed (arg :: argv) = argString arg ++ [0] ++ packed argv
  := List.flatMap_cons

theorem packed_eq_flatMap (argv : List Arg) :
  packed argv = (argv.map argString).flatMap fun s => s ++ [0]
  := by
  rw [packed, List.flatMap_map]

/-- The part of a string that `strlen_constrained` measures. -/
theorem take_strlenConstrained (s : List Byte) (max : ℕ) :
  s.take (strlenConstrained s max) = (cString s).take max
  := by
  induction s generalizing max with
  | nil => simp [strlenConstrained, cString]
  | cons c s ih =>
      cases max with
      | zero => simp [strlenConstrained]
      | succ max =>
          by_cases hc : c = 0
          · simp [strlenConstrained, cString, hc]
          · rw [strlenConstrained, if_neg hc, cString_cons hc, List.take_succ_cons,
              List.take_succ_cons, ih]

/-- A string is cut at `CONFIG_ARG_MAX`. -/
theorem length_argString_le (arg : Arg) : (argString arg).length ≤ CONFIG_ARG_MAX := by
  cases arg with
  | none => simp [argString]
  | some s => simp [argString]

theorem strlenConstrained_le (s : List Byte) (max : ℕ) : strlenConstrained s max ≤ s.length := by
  induction s generalizing max with
  | nil => simp [strlenConstrained]
  | cons c s ih =>
      cases max with
      | zero => simp [strlenConstrained]
      | succ max =>
          rw [strlenConstrained, List.length_cons]
          split_ifs
          · omega
          · have hle := ih max
            omega

theorem strlenConstrained_eq_length (s : List Byte) :
  strlenConstrained s CONFIG_ARG_MAX = (argString (some s)).length
  := by
  rw [argString, ← take_strlenConstrained, List.length_take_of_le (strlenConstrained_le s _)]

/-- A round of the loop that adds up the size. -/
theorem addArg_eq (size : Word) (arg : Arg) :
  addArg size arg = size + BitVec.ofNat 16 (argString arg ++ [0]).length
  := by
  rw [List.length_append]
  cases arg with
  | none => rfl
  | some s =>
      rw [addArg, strlenConstrained_eq_length, add_assoc, BitVec.ofNat_add]
      rfl

/-- The size is that of the packed strings. -/
theorem foldl_addArg (size : Word) (argv : List Arg) :
  argv.foldl addArg size = size + BitVec.ofNat 16 (packed argv).length
  := by
  induction argv generalizing size with
  | nil => simp [packed]
  | cons arg argv ih =>
      rw [List.foldl_cons, ih, addArg_eq]
      simp only [packed_cons, List.length_append, BitVec.ofNat_add, add_assoc]

/-- A round of the loop that copies the strings. -/
theorem formatArg_eq (mem : Memory) (buf : Word) (arg : Arg) :
  formatArg (mem, buf) arg
    = (mem.write buf (argString arg ++ [0]),
        buf + BitVec.ofNat 16 (argString arg ++ [0]).length)
  := by
  rw [Memory.write_append, List.length_append, BitVec.ofNat_add, ← add_assoc]
  cases arg with
  | none => simp [formatArg, argString, Memory.write]
  | some s =>
      rw [formatArg, take_strlenConstrained, strlenConstrained_eq_length]
      rfl

theorem length_packed_le (argv : List Arg) :
  (packed argv).length ≤ argv.length * (CONFIG_ARG_MAX + 1)
  := by
  induction argv with
  | nil => simp [packed]
  | cons arg argv ih =>
      have hle := length_argString_le arg
      simp only [packed_cons, List.length_append, List.length_cons, List.length_nil, Nat.succ_mul]
      omega

/-- The number of bytes of the block. -/
def argvSize (argv : List Arg) : Word :=
  BitVec.ofNat 16 (2 * (argv.length + 1) + (packed argv).length)

/-- The number of bytes of the block is at most 8386. -/
theorem toNat_argvSize {argv : List Arg} (hlen : argv.length ≤ CONFIG_ARGC_MAX) :
  (argvSize argv).toNat = 2 * (argv.length + 1) + (packed argv).length
    ∧ (argvSize argv).toNat ≤ 8386
  := by
  have hpacked := length_packed_le argv
  have hmul : argv.length * (CONFIG_ARG_MAX + 1) ≤ 64 * 129 := Nat.mul_le_mul_right 129 hlen
  unfold CONFIG_ARGC_MAX at hlen
  have htoNat : (argvSize argv).toNat = 2 * (argv.length + 1) + (packed argv).length := by
    rw [argvSize, BitVec.toNat_ofNat, Nat.mod_eq_of_lt]
    omega
  refine ⟨htoNat, ?_⟩
  rw [htoNat]
  omega

/-- The bytes of a string, with its terminator. -/
theorem argBytes_eq (arg : Arg) : argBytes arg = (argString arg ++ [0]).length := by
  rw [List.length_append]
  cases arg with
  | none => rfl
  | some s => rw [argBytes, strlenConstrained_eq_length, List.length_singleton]

theorem sum_argBytes (args : List Arg) : (args.map argBytes).sum = (packed args).length := by
  induction args with
  | nil => rfl
  | cons arg args ih =>
      rw [List.map_cons, List.sum_cons, ih, packed_cons, List.length_append, argBytes_eq]

/-! ### The headers that an allocation stores -/

/-- The first free block that has room for `size` bytes is `a`, and `prev` is the free block before
it, or NULL. -/
def FitsAfter (h : Heap) (l : List Word) (size prev a : Word) : Prop :=
  l.find? (fun a => roundSize size ≤ h.size a) = some a
    ∧ prev = before 0 (l.takeWhile fun a => h.size a < roundSize size)

/-- The memory with the header of the remainder of the block `a`, of which `size` bytes are left to the
block, and with the header of the block. -/
def splitMem (h : Heap) (size a : Word) : Memory :=
  (((h.mem.storeWord (splitAddr a size + 2) (h.size a - size - SIZEOF_USER_BLOCK)).storeWord
    (splitAddr a size) (h.next a)).storeWord a (splitAddr a size)).storeWord (a + 2) size

/-- The memory with the headers that are stored when `size` bytes are allocated in the free block `a`
behind the free block `prev`: those of a split, and the link of `prev`, unless that is NULL. -/
def headerMem (h : Heap) (size prev a : Word) : Memory :=
  if roundSize size - h.size a ≥ KMALLOC_MIN_BLOCK_SIZE then
    if prev = 0 then splitMem h (roundSize size) a
    else (splitMem h (roundSize size) a).storeWord prev (splitAddr a (roundSize size))
  else if prev = 0 then h.mem else h.mem.storeWord prev (h.next a)

/-- The byte at `y` is one of the headers that are stored. -/
def InHeader (h : Heap) (size prev a y : Word) : Prop :=
  prev ≠ 0 ∧ (y = prev ∨ y = prev + 1)
    ∨ roundSize size - h.size a ≥ KMALLOC_MIN_BLOCK_SIZE
      ∧ ((y - a).toNat < 4 ∨ (y - splitAddr a (roundSize size)).toNat < 4)

/-- The size in the header of a block that is allocated. -/
def grantedSize (h : Heap) (a size : Word) : Word :=
  if size - h.size a ≥ KMALLOC_MIN_BLOCK_SIZE then size else h.size a

variable {h h' h₁ : Heap} {l : List Word} {mem mem' : Memory} {argv a c size prev y : Word}
  {argc : Int} {n index : ℕ}

/-- A split changes the two headers only. -/
theorem splitMem_of_le (hblock : 4 ≤ (y - a).toNat) (hrest : 4 ≤ (y - splitAddr a size).toNat) :
  splitMem h size a y = h.mem y
  := by
  generalize hb : splitAddr a size = b at hrest
  rw [splitMem, hb, Memory.storeWord_of_ne (by bv_omega) (by bv_omega),
    Memory.storeWord_of_ne (by bv_omega) (by bv_omega),
    Memory.storeWord_of_ne (by bv_omega) (by bv_omega),
    Memory.storeWord_of_ne (by bv_omega) (by bv_omega)]

/-- There is one first fit. -/
theorem FitsAfter.unique {prev' : Word} (hfit : FitsAfter h l size prev a)
    (hfit' : FitsAfter h l size prev' c) :
  c = a ∧ prev' = prev
  := by
  obtain ⟨hfind, rfl⟩ := hfit
  obtain ⟨hfind', rfl⟩ := hfit'
  rw [hfind] at hfind'
  cases hfind'
  exact ⟨rfl, rfl⟩

/-- The headers leave the other bytes alone. -/
theorem headerMem_of_not_inHeader (hy : ¬ InHeader h size prev a y) :
  headerMem h size prev a y = h.mem y
  := by
  rw [InHeader, not_or, not_and, not_and, not_or, not_or, not_lt, not_lt] at hy
  obtain ⟨hlink, hsplit⟩ := hy
  unfold headerMem
  split_ifs with htest hprev hprev
  · apply splitMem_of_le (hsplit htest).1 (hsplit htest).2
  · rw [Memory.storeWord_of_ne (hlink hprev).1 (hlink hprev).2,
      splitMem_of_le (hsplit htest).1 (hsplit htest).2]
  · rfl
  · rw [Memory.storeWord_of_ne (hlink hprev).1 (hlink hprev).2]

/-- The granted size lies between the requested one and that of the block. -/
theorem grantedSize_le (hfit : size ≤ h.size a) :
  size ≤ grantedSize h a size ∧ grantedSize h a size ≤ h.size a
  := by
  unfold grantedSize
  split_ifs
  · exact ⟨BitVec.le_refl _, hfit⟩
  · exact ⟨hfit, BitVec.le_refl _⟩

theorem size_splitBlock_eq (size : Word) : (splitBlock h a size).size a = grantedSize h a size := by
  unfold grantedSize
  split_ifs with hsplit
  · apply size_splitBlock hsplit
  · rw [splitBlock, if_neg hsplit]

/-- The memory after the block is split and taken off the free list. -/
theorem mem_slistRemoveAfter (hsize : (roundSize size).toNat * 4 + 8 ≤ 2 ^ 16) :
  ((splitBlock h a (roundSize size)).slistRemoveAfter prev a).mem = headerMem h size prev a
  := by
  have hclear : Clear (splitAddr a (roundSize size)) a := by
    right
    unfold splitAddr SIZEOF_USER_BLOCK
    constructor
    · bv_omega
    · bv_omega
  rw [headerMem, Heap.slistRemoveAfter]
  by_cases hsplit : roundSize size - h.size a ≥ KMALLOC_MIN_BLOCK_SIZE
  · have hnext : (splitOff h a (roundSize size)).next a = splitAddr a (roundSize size) := by
      rw [splitOff, Heap.next_setSize (Clear.refl a), Heap.slistInsertAfter,
        Heap.next_setNext (Clear.refl a), if_pos rfl]
    have hmem : (splitOff h a (roundSize size)).mem = splitMem h (roundSize size) a := by
      rw [splitMem, ← Heap.next_setSize hclear]
      rfl
    rw [splitBlock_eq hsplit, if_pos hsplit, hnext, ← hmem]
    by_cases hprev : prev = 0
    · rw [if_neg (not_not.mpr hprev), if_pos hprev]
    · rw [if_pos hprev, if_neg hprev]
      rfl
  · rw [splitBlock, if_neg hsplit, if_neg hsplit]
    by_cases hprev : prev = 0
    · rw [if_neg (not_not.mpr hprev), if_pos hprev]
    · rw [if_pos hprev, if_neg hprev]
      rfl

namespace FreeBlocks

/-- An allocation fails, or it takes the first block that has room and stores the headers. -/
theorem fitsAfter_cases (hl : FreeBlocks h l) (hsize : (roundSize size).toNat * 4 + 8 ≤ 2 ^ 16) :
  (∀ prev a, ¬ FitsAfter h l size prev a) ∧ kmallocUserAlloc h size = some (h, 0)
    ∨ ∃ prev a h₁, FitsAfter h l size prev a
      ∧ kmallocUserAlloc h size = some (h₁, a + SIZEOF_USER_BLOCK)
      ∧ h₁.mem = headerMem h size prev a ∧ h₁.size a = grantedSize h a (roundSize size)
  := by
  cases hfind : l.find? (fun a => roundSize size ≤ h.size a) with
  | none =>
      left
      refine ⟨?_, hl.list.allocLoop_eq_zero (by simpa using hfind)⟩
      rintro prev a ⟨hsome, -⟩
      rw [hfind] at hsome
      cases hsome
  | some a =>
      right
      obtain ⟨hfit, l₁, l₂, rfl, hsmall⟩ := List.find?_eq_some_iff_append.mp hfind
      rw [decide_eq_true_iff] at hfit
      have hsmall : ∀ x ∈ l₁, h.size x < roundSize size := by simpa using hsmall
      refine ⟨before 0 l₁, a, _, ⟨hfind, ?_⟩, hl.list.allocLoop_eq hfit hsmall,
        mem_slistRemoveAfter hsize, ?_⟩
      · rw [List.takeWhile_append_of_pos (by simpa using hsmall),
          List.takeWhile_cons_of_neg (by simpa using hfit), List.append_nil]
      · rw [Heap.size_slistRemoveAfter hl.clear_before, size_splitBlock_eq]

/-- The first block that has room for the rounded size. -/
theorem fitsAfter_bounds (hl : FreeBlocks h l) (hfit : FitsAfter h l size prev a) :
  (blockExtent h a).2 < 2 ^ 16 ∧ roundSize size ≤ h.size a ∧ a + SIZEOF_USER_BLOCK ≠ 0
    ∧ (prev ≠ 0 → prev.toNat + 4 ≤ a.toNat)
  := by
  obtain ⟨hfind, rfl⟩ := hfit
  have ha := List.mem_of_find?_eq_some hfind
  refine ⟨hl.bounds a ha, by simpa using List.find?_some hfind, hl.add_ne_zero ha, ?_⟩
  obtain ⟨hfit, l₁, l₂, rfl, hsmall⟩ := List.find?_eq_some_iff_append.mp hfind
  rw [List.takeWhile_append_of_pos (by simpa using hsmall),
    List.takeWhile_cons_of_neg (by simpa using hfit), List.append_nil]
  apply hl.before_le

/-- The bytes of the block are not among the headers. -/
theorem not_inHeader (hl : FreeBlocks h l) (hfit : FitsAfter h l size prev a)
    (hsize : (roundSize size).toNat * 4 + 8 ≤ 2 ^ 16) (hay : a.toNat + 4 ≤ y.toNat)
    (hya : y.toNat < a.toNat + 4 + (grantedSize h a (roundSize size)).toNat) :
  ¬ InHeader h size prev a y
  := by
  obtain ⟨-, -, -, hprev⟩ := hl.fitsAfter_bounds hfit
  rintro (⟨hne, hy⟩ | ⟨hsplit, hy⟩)
  · have hle := hprev hne
    bv_omega
  · rw [grantedSize, if_pos hsplit] at hya
    have haddr : (splitAddr a (roundSize size)).toNat
        = (a.toNat + 4 + (roundSize size).toNat * 4) % 2 ^ 16 := by
      unfold splitAddr SIZEOF_USER_BLOCK
      bv_omega
    have hlt := y.isLt
    rw [BitVec.toNat_sub, BitVec.toNat_sub, haddr] at hy
    omega

end FreeBlocks

/-! ### What the passes read -/

/-- The bytes that a pass reads for an argument: its pointer, and its characters up to the NUL. -/
def ArgReads (mem : Memory) (argv : Word) (index : ℕ) (y : Word) : Prop :=
  let arg := mem.word (tableAddr argv index)
  y = tableAddr argv index ∨ y = tableAddr argv index + 1
    ∨ arg ≠ 0 ∧ ∃ k < CONFIG_ARG_MAX, (∀ j < k, mem (arg + BitVec.ofNat 16 j) ≠ 0)
      ∧ y = arg + BitVec.ofNat 16 k

/-- The arguments do not overlap the `size` bytes at `c`. -/
def ArgsApart (mem : Memory) (argv : Word) (argc : ℕ) (c size : Word) : Prop :=
  ∀ index < argc, ∀ y, ArgReads mem argv index y →
    y.toNat < c.toNat ∨ c.toNat + size.toNat ≤ y.toNat

/-- A string depends on the bytes up to its terminator only. -/
theorem cString_read_congr {p : Word} {n : ℕ}
    (hread : ∀ k < n, (∀ j < k, mem (p + BitVec.ofNat 16 j) ≠ 0) →
      mem' (p + BitVec.ofNat 16 k) = mem (p + BitVec.ofNat 16 k)) :
  cString (mem'.read p n) = cString (mem.read p n)
  := by
  induction n generalizing p with
  | zero => rfl
  | succ n ih =>
      have hfirst : mem' p = mem p := by
        simpa using hread 0 (Nat.succ_pos n) (by simp)
      have hsucc (k : ℕ) : p + 1 + BitVec.ofNat 16 k = p + BitVec.ofNat 16 (k + 1) := by
        bv_omega
      rw [Memory.read, Memory.read, hfirst]
      by_cases hnul : mem p = 0
      · simp [cString, hnul]
      · rw [cString_cons hnul, cString_cons hnul, ih]
        intro k hk hchars
        rw [hsucc]
        apply hread (k + 1) (by omega)
        rintro (_ | j) hj
        · simpa using hnul
        · rw [← hsucc]
          apply hchars j (by omega)

/-- An argument depends only on the bytes that are read for it. -/
theorem argString_argAt_congr (hread : ∀ y, ArgReads mem argv index y → mem' y = mem y) :
  argString (argAt mem' argv index) = argString (argAt mem argv index)
  := by
  have hword : mem'.word (tableAddr argv index) = mem.word (tableAddr argv index) := by
    rw [Memory.word, Memory.word, hread _ (Or.inl rfl), hread _ (Or.inr (Or.inl rfl))]
  simp only [argAt, hword]
  split_ifs with hnull
  · rfl
  · rw [argString, argString, cString_read_congr]
    intro k hk hchars
    apply hread
    right
    right
    exact ⟨hnull, k, hk, hchars, rfl⟩

theorem argsAt_succ : argsAt mem argv (n + 1) = argsAt mem argv n ++ [argAt mem argv n] := by
  simp [argsAt, List.range_succ]

@[simp]
theorem length_argsAt : (argsAt mem argv n).length = n := by
  simp [argsAt]

/-- If the bytes that are read for an argument are the same, then the same bytes are read for it. -/
theorem ArgReads.of_eq (hsame : ∀ y, ArgReads mem argv index y → mem' y = mem y)
    (hy : ArgReads mem' argv index y) :
  ArgReads mem argv index y
  := by
  have hword : mem'.word (tableAddr argv index) = mem.word (tableAddr argv index) := by
    rw [Memory.word, Memory.word, hsame _ (Or.inl rfl), hsame _ (Or.inr (Or.inl rfl))]
  obtain rfl | rfl | ⟨harg, k, hk, hchars, rfl⟩ := hy
  · exact Or.inl rfl
  · exact Or.inr (Or.inl rfl)
  · rw [hword] at harg hchars ⊢
    have hchars' : ∀ j ≤ k, ∀ i < j,
        mem (mem.word (tableAddr argv index) + BitVec.ofNat 16 i) ≠ 0 := by
      intro j
      induction j with
      | zero =>
          intro _ i hi
          omega
      | succ j ih =>
          intro hj i hi
          have hlast := hsame _ (Or.inr (Or.inr ⟨harg, j, by omega, ih (by omega), rfl⟩))
          obtain rfl | hi := Nat.eq_or_lt_of_le (Nat.le_of_lt_succ hi)
          · rw [← hlast]
            apply hchars i (by omega)
          · apply ih (by omega) i hi
    exact Or.inr (Or.inr ⟨harg, k, hk, hchars' k le_rfl, rfl⟩)

/-- No byte of the arguments is in the `size` bytes of the block `a`, or in a header that their
allocation stores. -/
def ArgsOutside (h : Heap) (argv : Word) (argc : ℕ) (size prev a : Word) : Prop :=
  ArgsApart h.mem argv argc (a + SIZEOF_USER_BLOCK) size
    ∧ ∀ index < argc, ∀ y, ArgReads h.mem argv index y → ¬ InHeader h size prev a y

namespace ArgsOutside

variable (hout : ArgsOutside h argv n size prev a)

include hout

/-- The headers do not touch the arguments. -/
theorem headerMem_eq (hindex : index < n) (hy : ArgReads h.mem argv index y) :
  headerMem h size prev a y = h.mem y
  := headerMem_of_not_inHeader (hout.2 index hindex y hy)

/-- The headers do not change the arguments. -/
theorem map_argString :
  (argsAt (headerMem h size prev a) argv n).map argString = (argsAt h.mem argv n).map argString
  := by
  rw [argsAt, argsAt, List.map_map, List.map_map]
  apply List.map_congr_left
  intro index hindex
  apply argString_argAt_congr
  intro y hy
  apply hout.headerMem_eq (List.mem_range.mp hindex) hy

/-- The strings are the same after the headers are written. -/
theorem packed_eq : packed (argsAt (headerMem h size prev a) argv n) = packed (argsAt h.mem argv n) := by
  rw [packed_eq_flatMap, packed_eq_flatMap, hout.map_argString]

/-- The second pass finds the arguments outside the block. -/
theorem apart : ArgsApart (headerMem h size prev a) argv n (a + SIZEOF_USER_BLOCK) size := by
  intro index hindex y hy
  apply hout.1 index hindex
  apply hy.of_eq
  intro y hy
  apply hout.headerMem_eq hindex hy

end ArgsOutside

/-! ### The second pass -/

theorem format_succ (s : Format) :
  format argv s (index + 1) = formatStep argv (format argv s index) index
  := by
  simp [format, List.range_succ]

/-- The state of the second pass, if it stored the arguments `args`. -/
def Format.after (mem : Memory) (buf : Word) (args : List Arg) : Format :=
  ⟨mem.write buf (packed args), buf + BitVec.ofNat 16 (packed args).length, (packed args).length⟩

theorem packed_append (args : List Arg) (arg : Arg) :
  packed (args ++ [arg]) = packed args ++ (argString arg ++ [0])
  := by
  simp [packed]

/-- A step of the copy adds a string. -/
theorem formatStep_after {buf : Word} {args : List Arg} {arg : Arg}
    (hsame : argString (argAt (mem.write buf (packed args)) argv index) = argString arg) :
  formatStep argv (Format.after mem buf args) index = Format.after mem buf (args ++ [arg])
  := by
  simp only [formatStep, Format.after, formatArg_eq, argBytes_eq, hsame, packed_append,
    Memory.write_append, List.length_append, BitVec.ofNat_add, add_assoc]

section

variable {buf : Word} (hapart : ArgsApart mem argv n c size)
  (hbound : c.toNat + size.toNat ≤ 2 ^ 16) (hbuf : c.toNat ≤ buf.toNat)

include hapart hbound hbuf

/-- As long as the second pass stores into the block, it does not change the arguments. -/
theorem argString_after (hindex : index < n) {args : List Arg}
    (hroom : buf.toNat + (packed args).length ≤ c.toNat + size.toNat) :
  argString (argAt (mem.write buf (packed args)) argv index) = argString (argAt mem argv index)
  := by
  apply argString_argAt_congr
  intro y hy
  apply Memory.write_of_lt_or_le (by omega)
  have hout := hapart index hindex y hy
  omega

/-- The second pass stores the arguments that were there before it, if there is room for them. -/
theorem format_eq (hindex : index ≤ n)
    (hroom : buf.toNat + (packed (argsAt mem argv index)).length ≤ c.toNat + size.toNat) :
  format argv ⟨mem, buf, 0⟩ index = Format.after mem buf (argsAt mem argv index)
  := by
  induction index with
  | zero => simp [format, Format.after, argsAt, packed, Memory.write]
  | succ index ih =>
      rw [argsAt_succ, packed_append, List.length_append] at hroom
      rw [format_succ, ih (by omega) (by omega), argsAt_succ]
      apply formatStep_after
      apply argString_after hapart hbound hbuf (by omega) (by omega)

/-- There is room for the arguments if the second pass does not leave the block. -/
theorem room_of_format (hindex : index ≤ n)
    (hstored : buf.toNat + (format argv ⟨mem, buf, 0⟩ index).stored ≤ c.toNat + size.toNat) :
  buf.toNat + (packed (argsAt mem argv index)).length ≤ c.toNat + size.toNat
  := by
  induction index with
  | zero => simpa [format, argsAt, packed] using hstored
  | succ index ih =>
      rw [format_succ] at hstored
      have hroom := ih (by omega) (le_trans (by simp [formatStep]) hstored)
      rw [format_eq hapart hbound hbuf (by omega) hroom, formatStep_after
        (argString_after hapart hbound hbuf (by omega) hroom), ← argsAt_succ] at hstored
      apply hstored

end

/-! ### The two passes -/

theorem toNat_tableAddr {i : ℕ} (hlt : c.toNat + 2 * i < 2 ^ 16) :
  (tableAddr c i).toNat = c.toNat + 2 * i
  := by
  unfold tableAddr
  bv_omega

theorem ofInt_mul_sizeof (n : ℕ) : BitVec.ofInt 16 n * SIZEOF_PTR = BitVec.ofNat 16 (2 * n) := by
  unfold SIZEOF_PTR
  rw [BitVec.ofInt_natCast]
  bv_omega

theorem length_argsAt_le (mem : Memory) (argv : Word) (argc : Int) :
  (argsAt mem argv (argCount argc)).length ≤ CONFIG_ARGC_MAX
  := by
  rw [length_argsAt]
  apply min_le_right

/-- The number of bytes that the first pass finds. -/
def copySize (h : Heap) (argc : Int) (argv : Word) : Word :=
  argvSize (argsAt h.mem argv (argCount argc))

theorem toNat_copySize (h : Heap) (argc : Int) (argv : Word) :
  (copySize h argc argv).toNat
    = 2 * (argCount argc + 1) + (packed (argsAt h.mem argv (argCount argc))).length
  := by
  have hsize := (toNat_argvSize (length_argsAt_le h.mem argv argc)).1
  rw [length_argsAt] at hsize
  exact hsize

/-- The size of a copy does not overflow. -/
theorem roundSize_copySize (h : Heap) (argc : Int) (argv : Word) :
  (roundSize (copySize h argc argv)).toNat * 4 + 8 ≤ 2 ^ 16
  := by
  have hmax := (toNat_argvSize (length_argsAt_le h.mem argv argc)).2
  rw [toNat_roundSize, copySize]
  omega

theorem le_roundSize_copySize (h : Heap) (argc : Int) (argv : Word) :
  copySize h argc argv ≤ roundSize (copySize h argc argv)
  := by
  have hmax := (toNat_argvSize (length_argsAt_le h.mem argv argc)).2
  apply le_roundSize
  rw [copySize]
  omega

/-- The block for the copy is the free block `a`, and `mem` is the memory with the headers that its
allocation stores, in which the second pass finds the arguments. -/
def CopyStarts (h : Heap) (l : List Word) (argc : Int) (argv a : Word) (mem : Memory) : Prop :=
  ∃ prev, FitsAfter h l (copySize h argc argv) prev a
    ∧ mem = headerMem h (copySize h argc argv) prev a

/-- A copy starts in one way only. -/
theorem CopyStarts.unique (hstarts : CopyStarts h l argc argv a mem)
    (hstarts' : CopyStarts h l argc argv c mem') :
  c = a ∧ mem' = mem
  := by
  obtain ⟨prev, hfit, rfl⟩ := hstarts
  obtain ⟨prev', hfit', rfl⟩ := hstarts'
  obtain ⟨rfl, rfl⟩ := hfit.unique hfit'
  exact ⟨rfl, rfl⟩

/-- The second pass in the block of `size` bytes at `c`, in the heap after its allocation. -/
def formatBlock (h : Heap) (argc : Int) (argv c size : Word) : ArgvCopy :=
  let s := format argv ⟨h.mem, tableAddr c (argCount argc + 1), 0⟩ (argCount argc)
  ⟨{ h with mem := s.mem.storeWord (tableAddr c (argCount argc)) 0 }, c, size, s.buf, s.stored⟩

/-- The copy, as the allocation of the size of the first pass and the second pass in its block. -/
theorem kmallocCopyArgv_eq (hargc : 0 ≤ argc) :
  kmallocCopyArgv h argc argv
    = (kmallocUserAlloc h (copySize h argc argv)).map fun x =>
      if x.2 = 0 then ⟨x.1, 0, copySize h argc argv, 0, 0⟩
      else formatBlock x.1 argc argv x.2 (copySize h argc argv)
  := by
  have hcount : (if argc > CONFIG_ARGC_MAX then (CONFIG_ARGC_MAX : Int) else argc)
      = argCount argc := by
    unfold argCount
    split_ifs
    · omega
    · omega
  have hsucc : BitVec.ofInt 16 ((argCount argc : Int) + 1) * SIZEOF_PTR
      = BitVec.ofNat 16 (2 * (argCount argc + 1)) := ofInt_mul_sizeof (argCount argc + 1)
  have hsize : BitVec.ofNat 16 (2 * (argCount argc + 1))
        + BitVec.ofNat 16 (packed (argsAt h.mem argv (argCount argc))).length
      = copySize h argc argv := by
    rw [copySize, argvSize, length_argsAt, BitVec.ofNat_add]
  simp only [kmallocCopyArgv, hcount, Int.toNat_natCast, hsucc, ofInt_mul_sizeof, foldl_addArg, hsize,
    Option.bind_eq_bind]
  cases kmallocUserAlloc h (copySize h argc argv) with
  | none => rfl
  | some x =>
      rw [Option.bind_some, Option.map_some]
      split_ifs
      · rfl
      · rfl

/-- The copy returns NULL, or the second pass formats the block. -/
theorem FreeBlocks.copy_cases (hl : FreeBlocks h l) (hargc : 0 ≤ argc) :
  (∀ a mem, ¬ CopyStarts h l argc argv a mem)
      ∧ kmallocCopyArgv h argc argv = some ⟨h, 0, copySize h argc argv, 0, 0⟩
    ∨ ∃ (a : Word) (h₁ : Heap), CopyStarts h l argc argv a h₁.mem
      ∧ h₁.size a = grantedSize h a (roundSize (copySize h argc argv))
      ∧ a + SIZEOF_USER_BLOCK ≠ 0
      ∧ (a + SIZEOF_USER_BLOCK).toNat + (copySize h argc argv).toNat < 2 ^ 16
      ∧ kmallocCopyArgv h argc argv
        = some (formatBlock h₁ argc argv (a + SIZEOF_USER_BLOCK) (copySize h argc argv))
  := by
  rw [kmallocCopyArgv_eq hargc]
  obtain ⟨hnone, halloc⟩ | ⟨prev, a, h₁, hfit, halloc, hmem, hsize⟩ :=
    hl.fitsAfter_cases (roundSize_copySize h argc argv)
  · left
    refine ⟨?_, by rw [halloc]; rfl⟩
    rintro a mem ⟨prev, hfit, -⟩
    apply hnone prev a hfit
  · right
    obtain ⟨hbound, hround, hne, -⟩ := hl.fitsAfter_bounds hfit
    have hle := le_roundSize_copySize h argc argv
    refine ⟨a, h₁, ⟨prev, hfit, hmem⟩, hsize, hne, ?_, ?_⟩
    · simp only [blockExtent] at hbound
      unfold SIZEOF_USER_BLOCK
      bv_omega
    · rw [halloc, Option.map_some, if_neg hne]

/-- If the second pass finds the arguments outside the block, then the two passes agree if and only if
the headers do not change the number of characters of the arguments. -/
theorem FreeBlocks.copyFits (hl : FreeBlocks h l) (hargc : 0 ≤ argc)
    (hapart : ∀ a mem, CopyStarts h l argc argv a mem →
      ArgsApart mem argv (argCount argc) (a + SIZEOF_USER_BLOCK) (copySize h argc argv)) :
  CopyFits h argc argv
    ↔ ∀ a mem, CopyStarts h l argc argv a mem →
      (packed (argsAt mem argv (argCount argc))).length
        = (packed (argsAt h.mem argv (argCount argc))).length
  := by
  have hsize := toNat_copySize h argc argv
  rw [CopyFits, sum_argBytes]
  obtain ⟨hnone, hcopy⟩ | ⟨a, h₁, hstarts, -, hne, hbound, hcopy⟩ := hl.copy_cases hargc
  · rw [hcopy]
    apply iff_of_true
    · exact ⟨_, rfl, hsize, fun hc => absurd rfl hc⟩
    · intro a mem hstarts
      apply absurd hstarts (hnone a mem)
  · have htable := toNat_tableAddr (c := a + SIZEOF_USER_BLOCK) (i := argCount argc + 1)
      (by omega)
    have hbuf : (a + SIZEOF_USER_BLOCK).toNat
        ≤ (tableAddr (a + SIZEOF_USER_BLOCK) (argCount argc + 1)).toNat := by omega
    have hout := hapart a h₁.mem hstarts
    rw [hcopy]
    constructor
    · rintro ⟨_, ⟨⟩, -, hfits⟩ a' mem' hstarts'
      obtain ⟨rfl, rfl⟩ := hstarts.unique hstarts'
      have hstored := (hfits hne).1
      dsimp only [formatBlock] at hstored
      have hroom := room_of_format hout hbound.le hbuf le_rfl (by omega)
      rw [format_eq hout hbound.le hbuf le_rfl hroom, hsize] at hstored
      apply (Nat.add_left_cancel hstored).symm
    · intro hsame
      have hlength := hsame a h₁.mem hstarts
      have hformat := format_eq hout hbound.le hbuf le_rfl (by omega)
      refine ⟨_, rfl, hsize, fun _ => ?_⟩
      simp only [formatBlock, hformat, Format.after, hlength]
      refine ⟨hsize, ?_⟩
      rw [copySize, argvSize, length_argsAt, BitVec.ofNat_add, ← add_assoc]
      rfl

/-- The heap of the memory from `0x1000` to `0x1040`, with `n` letters at `0x1040`, and with an
argument vector at `0x1050` that points to them. -/
def heapArgs (n : ℕ) : Heap :=
  let mem := heap64.mem.write 0x1040 (List.replicate n (chr 'a') ++ [0])
  { heap64 with mem := mem.storeWord 0x1050 0x1040 }

theorem freeBlocks_heapArgs_11 : FreeBlocks (heapArgs 11) [0x1000] :=
  freeBlocks_singleton (by decide) rfl (by decide) (by decide)

theorem freeBlocks_heapArgs_2 : FreeBlocks (heapArgs 2) [0x1000] :=
  freeBlocks_singleton (by decide) rfl (by decide) (by decide)

/-- The bytes of an argument that is near the argument vector at `0x1050`. -/
theorem argReads_bounds (hword : mem.word (tableAddr 0x1050 0) = c)
    (hlow : 0x1040 ≤ c.toNat) (hhigh : c.toNat ≤ 0x1060) (hy : ArgReads mem 0x1050 0 y) :
  0x1040 ≤ y.toNat ∧ y.toNat < 0x10e0
  := by
  have htable : (tableAddr 0x1050 0).toNat = 0x1050 := by decide
  obtain rfl | rfl | ⟨-, k, hk, -, rfl⟩ := hy
  · omega
  · bv_omega
  · rw [hword]
    unfold CONFIG_ARG_MAX at hk
    bv_omega

/-- An argument at `0x1040` does not overlap the memory before it. -/
theorem argsApart_of_word (hword : mem.word (tableAddr 0x1050 0) = 0x1040)
    (hle : c.toNat + size.toNat ≤ 0x1040) :
  ArgsApart mem 0x1050 1 c size
  := by
  intro index hindex y hy
  obtain rfl : index = 0 := by omega
  right
  apply hle.trans (argReads_bounds hword (by decide) (by decide) hy).1

/-- The copy for the heap starts in its only free block. -/
theorem copyStarts_heapArgs {n : ℕ}
    (hfit : roundSize (copySize (heapArgs n) 1 0x1050) ≤ (heapArgs n).size 0x1000) :
  CopyStarts (heapArgs n) [0x1000] 1 0x1050 0x1000
    (headerMem (heapArgs n) (copySize (heapArgs n) 1 0x1050) 0 0x1000)
  := by
  refine ⟨0, ⟨List.find?_cons_of_pos (decide_eq_true hfit), ?_⟩, rfl⟩
  rw [List.takeWhile_cons_of_neg (by simpa using hfit)]
  rfl

end Mosnix.Kmalloc
