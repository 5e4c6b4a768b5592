import Mosnix.Kmalloc.Argv

/-!
# The copy of an argument vector

The function `kmalloc_copy_argv` packs the strings behind the table of pointers, but it stores only the
last word of the table, which is NULL.  The other words are those that the block held before, so that
the copy is right exactly if these happen to be pointers to the packed strings
(`kmallocCopyArgv_iff`).
-/

namespace Mosnix.Kmalloc

variable {h h₁ : Heap} {l : List Word} {mem mem' : Memory} {argv a c size prev y : Word} {argc : Int}
  {n : ℕ} {args args' : List Arg}

/-! ### The block after the second pass -/

/-- The memory after the strings are packed behind the table at `c`. -/
def packedMem (mem : Memory) (c : Word) (args : List Arg) : Memory :=
  mem.write (tableAddr c (args.length + 1)) (packed args)

/-- The heap after the block at `c` is formatted. -/
def formatted (h : Heap) (c : Word) (args : List Arg) : Heap :=
  { h with mem := (packedMem h.mem c args).storeWord (tableAddr c args.length) 0 }

section

variable (hstop : c.toNat + 2 * (args.length + 1) + (packed args).length < 2 ^ 16)

include hstop

/-- The copy does not change the memory before the last word of the table. -/
theorem formatted_of_lt (hy : y.toNat < c.toNat + 2 * args.length) :
  (formatted h c args).mem y = h.mem y
  := by
  have htable := toNat_tableAddr (c := c) (i := args.length) (by omega)
  have hstrings := toNat_tableAddr (c := c) (i := args.length + 1) (by omega)
  apply (Memory.storeWord_of_ne (by bv_omega) (by bv_omega)).trans
  apply Memory.write_of_lt_or_le
  · omega
  · omega

/-- The copy packs the strings behind the table. -/
theorem formatted_of_le (hy : c.toNat + 2 * (args.length + 1) ≤ y.toNat) :
  (formatted h c args).mem y = packedMem h.mem c args y
  := by
  have htable := toNat_tableAddr (c := c) (i := args.length) (by omega)
  apply Memory.storeWord_of_ne
  · bv_omega
  · bv_omega

/-- The copy keeps the other words of the table. -/
theorem word_formatted {i : ℕ} (hi : i < args.length) :
  (formatted h c args).mem.word (tableAddr c i) = h.mem.word (tableAddr c i)
  := by
  have htable := toNat_tableAddr (c := c) (i := i) (by omega)
  rw [Memory.word, Memory.word, formatted_of_lt hstop (by bv_omega),
    formatted_of_lt hstop (by bv_omega)]

theorem size_formatted (hc : 4 ≤ c.toNat) :
  (formatted h c args).size (c - SIZEOF_USER_BLOCK) = h.size (c - SIZEOF_USER_BLOCK)
  := by
  unfold SIZEOF_USER_BLOCK
  rw [Heap.size, Heap.size, Memory.word, Memory.word, formatted_of_lt hstop (by bv_omega),
    formatted_of_lt hstop (by bv_omega)]

end

/-! ### The copy -/

/-- The pointers `p` point to the strings `ss`, each with its NUL.  The strings are in the block of
`size` bytes at `c`, after the table of pointers, and do not overlap. -/
structure Placed (mem : Memory) (c size : Word) (ss : List (List Byte)) (p : ℕ → Word) : Prop where
  inside : ∀ i s, ss[i]? = some s → c.toNat + 2 * (ss.length + 1) ≤ (p i).toNat
    ∧ (p i).toNat + s.length + 1 ≤ c.toNat + size.toNat
  string : ∀ i s, ss[i]? = some s → mem.read (p i) (s.length + 1) = s ++ [0]
  apart : ∀ i j s t, ss[i]? = some s → ss[j]? = some t → i ≠ j →
    (p i).toNat + s.length + 1 ≤ (p j).toNat ∨ (p j).toNat + t.length + 1 ≤ (p i).toNat

/-- The copy of the argument vector in the block at `c`: the pointers in the table point to the
strings, and the last word of the table is NULL. -/
def ArgvCopied (h : Heap) (c : Word) (argv : List Arg) : Prop :=
  Placed h.mem c (h.size (c - SIZEOF_USER_BLOCK)) (argv.map argString)
      (fun i => h.mem.word (tableAddr c i))
    ∧ h.mem.word (tableAddr c argv.length) = 0

/-- The words that the free block `a` holds where the table will be are pointers to the arguments, once
the arguments that are in the memory `mem` are packed behind the table. -/
def StalePointers (h : Heap) (argc : Int) (argv a : Word) (mem : Memory) : Prop :=
  Placed (packedMem mem (a + SIZEOF_USER_BLOCK) (argsAt mem argv (argCount argc)))
    (a + SIZEOF_USER_BLOCK) (grantedSize h a (roundSize (copySize h argc argv)))
    ((argsAt h.mem argv (argCount argc)).map argString)
    (fun i => h.mem.word (tableAddr (a + SIZEOF_USER_BLOCK) i))

/-- The arguments do not overlap the bytes of their copy at `c`, which are in the memory. -/
def CopyApart (mem : Memory) (argv : Word) (n : ℕ) (c : Word) : Prop :=
  c.toNat + (argvSize (argsAt mem argv n)).toNat < 2 ^ 16
    ∧ ArgsApart mem argv n c (argvSize (argsAt mem argv n))

/-- The strings depend only on the bytes of the block after the table. -/
theorem Placed.congr {mem mem' : Memory} {c size : Word} {ss : List (List Byte)} {p p' : ℕ → Word}
    (hplaced : Placed mem c size ss p) (hbound : c.toNat + size.toNat ≤ 2 ^ 16)
    (hmem : ∀ y : Word, c.toNat + 2 * (ss.length + 1) ≤ y.toNat →
      y.toNat < c.toNat + size.toNat → mem' y = mem y)
    (hp : ∀ i < ss.length, p' i = p i) :
  Placed mem' c size ss p'
  := by
  have heq {i : ℕ} {s : List Byte} (hi : ss[i]? = some s) : p' i = p i :=
    hp i (List.getElem?_eq_some_iff.mp hi).1
  refine ⟨?_, ?_, ?_⟩
  · intro i s hi
    rw [heq hi]
    apply hplaced.inside i s hi
  · intro i s hi
    obtain ⟨hlow, hhigh⟩ := hplaced.inside i s hi
    rw [heq hi, ← hplaced.string i s hi]
    apply Memory.read_congr
    · omega
    · intro y hy hy'
      apply hmem y
      · omega
      · omega
  · intro i j s t hi hj hne
    rw [heq hi, heq hj]
    apply hplaced.apart i j s t hi hj hne

/-- The copy of the arguments `args` is right in a block that is formatted with the arguments `args'`
if and only if the pointers were in the block. -/
theorem argvCopied_iff {granted : Word} {p : ℕ → Word} (hlen : args'.length = args.length)
    (hstop : c.toNat + 2 * (args'.length + 1) + (packed args').length < 2 ^ 16) (hc : 4 ≤ c.toNat)
    (hbound : c.toNat + granted.toNat ≤ 2 ^ 16)
    (hsize : h₁.size (c - SIZEOF_USER_BLOCK) = granted)
    (hp : ∀ i < args.length, h₁.mem.word (tableAddr c i) = p i) :
  ArgvCopied (formatted h₁ c args') c args
    ↔ Placed (packedMem h₁.mem c args') c granted (args.map argString) p
  := by
  have hlast : (formatted h₁ c args').mem.word (tableAddr c args.length) = 0 := by
    rw [← hlen]
    apply Memory.word_storeWord_self
  have hpointers : ∀ i < (args.map argString).length,
      (formatted h₁ c args').mem.word (tableAddr c i) = p i := by
    intro i hi
    rw [List.length_map] at hi
    rw [word_formatted hstop (by omega), hp i hi]
  have hstrings : ∀ y : Word, c.toNat + 2 * ((args.map argString).length + 1) ≤ y.toNat →
      y.toNat < c.toNat + granted.toNat →
      (formatted h₁ c args').mem y = packedMem h₁.mem c args' y := by
    intro y hy _
    rw [List.length_map, ← hlen] at hy
    apply formatted_of_le hstop hy
  rw [ArgvCopied, size_formatted hstop hc, hsize]
  constructor
  · rintro ⟨hplaced, -⟩
    apply hplaced.congr hbound
    · intro y hy hy'
      rw [hstrings y hy hy']
    · intro i hi
      rw [hpointers i hi]
  · intro hplaced
    exact ⟨hplaced.congr hbound hstrings hpointers, hlast⟩

/-- The second pass in a block that it does not leave, and that the arguments do not overlap. -/
theorem formatBlock_eq (hapart : CopyApart mem argv (argCount argc) c) (hmem : h₁.mem = mem) :
  (formatBlock h₁ argc argv c size).heap = formatted h₁ c (argsAt mem argv (argCount argc))
  := by
  subst hmem
  obtain ⟨hbound, hout⟩ := hapart
  have hbytes := (toNat_argvSize (length_argsAt_le h₁.mem argv argc)).1
  rw [length_argsAt] at hbytes
  have htable := toNat_tableAddr (c := c) (i := argCount argc + 1) (by omega)
  have hbuf : c.toNat ≤ (tableAddr c (argCount argc + 1)).toNat := by omega
  have hformat := format_eq hout hbound.le hbuf le_rfl (by omega)
  simp only [formatBlock, hformat, Format.after, formatted, packedMem, length_argsAt]

section

variable (hl : FreeBlocks h l) (hstarts : CopyStarts h l argc argv a mem)

include hl hstarts

/-- The headers leave the bytes of the block alone. -/
theorem FreeBlocks.mem_of_block (hay : a.toNat + 4 ≤ y.toNat)
    (hya : y.toNat < a.toNat + 4 + (grantedSize h a (roundSize (copySize h argc argv))).toNat) :
  mem y = h.mem y
  := by
  obtain ⟨prev, hfit, rfl⟩ := hstarts
  apply headerMem_of_not_inHeader
  exact hl.not_inHeader hfit (roundSize_copySize h argc argv) hay hya

/-- The block of the copy is in the memory, and has room for it. -/
theorem FreeBlocks.granted_bounds :
  (a + SIZEOF_USER_BLOCK).toNat = a.toNat + 4
    ∧ a.toNat + 4 + (grantedSize h a (roundSize (copySize h argc argv))).toNat < 2 ^ 16
    ∧ copySize h argc argv ≤ grantedSize h a (roundSize (copySize h argc argv))
  := by
  obtain ⟨prev, hfit, -⟩ := hstarts
  obtain ⟨hbound, hround, -, -⟩ := hl.fitsAfter_bounds hfit
  obtain ⟨hlow, hhigh⟩ := grantedSize_le hround
  have hle := le_roundSize_copySize h argc argv
  simp only [blockExtent] at hbound
  refine ⟨?_, ?_, BitVec.le_trans hle hlow⟩
  · unfold SIZEOF_USER_BLOCK
    bv_omega
  · rw [BitVec.le_def] at hhigh
    omega

/-- The copy in the block is right if and only if the words of the table were pointers to the
arguments. -/
theorem FreeBlocks.argvCopied_formatBlock (size : Word) (hmem : h₁.mem = mem)
    (hsize : h₁.size a = grantedSize h a (roundSize (copySize h argc argv)))
    (hapart : CopyApart mem argv (argCount argc) (a + SIZEOF_USER_BLOCK)) :
  ArgvCopied (formatBlock h₁ argc argv (a + SIZEOF_USER_BLOCK) size).heap (a + SIZEOF_USER_BLOCK)
      (argsAt h.mem argv (argCount argc))
    ↔ StalePointers h argc argv a mem
  := by
  obtain ⟨hc, hbound, hfits⟩ := hl.granted_bounds hstarts
  have hbytes := (toNat_argvSize (length_argsAt_le mem argv argc)).1
  have hroom := toNat_copySize h argc argv
  have hstop := hapart.1
  rw [BitVec.le_def] at hfits
  rw [hbytes] at hstop
  rw [formatBlock_eq hapart hmem, StalePointers, ← hmem]
  apply argvCopied_iff
  · rw [length_argsAt, length_argsAt]
  · rw [hmem]
    omega
  · omega
  · omega
  · rw [BitVec.add_sub_cancel, hsize]
  · intro i hi
    rw [length_argsAt] at hi
    have htable := toNat_tableAddr (c := a + SIZEOF_USER_BLOCK) (i := i) (by omega)
    rw [Memory.word, Memory.word, hmem, hl.mem_of_block hstarts (by bv_omega) (by bv_omega),
      hl.mem_of_block hstarts (by omega) (by omega)]

end

/-- For arguments outside the block and the headers, the condition is one on the memory before the
call. -/
theorem FreeBlocks.stalePointers_iff (hl : FreeBlocks h l)
    (hfit : FitsAfter h l (copySize h argc argv) prev a)
    (hout : ArgsOutside h argv (argCount argc) (copySize h argc argv) prev a) :
  StalePointers h argc argv a (headerMem h (copySize h argc argv) prev a)
    ↔ StalePointers h argc argv a h.mem
  := by
  have hstarts : CopyStarts h l argc argv a (headerMem h (copySize h argc argv) prev a) :=
    ⟨prev, hfit, rfl⟩
  obtain ⟨hc, hbound, -⟩ := hl.granted_bounds hstarts
  have hsame : ∀ y : Word, (a + SIZEOF_USER_BLOCK).toNat ≤ y.toNat →
      y.toNat < (a + SIZEOF_USER_BLOCK).toNat
        + (grantedSize h a (roundSize (copySize h argc argv))).toNat →
      packedMem (headerMem h (copySize h argc argv) prev a) (a + SIZEOF_USER_BLOCK)
          (argsAt (headerMem h (copySize h argc argv) prev a) argv (argCount argc)) y
        = packedMem h.mem (a + SIZEOF_USER_BLOCK) (argsAt h.mem argv (argCount argc)) y := by
    intro y hy hy'
    rw [packedMem, packedMem, hout.packed_eq, length_argsAt, length_argsAt]
    apply Memory.write_congr
    apply hl.mem_of_block hstarts
    · omega
    · omega
  constructor
  · intro hplaced
    apply hplaced.congr (by omega) _ fun _ _ => rfl
    intro y hy hy'
    rw [hsame y (by omega) hy']
  · intro hplaced
    apply hplaced.congr (by omega) _ fun _ _ => rfl
    intro y hy hy'
    rw [hsame y (by omega) hy']

/-- The copy returns, and for arguments that the second pass does not overlap it is right, whenever the
allocation succeeds, if and only if the words that the block held before the call were already pointers
to the arguments.  If no byte of the arguments is in the block or in a header that the allocation
stores, then the arguments are those before the call. -/
theorem kmallocCopyArgv_iff (hl : FreeBlocks h l) (hargc : 0 ≤ argc) :
  ∃ copy, kmallocCopyArgv h argc argv = some copy
    ∧ ((∀ a mem, CopyStarts h l argc argv a mem →
        CopyApart mem argv (argCount argc) (a + SIZEOF_USER_BLOCK)) →
      ((copy.argvCopy ≠ 0 →
          ArgvCopied copy.heap copy.argvCopy (argsAt h.mem argv (argCount argc)))
        ↔ ∀ a mem, CopyStarts h l argc argv a mem → StalePointers h argc argv a mem))
    ∧ ((∀ prev a, FitsAfter h l (copySize h argc argv) prev a →
        ArgsOutside h argv (argCount argc) (copySize h argc argv) prev a) →
      ((copy.argvCopy ≠ 0 →
          ArgvCopied copy.heap copy.argvCopy (argsAt h.mem argv (argCount argc)))
        ↔ ∀ prev a, FitsAfter h l (copySize h argc argv) prev a →
          StalePointers h argc argv a h.mem))
  := by
  obtain ⟨hnone, hcopy⟩ | ⟨a, h₁, hstarts, hsize, hne, hbound, hcopy⟩ := hl.copy_cases hargc
  · refine ⟨_, hcopy, fun _ => ?_, fun _ => ?_⟩
    · apply iff_of_true (fun hc => absurd rfl hc)
      intro a mem hstarts
      apply absurd hstarts (hnone a mem)
    · apply iff_of_true (fun hc => absurd rfl hc)
      intro prev a hfit
      apply absurd ⟨prev, hfit, rfl⟩ (hnone a _)
  · have hiff (hapart : CopyApart h₁.mem argv (argCount argc) (a + SIZEOF_USER_BLOCK)) :=
      hl.argvCopied_formatBlock hstarts (copySize h argc argv) rfl hsize hapart
    refine ⟨_, hcopy, ?_, ?_⟩
    · intro hapart
      constructor
      · intro hcopied a' mem' hstarts'
        obtain ⟨rfl, rfl⟩ := hstarts.unique hstarts'
        apply (hiff (hapart _ _ hstarts)).mp (hcopied hne)
      · intro hstale _
        apply (hiff (hapart a h₁.mem hstarts)).mpr (hstale a h₁.mem hstarts)
    · obtain ⟨prev, hfit, hmem⟩ := hstarts
      intro hout
      have houtside := hout prev a hfit
      have hapart : CopyApart h₁.mem argv (argCount argc) (a + SIZEOF_USER_BLOCK) := by
        have hsame : argvSize (argsAt h₁.mem argv (argCount argc)) = copySize h argc argv := by
          rw [argvSize, copySize, argvSize, hmem, houtside.packed_eq, length_argsAt, length_argsAt]
        rw [CopyApart, hsame]
        refine ⟨hbound, ?_⟩
        rw [hmem]
        apply houtside.apart
      have hstale := hl.stalePointers_iff hfit houtside
      rw [← hmem] at hstale
      constructor
      · intro hcopied prev' a' hfit'
        obtain ⟨rfl, -⟩ := hfit.unique hfit'
        apply hstale.mp ((hiff hapart).mp (hcopied hne))
      · intro hall _
        apply (hiff hapart).mpr (hstale.mpr (hall prev a hfit))

/-- The heap of the memory from `0x1000` to `0x1040`, whose free block starts with the word `v`, with
the argument `a` at `0x1060`, and with an argument vector at `0x1050` that points to it. -/
def heapTable (v : Word) : Heap :=
  let mem := (heap64.mem.storeWord 0x1004 v).write 0x1060 [chr 'a', 0]
  { heap64 with mem := mem.storeWord 0x1050 0x1060 }

theorem freeBlocks_heapTable_0 : FreeBlocks (heapTable 0) [0x1000] :=
  freeBlocks_singleton (by decide) rfl (by decide) (by decide)

theorem freeBlocks_heapTable_1008 : FreeBlocks (heapTable 0x1008) [0x1000] :=
  freeBlocks_singleton (by decide) rfl (by decide) (by decide)

/-- If the block held zeros, then the copy of an argument vector has only NULL pointers. -/
theorem kmallocCopyArgv_zero :
  FreeBlocks (heapTable 0) [0x1000]
    ∧ argsAt (heapTable 0).mem 0x1050 1 = [some (chr 'a' :: List.replicate 127 0)]
    ∧ ∃ copy, kmallocCopyArgv (heapTable 0) 1 0x1050 = some copy ∧ copy.argvCopy = 0x1004
      ∧ copy.heap.mem.word 0x1004 = 0
      ∧ ¬ ArgvCopied copy.heap 0x1004 (argsAt (heapTable 0).mem 0x1050 1)
  := by
  have hcopy : (kmallocCopyArgv (heapTable 0) 1 0x1050).map
      (fun copy => (copy.argvCopy, copy.heap.mem.word 0x1004)) = some (0x1004, 0) := by
    decide +kernel
  obtain ⟨copy, heq, hx⟩ := Option.map_eq_some_iff.mp hcopy
  obtain ⟨hptr, hword⟩ := Prod.mk.inj hx
  have hargs : argsAt (heapTable 0).mem 0x1050 1 = [some (chr 'a' :: List.replicate 127 0)] := by
    decide +kernel
  refine ⟨freeBlocks_heapTable_0, hargs, copy, heq, hptr, hword, ?_⟩
  rintro ⟨hplaced, -⟩
  rw [hargs] at hplaced
  have hinside := (hplaced.inside 0 _ rfl).1
  have htable : tableAddr 0x1004 0 = 0x1004 := by decide
  rw [htable, hword] at hinside
  exact absurd hinside (by decide)

/-- If the block held a pointer to the place of the string, then the copy of the argument vector is
right. -/
theorem kmallocCopyArgv_stale :
  FreeBlocks (heapTable 0x1008) [0x1000]
    ∧ ∃ copy, kmallocCopyArgv (heapTable 0x1008) 1 0x1050 = some copy ∧ copy.argvCopy = 0x1004
      ∧ ArgvCopied copy.heap 0x1004 (argsAt (heapTable 0x1008).mem 0x1050 1)
  := by
  have hptr : (kmallocCopyArgv (heapTable 0x1008) 1 0x1050).map (fun copy => copy.argvCopy)
      = some 0x1004 := by
    decide +kernel
  have hargs : (argsAt (heapTable 0x1008).mem 0x1050 1).map argString = [[chr 'a']] := by
    decide +kernel
  have hsize : copySize (heapTable 0x1008) 1 0x1050 = 6 := by decide +kernel
  have hcount : argCount 1 = 1 := rfl
  have hone : (0 : Int) ≤ 1 := by decide
  obtain ⟨copy, hcopy, -, hiff⟩ : ∃ copy, kmallocCopyArgv (heapTable 0x1008) 1 0x1050 = some copy ∧ _ :=
    kmallocCopyArgv_iff freeBlocks_heapTable_1008 hone
  rw [hcopy, Option.map_some, Option.some.injEq] at hptr
  rw [hptr, hsize, hcount] at hiff
  have hfit {prev a : Word} (hfit : FitsAfter (heapTable 0x1008) [0x1000] 6 prev a) :
      a = 0x1000 ∧ prev = 0 :=
    FitsAfter.unique ⟨by decide +kernel, by decide +kernel⟩ hfit
  refine ⟨freeBlocks_heapTable_1008, copy, hcopy, hptr, (hiff ?_).mpr ?_ (by decide)⟩
  · intro prev a hfirst
    obtain ⟨rfl, rfl⟩ := hfit hfirst
    have hreads {index : ℕ} (hindex : index < 1) {y : Word}
        (hy : ArgReads (heapTable 0x1008).mem 0x1050 index y) :
        0x1040 ≤ y.toNat ∧ y.toNat < 0x10e0 := by
      obtain rfl : index = 0 := by omega
      exact argReads_bounds (c := 0x1060) (by decide +kernel) (by decide) (by decide) hy
    constructor
    · intro index hindex y hy
      right
      have hlow := (hreads hindex hy).1
      apply le_trans _ hlow
      decide
    · intro index hindex y hy
      have hbounds := hreads hindex hy
      have hrest : splitAddr 0x1000 (roundSize 6) = 0x1024 := by decide
      rintro (⟨hprev, -⟩ | ⟨-, hheader⟩)
      · cases hprev rfl
      · rw [hrest] at hheader
        bv_omega
  · intro prev a hfirst
    obtain ⟨rfl, rfl⟩ := hfit hfirst
    rw [StalePointers, hcount, hargs]
    refine ⟨?_, ?_, ?_⟩
    · rintro (_ | i) s hs
      · cases hs
        decide +kernel
      · simp at hs
    · rintro (_ | i) s hs
      · cases hs
        decide +kernel
      · simp at hs
    · rintro (_ | i) (_ | j) s t hs ht hne
      · cases hne rfl
      · simp at ht
      · simp at hs
      · simp at hs

end Mosnix.Kmalloc
