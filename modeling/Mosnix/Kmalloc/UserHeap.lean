import Mosnix.Machine
import Mosnix.Lib.Memory
import Mosnix.Lib.System

/-!
# The user space allocator

The first-fit allocator of user space memory in `kmalloc.c`.  A block is a header of four bytes,
with a link to the next free block and the size of the block, followed by as many bytes as the
size says.  The free blocks are on the list `free_blocks`, linked through their headers.

A loop over the list takes a bound on its iterations and fails with `none` when it is reached.
There are fewer than 2^16 addresses, so a loop that is still running after that many iterations
goes on forever.
-/

namespace Mosnix.Kmalloc

/-- The memory, and the head of the list `free_blocks`. -/
structure Heap where
  mem : Memory
  freeBlocks : Word

/-- The size of `struct kmalloc_user_block`. -/
def SIZEOF_USER_BLOCK : Word := 4

def KMALLOC_MIN_BLOCK_SIZE : Word := 32

namespace Heap

/-- `block->next` -/
def next (h : Heap) (block : Word) : Word :=
  h.mem.word block

/-- `block->size` -/
def size (h : Heap) (block : Word) : Word :=
  h.mem.word (block + 2)

def setNext (h : Heap) (block v : Word) : Heap :=
  { h with mem := h.mem.storeWord block v }

def setSize (h : Heap) (block v : Word) : Heap :=
  { h with mem := h.mem.storeWord (block + 2) v }

/-- `SLIST_INSERT_HEAD` -/
def slistInsertHead (h : Heap) (elm : Word) : Heap :=
  { h.setNext elm h.freeBlocks with freeBlocks := elm }

/-- `SLIST_INSERT_AFTER` -/
def slistInsertAfter (h : Heap) (slistelm elm : Word) : Heap :=
  (h.setNext elm (h.next slistelm)).setNext slistelm elm

/-- `SLIST_REMOVE_AFTER` -/
def slistRemoveAfter (h : Heap) (prevelm elm : Word) : Heap :=
  if prevelm ≠ 0 then h.setNext prevelm (h.next elm)
  else { h with freeBlocks := h.next h.freeBlocks }

/-- The block takes in the block `other`, which follows it:
`block->size += sizeof(struct kmalloc_user_block); block->size += other->size`. -/
def combine (h : Heap) (block other : Word) : Heap :=
  let h := h.setSize block (h.size block + SIZEOF_USER_BLOCK)
  h.setSize block (h.size block + h.size other)

end Heap

/-- The bound on the iterations of a loop over the free list. -/
def loopBound : ℕ := 2 ^ 16

/-- `kmalloc_init`, for the user space memory from `start` to `stop`. -/
def kmallocInit (mem : Memory) (start stop : Word) : Heap :=
  let h : Heap := { mem := mem, freeBlocks := 0 }
  (h.setSize start (stop - start - SIZEOF_USER_BLOCK)).slistInsertHead start

/-! ### Allocation -/

/-- The size of an allocation, rounded up to a multiple of four. -/
def roundSize (size : Word) : Word :=
  (size + 3) &&& ~~~ 3

/-- The address of `block2`, at which a split puts the remainder of the block. -/
def splitAddr (block size : Word) : Word :=
  block + SIZEOF_USER_BLOCK + size * SIZEOF_USER_BLOCK

/-- The heap after the block is split: `size` bytes are left to it, and the rest is the block
`block2` of the code, with a header of its own. -/
def splitOff (h : Heap) (block size : Word) : Heap :=
  ((h.setSize (splitAddr block size) (h.size block - size - SIZEOF_USER_BLOCK)).slistInsertAfter
    block (splitAddr block size)).setSize block size

/-- The split of a free block that is large enough. -/
def splitBlock (h : Heap) (block size : Word) : Heap :=
  if size - h.size block ≥ KMALLOC_MIN_BLOCK_SIZE then splitOff h block size else h

/-- The loop of `kmalloc_user_alloc` over the free list. -/
def allocLoop (size : Word) (h : Heap) : ℕ → Word → Word → Option (Heap × Word)
  | 0, _, _ => none
  | fuel + 1, prev, block =>
      if block = 0 then some (h, 0)
      else if h.size block ≥ size then
        some ((splitBlock h block size).slistRemoveAfter prev block, block + SIZEOF_USER_BLOCK)
      else allocLoop size h fuel block (h.next block)

/-- `kmalloc_user_alloc`: the new heap and the allocated pointer, or zero. -/
def kmallocUserAlloc (h : Heap) (size : Word) : Option (Heap × Word) :=
  allocLoop (roundSize size) h loopBound 0 h.freeBlocks

/-! ### Release -/

/-- The loop of `kmalloc_user_free` over the free list, which combines the block with the free
block after it: the new heap, and the free block before the block. -/
def freeLoop (block : Word) (h : Heap) : ℕ → Word → Word → Option (Heap × Word)
  | 0, _, _ => none
  | fuel + 1, prev, current =>
      if current = 0 then some (h, prev)
      else if current > block then
        let temp := block + SIZEOF_USER_BLOCK + h.size block
        if temp = current then some ((h.slistRemoveAfter prev current).combine block current, prev)
        else some (h, prev)
      else freeLoop block h fuel current (h.next current)

/-- The second half of `kmalloc_user_free`: the block goes back into the free list after the free
block `prev`, or is combined with it. -/
def insertFreeBlock (h : Heap) (prev block : Word) : Heap :=
  if prev ≠ 0 then
    let temp := prev + SIZEOF_USER_BLOCK + h.size prev
    if temp = block then h.combine prev block
    else h.slistInsertAfter prev block
  else h.slistInsertHead block

/-- `kmalloc_user_free` -/
def kmallocUserFree (h : Heap) (ptr : Word) : Option Heap := do
  if ptr = 0 then
    return h
  let block := ptr - SIZEOF_USER_BLOCK
  let (h, prev) ← freeLoop block h loopBound 0 h.freeBlocks
  return insertFreeBlock h prev block

/-! ### Use of the allocator -/

/-- The heap, and the pointers that were allocated and not yet freed. -/
structure State where
  heap : Heap
  live : List Word

/-- The calls of the allocator, and the stores of its users. -/
inductive Action where
  | alloc (size : Word)
  | free (ptr : Word)
  | store (addr : Word) (v : Byte)

/-- The effect of an action.  An allocation asks for at most 65532 bytes, a free is of a live
pointer, and a store is into the bytes of a live block. -/
def step (s : State) : Action → State → Prop
  | .alloc size, s' =>
      size ≤ 65532 ∧ ∃ h ptr, kmallocUserAlloc s.heap size = some (h, ptr)
        ∧ s' = { heap := h, live := if ptr = 0 then s.live else ptr :: s.live }
  | .free ptr, s' =>
      ptr ∈ s.live ∧ ∃ h, kmallocUserFree s.heap ptr = some h
        ∧ s' = { heap := h, live := s.live.erase ptr }
  | .store addr v, s' =>
      (∃ ptr ∈ s.live, ptr ≤ addr
        ∧ addr.toNat < ptr.toNat + (s.heap.size (ptr - SIZEOF_USER_BLOCK)).toNat)
      ∧ s' = { s with heap := { s.heap with mem := s.heap.mem.store addr v } }

/-- The use of the memory from `start` to `stop`, from `kmalloc_init` on. -/
def system (start stop : Word) : System State Action where
  start s := ∃ mem, s = { heap := kmallocInit mem start stop, live := [] }
  step := step

end Mosnix.Kmalloc
