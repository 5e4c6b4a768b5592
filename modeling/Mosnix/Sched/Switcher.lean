import Mosnix.Target.Registers

/-!
# The context switch

The routine `proc_switch_to` of `switcher.S`, for a plain 6502.  It saves the stack of the current
process in the process block, and takes the stack of another process from its block.  The layout
of a process block is that of `struct proc_context` in `proc.h`.
-/

namespace Mosnix.Switcher

open Mos6502

/-- Size of the 6502 return stack of a process. -/
def CONFIG_RETURN_STACK_SIZE : ℕ := 64

def CPU_STACK : Word := 0x0100

/-- The size of `struct proc_context`. -/
def SIZEOF_PROC_CONTEXT : ℕ := 81

/-- The offset of the field `AX` of `struct proc_context`.  The field `S` comes before it, and after
it the fields `stack`, `kstack` and `kzp`, at the offsets 3, 67 and 69. -/
def offsetAX : ℕ := 1

/-- The addresses that the linker assigns: the zero page variables of the kernel, which follow
the imaginary registers, and the address of `.Lswap_in_return`. -/
structure Link where
  currentProc : Byte
  inKernel : Byte
  swapInReturn : Word
  currentProc_lo : 0x20 ≤ currentProc
  currentProc_hi : currentProc < 0x3F
  inKernel_lo : 0x20 ≤ inKernel
  inKernel_hi : inKernel ≤ 0x3F
  inKernel_ne : inKernel ≠ currentProc
  inKernel_ne' : inKernel ≠ currentProc + 1

/-- The labels of the routine. -/
inductive Label where
  | procSwitchTo
  | swapOutOld
  | swapOutUstackLoop
  | swapOutUstackDone
  | swapOutImagRegs
  | swapInNew
  | swapInUstackLoop
  | swapInKstack
  | swapInImagRegs
  | swapInSetKstack
  | swapInSwitchStack
  deriving DecidableEq

namespace Link

variable (k : Link)

/-- The addresses of the two bytes of `current_proc`. -/
def cur : Word := k.currentProc.setWidth 16
def cur' : Word := (k.currentProc + 1).setWidth 16

/-- The address of `in_kernel`. -/
def inKernelAddr : Word := k.inKernel.setWidth 16

/-! ### The code -/

/-- The test for a switch to the current process. -/
def entry : List (Line Label) :=
  [ .label .procSwitchTo,
    .op (.lda (.abs (rc 2))),
    .op (.cmp (.abs k.cur)),
    .branch .ne .swapOutOld,
    .op (.lda (.abs (rc 3))),
    .op (.cmp (.abs k.cur')),
    .branch .ne .swapOutOld,
    .op (.ldy (.imm 2)),
    .op (.lda (.indY k.currentProc)),
    .op .tax,
    .op .dey,
    .op (.lda (.indY k.currentProc)),
    .rts ]

/-- The return conditions, and the stack pointer of the process that is swapped out. -/
def swapOutOld : List (Line Label) :=
  [ .label .swapOutOld,
    .op (.lda (.abs k.cur)),
    .op (.ora (.abs k.cur')),
    .branch .eq .swapInNew,
    .op (.lda (.imm (k.swapInReturn.extractLsb' 8 8))),
    .op .pha,
    .op (.lda (.imm (k.swapInReturn.extractLsb' 0 8))),
    .op .pha,
    .op .php,
    .op .tsx,
    .op .txa,
    .op (.ldy (.imm 0)),
    .op (.sta (.indY k.currentProc)),
    .op .clc,
    .op (.adc (.imm 4)),
    .op .tay ]

/-- The loop that copies the stack to the process block. -/
def swapOutUstack : List (Line Label) :=
  [ .label .swapOutUstackLoop,
    .op (.cpy (.imm (BitVec.ofNat 8 (CONFIG_RETURN_STACK_SIZE + 3)))),
    .branch .cs .swapOutUstackDone,
    .op (.lda (.absY (CPU_STACK - 3))),
    .op (.sta (.indY k.currentProc)),
    .op .iny,
    .branch .ne .swapOutUstackLoop,
    .label .swapOutUstackDone ]

/-- The kernel stack pointer of the process that is swapped out. -/
def swapOutKstack : List (Line Label) :=
  [ .op (.lda (.abs (rc 0))),
    .op (.sta (.indY k.currentProc)),
    .op .iny,
    .op (.lda (.abs (rc 1))),
    .op (.sta (.indY k.currentProc)) ]

/-- The loop over twelve imaginary registers; the routine contains it twice. -/
def imagRegs (l : Label) : List (Line Label) :=
  [ .op (.ldx (.imm 0)),
    .label l,
    .op .iny,
    .op (.lda (.indY k.currentProc)),
    .op (.sta (.zpX 12)),
    .op .inx,
    .op (.cpx (.imm 12)),
    .branch .ne l ]

/-- The process that is swapped in, and its stack pointer. -/
def swapInNew : List (Line Label) :=
  [ .label .swapInNew,
    .op (.lda (.abs (rc 2))),
    .op (.sta (.abs k.cur)),
    .op (.lda (.abs (rc 3))),
    .op (.sta (.abs k.cur')),
    .op (.ldy (.imm 0)),
    .op (.lda (.indY k.currentProc)),
    .op .clc,
    .op (.adc (.imm 4)),
    .op .tay ]

/-- The loop that copies the process block to the stack. -/
def swapInUstack : List (Line Label) :=
  [ .label .swapInUstackLoop,
    .op (.cpy (.imm (BitVec.ofNat 8 (CONFIG_RETURN_STACK_SIZE + 3)))),
    .branch .cs .swapInKstack,
    .op (.lda (.indY k.currentProc)),
    .op (.sta (.absY (CPU_STACK - 3))),
    .op .iny,
    .branch .ne .swapInUstackLoop ]

/-- The kernel stack pointer of the process that is swapped in. -/
def swapInKstack : List (Line Label) :=
  [ .label .swapInKstack,
    .op .iny,
    .op (.lda (.indY k.currentProc)),
    .op .dey,
    .op (.ora (.indY k.currentProc)),
    .branch .eq .swapInSetKstack,
    .op (.lda (.indY k.currentProc)),
    .op (.sta (.abs (rc 0))),
    .op .iny,
    .op (.lda (.indY k.currentProc)),
    .op (.sta (.abs (rc 1))) ]

/-- The kernel stack pointer of the first process. -/
def swapInSetKstack : List (Line Label) :=
  [ .label .swapInSetKstack,
    .op (.lda (.abs (rc 0))),
    .op (.sta (.indY k.currentProc)),
    .op .iny,
    .op (.lda (.abs (rc 1))),
    .op (.sta (.indY k.currentProc)) ]

/-- The switch to the stack of the process that is swapped in. -/
def swapInSwitchStack : List (Line Label) :=
  [ .label .swapInSwitchStack,
    .op (.ldy (.imm 0)),
    .op (.lda (.indY k.currentProc)),
    .op .tax,
    .op .txs,
    .op (.ldy (.imm 2)),
    .op (.lda (.indY k.currentProc)),
    .op .tax,
    .op .dey,
    .op (.lda (.indY k.currentProc)),
    .op (.dec (.abs k.inKernelAddr)),
    .rti ]

/-- The code from `.Lswap_in_new` on. -/
def swapIn : List (Line Label) :=
  k.swapInNew ++ (k.swapInUstack ++ (k.swapInKstack ++ (k.imagRegs .swapInImagRegs
    ++ (.branch .eq .swapInSwitchStack :: (k.swapInSetKstack ++ k.swapInSwitchStack)))))

/-- `proc_switch_to` -/
def procSwitchTo : List (Line Label) :=
  k.entry ++ (k.swapOutOld ++ (k.swapOutUstack ++ (k.swapOutKstack
    ++ (k.imagRegs .swapOutImagRegs ++ k.swapIn))))

end Link

end Mosnix.Switcher
