import Mosnix.Lib.Mos6502Trap
import Mosnix.Target.Registers
import Mosnix.Target.SerialFlow
import Mosnix.Target.Systick

/-!
# Interrupts and system calls

The code that runs when a program is interrupted, and when it calls the kernel: `_irqbrk` of
`reset.S`, `brk_syscall` of `switcher.S`, and `syscall` of the C library.  A system call is a `brk`
with the number of the call in `Y`, times 2, and the address of the arguments in `A` and `X`; the
kernel finds the function in `SYSCALL_TABLE`.

The interrupt routines `__systick_isr` and `__serial_isr`, and the functions of the kernel, are
routines elsewhere.  The state has the timer of the VIA besides the processor and the memory.
-/

namespace Mosnix.Trap

open Mos6502
open Systick (Timer timer)

/-- The functions in the dispatch table. -/
inductive SysFn where
  | sysRead | sysWrite | sysOpen | sysClose | sysLseek | sysFcntl | sysDup | sysDup2
  | sysGetcwd | sysChdir | sysMkdir | sysRmdir | sysMknod | sysUnlink | sysStat | sysLstat
  | sysOpendir | sysUmask | sysMount | sysUmount
  | sysGetpid | sysGetppid | sysExit | sysSchedYield
  | sysGetuid | sysGeteuid | sysSetuid | sysSeteuid | sysGetgid | sysGetegid | sysSetgid
  | sysSetegid
  | sysGetmonotime | sysGetrealtime | sysSetrealtime
  | sysGetuname | sysStrerror
  | sysNotimp
  deriving DecidableEq

/-- Entries of the table that are not implemented. -/
def notimp (n : ℕ) : List SysFn :=
  List.replicate n .sysNotimp

/-- `SYSCALL_TABLE` of `dispatch.c`; the entries that come after a run of those that are not implemented
start with the numbers 20, 26, 29, 50, 60, 80 and 100. -/
def SYSCALL_TABLE : List SysFn :=
  List.flatten
    [ [.sysRead, .sysWrite, .sysOpen, .sysClose, .sysLseek, .sysFcntl, .sysDup, .sysDup2],
      notimp 12,
      [.sysGetcwd, .sysChdir, .sysMkdir, .sysRmdir],
      notimp 2,
      [.sysMknod],
      notimp 2,
      [.sysUnlink, .sysStat, .sysLstat, .sysOpendir, .sysUmask, .sysMount, .sysUmount],
      notimp 14,
      [.sysGetpid, .sysGetppid, .sysExit, .sysSchedYield],
      notimp 6,
      [.sysGetuid, .sysGeteuid, .sysSetuid, .sysSeteuid, .sysGetgid, .sysGetegid, .sysSetgid,
        .sysSetegid],
      notimp 12,
      [.sysGetmonotime, .sysGetrealtime, .sysSetrealtime],
      notimp 17,
      [.sysGetuname, .sysStrerror],
      notimp 26 ]

/-- The number of a system call, as in `bits/syscall.h`. -/
def SysFn.number : SysFn → Option Byte
  | .sysRead => some 0 | .sysWrite => some 1 | .sysOpen => some 2 | .sysClose => some 3
  | .sysLseek => some 4 | .sysFcntl => some 5 | .sysDup => some 6 | .sysDup2 => some 7
  | .sysGetcwd => some 20 | .sysChdir => some 21 | .sysMkdir => some 22 | .sysRmdir => some 23
  | .sysMknod => some 26 | .sysUnlink => some 29 | .sysStat => some 30 | .sysLstat => some 31
  | .sysOpendir => some 32 | .sysUmask => some 33 | .sysMount => some 34 | .sysUmount => some 35
  | .sysGetpid => some 50 | .sysGetppid => some 51 | .sysExit => some 52
  | .sysSchedYield => some 53
  | .sysGetuid => some 60 | .sysGeteuid => some 61 | .sysSetuid => some 62
  | .sysSeteuid => some 63 | .sysGetgid => some 64 | .sysGetegid => some 65
  | .sysSetgid => some 66 | .sysSetegid => some 67
  | .sysGetmonotime => some 80 | .sysGetrealtime => some 81 | .sysSetrealtime => some 82
  | .sysGetuname => some 100 | .sysStrerror => some 101
  | .sysNotimp => none

/-- The addresses that the linker assigns, and the version of the processor.  The kernel has its
imaginary registers at the start of the zero page and its variables in its RAM; the user program has
its own imaginary registers, of which the first two hold the address of its stack. -/
structure Link where
  systick : Systick.Link
  serial : Serial.Link
  retSystick : Word
  retSerial : Word
  retDispatch : Word
  retSyscall : Word
  cpu65C02 : Bool
  inKernel : Byte
  table : Word
  address : SysFn → Word
  userRc0 : Word
  userRc1 : Word
  errno : Word
  serial_ram : ∀ a ∈ [serial.serialRxIn, serial.serialRxOut], 0x0200 ≤ a.toNat ∧ a.toNat < 0x1000
  buffer_ram : ∀ x, 0x0200 ≤ (serial.slot x).toNat ∧ (serial.slot x).toNat < 0x1000
  systick_ne : ∀ a ∈ systick.bytes,
    a ≠ serial.serialRxIn ∧ a ≠ serial.serialRxOut ∧ ∀ x, a ≠ serial.slot x
  ret_ne : retDispatch ≠ retSyscall
  inKernel_lo : 0x20 ≤ inKernel.toNat
  inKernel_hi : inKernel.toNat < 0x40
  table_lo : 0x1000 ≤ table.toNat
  table_hi : table.toNat + 256 ≤ 2 ^ 16
  user_lo : 0x40 ≤ userRc0.toNat ∧ 0x40 ≤ userRc1.toNat
  user_hi : userRc0.toNat < 0x100 ∧ userRc1.toNat < 0x100
  errno_lo : 0x1000 ≤ errno.toNat
  errno_hi : errno.toNat + 1 < 2 ^ 16

/-- The labels of the code. -/
inductive Label where
  | syscall
  | syscallError
  | irqbrk
  | doBreak
  | irqDefault
  | brkSyscall
  | brkDispatch
  deriving DecidableEq

/-- The lines of the code. -/
abbrev Code := List (SysLine Label (Cpu × Timer))

namespace Link

variable (k : Link)

/-- The address of `in_kernel`. -/
def inKernelAddr : Word := k.inKernel.setWidth 16

/-- The effect of `__systick_isr`. -/
def systickIsr : Cpu × Timer → Cpu × Timer → Prop :=
  timer.Returns k.systick.code .systickIsr

/-- The effect of `__serial_isr`, which does not access the VIA. -/
def serialIsr (c c' : Cpu × Timer) : Prop :=
  Returns k.serial.code .serialIsr c.1 c'.1 ∧ c'.2 = c.2

/-- `syscall` of the C library.  The byte after the `brk` is skipped. -/
def syscall : Code :=
  [ .label .syscall,
    .sys .aslA,
    .op .tay,
    .op (.lda (.abs k.userRc0)),
    .op (.ldx (.abs k.userRc1)),
    .brk k.retSyscall .irqbrk,
    .op (.cpx (.imm 0x80)),
    .branch .cs .syscallError,
    .rts,
    .label .syscallError,
    .sys (.eor (.imm 0xFF)),
    .op .clc,
    .op (.adc (.imm 1)),
    .op (.sta (.abs k.errno)),
    .op .txa,
    .sys (.eor (.imm 0xFF)),
    .op (.adc (.imm 0)),
    .op (.sta (.abs (k.errno + 1))),
    .op (.lda (.imm 0xFF)),
    .op .tax,
    .rts ]

/-- `_irqbrk`, with the default handler that it continues with. -/
def irqbrk : Code :=
  [ .label .irqbrk,
    .op .pha,
    .op .phx,
    .sys .cld,
    .op .tsx,
    .op (.lda (.absX 0x0103)),
    .op (.and (.imm 0x10)),
    .branch .ne .doBreak,
    .call k.retSystick k.systickIsr,
    .call k.retSerial k.serialIsr,
    .op .plx,
    .op .pla,
    .jmp .irqDefault,
    .label .doBreak,
    .op .cli,
    .jmp .brkSyscall,
    .label .irqDefault,
    .rti ]

/-- The part of `brk_syscall` that drops the `X` and `A` of the program from the stack. -/
def discard : Code :=
  if k.cpu65C02 then [ .sys .ply, .sys .ply ] else [ .op .tay, .op .pla, .op .pla, .op .tya ]

/-- The part of `brk_syscall` before the function of the kernel returns. -/
def brkEnter : Code :=
  [ .label .brkSyscall,
    .op (.inc (.abs k.inKernelAddr)),
    .op .tsx,
    .op (.lda (.absY k.table)),
    .op (.sta (.abs (rc 4))),
    .op (.lda (.absY (k.table + 1))),
    .op (.sta (.abs (rc 5))),
    .op (.lda (.absX 0x0102)),
    .op (.sta (.abs (rc 2))),
    .op (.lda (.absX 0x0101)),
    .op (.sta (.abs (rc 3))),
    .jsr k.retDispatch .brkDispatch ]

/-- The end of `brk_syscall`, where `kernel` has the effect of the functions of the kernel by their
addresses. -/
def brkLeave (kernel : Word → Cpu × Timer → Cpu × Timer → Prop) : Code :=
  [ .op (.dec (.abs k.inKernelAddr)),
    .rti,
    .label .brkDispatch,
    .jmpInd (rc 4) kernel ]

/-- `brk_syscall` -/
def brkSyscall (kernel : Word → Cpu × Timer → Cpu × Timer → Prop) : Code :=
  k.brkEnter ++ (k.discard ++ k.brkLeave kernel)

/-- The code around interrupts and system calls. -/
def code (kernel : Word → Cpu × Timer → Cpu × Timer → Prop) : Code :=
  k.syscall ++ (k.irqbrk ++ k.brkSyscall kernel)

end Link

/-- An address of `__systick_value`. -/
def systick0400 : Systick.Link :=
  ⟨0x0400, by decide, by decide⟩

theorem serial_ram_link0200 (a : Word) (ha : a ∈ [Serial.link0200.serialRxIn, Serial.link0200.serialRxOut]) :
  0x0200 ≤ a.toNat ∧ a.toNat < 0x1000
  := by
  simp only [Serial.link0200, List.mem_cons, List.not_mem_nil, or_false] at ha
  obtain rfl | rfl := ha
  all_goals decide

/-- The buffer lies in the RAM of the kernel. -/
theorem slot_link0200 (x : Byte) :
  0x0200 ≤ (Serial.link0200.slot x).toNat ∧ (Serial.link0200.slot x).toNat < 0x1000
  := by
  simp only [Serial.Link.slot, Serial.link0200]
  bv_omega

/-- The clock is apart from the serial buffer. -/
theorem systick0400_ne (a : Word) (ha : a ∈ systick0400.bytes) :
  a ≠ Serial.link0200.serialRxIn ∧ a ≠ Serial.link0200.serialRxOut
    ∧ ∀ x, a ≠ Serial.link0200.slot x
  := by
  simp only [systick0400, Systick.Link.bytes, List.mem_cons, List.not_mem_nil, or_false] at ha
  obtain rfl | rfl | rfl | rfl | rfl := ha
  all_goals
    refine ⟨by decide, by decide, fun x => ?_⟩
    simp only [Serial.Link.slot, Serial.link0200]
    bv_omega

/-- Addresses of the code and of its variables.  Each function has an address of its own. -/
def link0400 : Link where
  systick := systick0400
  serial := Serial.link0200
  retSystick := 0xC010
  retSerial := 0xC013
  retDispatch := 0xC040
  retSyscall := 0xD010
  cpu65C02 := true
  inKernel := 0x20
  table := 0xC100
  address f := 0xE000 + 0x10 * (f.number.getD 0x80).setWidth 16
  userRc0 := 0x40
  userRc1 := 0x41
  errno := 0x1000
  serial_ram := serial_ram_link0200
  buffer_ram := slot_link0200
  systick_ne := systick0400_ne
  ret_ne := by decide
  inKernel_lo := by decide
  inKernel_hi := by decide
  table_lo := by decide
  table_hi := by decide
  user_lo := by decide
  user_hi := by decide
  errno_lo := by decide
  errno_hi := by decide

/-- A timer that has expired. -/
def expiredTimer : Timer where
  count := 0
  latch := 0
  started := false
  expired := true
  enabled := true
  control := 0
  flags := 0
  cycles _ := 0

end Mosnix.Trap
