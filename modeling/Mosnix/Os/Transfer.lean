import Mosnix.Os.Directories
import Mosnix.Fs.DirRead

/-!
# Transfers

The system calls `sys_read` and `sys_write`, with the operations of the devices of `null.c`, of the
console of `basictty.c`, and of the directories of the RAM file system.  What the operations of the
FAT file system read is a parameter.

A size is an unsigned word, and the result of an operation is a signed word, which is the number of
bytes that were moved or the negative of an error code.  The two are told apart exactly if fewer
than 2¹⁵ bytes were moved (`sysRead_sysWrite_iff`).
-/

namespace Mosnix.Os

open Fat Fs Program

/-! ### The devices of `null.c` -/

/-- What was moved to or from the buffer of the caller. -/
inductive Contents where
  | bytes (l : List Byte)
  | dirents (l : List Dirent)

/-- The number of bytes. -/
def Contents.size : Contents → ℕ
  | .bytes l => l.length
  | .dirents l => SIZEOF_DIRENT * l.length

/-- What an operation returns, and what it moved. -/
structure Transfer where
  result : Word
  moved : Contents

/-- `dev_null_read` -/
def devNullRead : Transfer where
  result := 0
  moved := .bytes []

/-- `dev_zero_read` -/
def devZeroRead (size : Word) : Transfer where
  result := size
  moved := .bytes (List.replicate size.toNat 0)

/-- `dev_null_write`: the bytes of the buffer are thrown away. -/
def devNullWrite (data : ℕ → Byte) (size : Word) : Transfer where
  result := size
  moved := .bytes ((List.range size.toNat).map data)

/-- `dev_full_write` -/
def devFullWrite : Transfer where
  result := BitVec.ofInt 16 (-ENOSPC)
  moved := .bytes []

/-- `file_write_default` -/
def fileWriteDefault : Transfer where
  result := BitVec.ofInt 16 (-EINVAL)
  moved := .bytes []

/-! ### The console -/

/-- The options of a target for its console. -/
structure ConsoleConfig where
  chrinEcho : Bool
  chroutLfHandling : Bool
  chroutNoWait : Bool

/-- The options of the target `eater`. -/
def eater : ConsoleConfig := ⟨false, false, true⟩

/-- The console: what the calls of `__chrin` and `__chrin_no_wait` return, one after the other, the
number of calls, and what was sent with `__chrout`. -/
structure Console where
  input : ℕ → Int
  next : ℕ := 0
  output : List Byte := []

/-- `__chrin` -/
def chrin : StateM Console Int := fun c => (c.input c.next, { c with next := c.next + 1 })

/-- `__chrin_no_wait`, which returns a negative value if there is no character. -/
def chrinNoWait : StateM Console Int := fun c =>
  (c.input c.next, { c with next := c.next + 1 })

/-- `__chrout` -/
def chrout (b : Byte) : StateM Console Unit := fun c => ((), { c with output := c.output ++ [b] })

/-! The characters `\b`, `\n`, `\r`, and that of the delete key. -/

def BS : Byte := 0x08
def LF : Byte := 0x0A
def CR : Byte := 0x0D
def DEL : Byte := 0x7F

section Tty

variable (config : ConsoleConfig)

/-- A line ending is echoed, unless the console does so itself. -/
def echoNewline : StateM Console Unit :=
  if config.chrinEcho then return ()
  else if config.chroutLfHandling then chrout LF
  else do
    chrout CR
    chrout LF

/-- A character is echoed. -/
def echoChar (c : Int) : StateM Console Unit :=
  if config.chrinEcho then return ()
  else if c = BS.toNat ∨ c = DEL.toNat then do
    chrout BS
    chrout (chr ' ')
    chrout BS
  else chrout (BitVec.ofInt 8 c)

/-- The loop of `basic_tty_read`, with the number of bytes that are left to read, the number of bytes
in the buffer, and these bytes.  The code counts in an `int`, which wraps around. -/
def basicTtyReadLoop : ℕ → Word → List Byte → StateM Console (Word × List Byte)
  | 0, result, d => return (result, d)
  | size + 1, result, d => do
      let c ← chrin
      if c < 0 then
        return (result, d)
      else if c = CR.toNat ∨ c = LF.toNat then
        echoNewline config
        return (result + 1, d ++ [LF])
      else
        echoChar config c
        basicTtyReadLoop size (result + 1) (d ++ [BitVec.ofInt 8 c])

/-- `basic_tty_read` -/
def basicTtyRead (size : Word) : StateM Console Transfer := do
  let (result, d) ← basicTtyReadLoop config size.toNat 0 []
  return ⟨result, .bytes d⟩

/-- A character is written, with a carriage return before a line feed if the console does not take
care of it. -/
def basicTtyPut (c : Byte) : StateM Console Unit :=
  if config.chroutLfHandling then chrout c
  else if c ≠ LF then chrout c
  else do
    chrout CR
    chrout LF

/-- The loop of `basic_tty_write`, with the number of bytes that are left, the number of bytes that
were written, and these bytes, which are the first ones of the buffer. -/
def basicTtyWriteLoop (data : ℕ → Byte) : ℕ → Word → List Byte → StateM Console (Word × List Byte)
  | 0, result, taken => return (result, taken)
  | size + 1, result, taken => do
      let c := data taken.length
      basicTtyPut config c
      basicTtyWriteLoop data size (result + 1) (taken ++ [c])

/-- `basic_tty_write` -/
def basicTtyWrite (data : ℕ → Byte) (size : Word) : StateM Console Transfer := do
  let (result, taken) ← basicTtyWriteLoop config data size.toNat 0 []
  return ⟨result, .bytes taken⟩

/-- `raw_tty_read` -/
def rawTtyRead (flags size : Word) : StateM Console Transfer :=
  if size = 0 then return ⟨0, .bytes []⟩
  else if config.chroutNoWait ∧ flags &&& O_NONBLOCK ≠ 0 then do
    let ch ← chrinNoWait
    if ch < 0 then return ⟨0, .bytes []⟩
    else return ⟨1, .bytes [BitVec.ofInt 8 ch]⟩
  else do
    let ch ← chrin
    return ⟨1, .bytes [BitVec.ofInt 8 ch]⟩

end Tty

/-- The loop of `raw_tty_write`. -/
def rawTtyWriteLoop (data : ℕ → Byte) : ℕ → List Byte → StateM Console (List Byte)
  | 0, taken => return taken
  | size + 1, taken => do
      let c := data taken.length
      chrout c
      rawTtyWriteLoop data size (taken ++ [c])

/-- `raw_tty_write` -/
def rawTtyWrite (data : ℕ → Byte) (size : Word) : StateM Console Transfer := do
  let result := size
  let taken ← rawTtyWriteLoop data size.toNat []
  return ⟨result, .bytes taken⟩

/-! ### The system calls -/

/-- The kernel and the console. -/
structure Machine (σ : Type) where
  kernel : Kernel σ
  console : Console

/-- Programs on the kernel and the console. -/
abbrev MachineM (σ : Type) := Program (Machine σ)

variable {σ : Type}

/-- A program of the kernel. -/
def onKernel {α : Type} (m : KernelM σ α) : MachineM σ α :=
  zoom Machine.kernel (fun s k => { s with kernel := k }) m

/-- A program on the console. -/
def onConsole {α : Type} (m : StateM Console α) : MachineM σ α :=
  onPart Machine.console (fun s c => { s with console := c }) m

section Operations

variable (mtime : BufId → ℤ) (config : ConsoleConfig)
  (fatRead : FileOps → FileId → Word → MachineM σ Transfer)

/-- The call of `ramfs_dir_read` for an open file. -/
def ramfsDirReadFile (f : FileId) (size : Word) : KernelM σ Transfer := do
  let file ← readFile f
  match file.inode with
  | none => fault
  | some inode =>
      let (r, dir) ← onFs (ramfsDirRead mtime size ⟨inode, file.posn⟩)
      setFile f { file with posn := dir.posn }
      return ⟨r.result, .dirents r.dirents⟩

/-- The function `read` of the operations of an open file. -/
def FileOps.read (op : FileOps) (f : FileId) (size : Word) : MachineM σ Transfer :=
  match op with
  | .devNull => return devNullRead
  | .devZero => return devZeroRead size
  | .devFull => return devZeroRead size
  | .basicTty => onConsole (basicTtyRead config size)
  | .rawTty => do
      let file ← onKernel (readFile f)
      onConsole (rawTtyRead config file.flags size)
  | .ramfsDir => onKernel (ramfsDirReadFile mtime f size)
  | .fatfsDir => fatRead .fatfsDir f size
  | .fatfsFile => fatRead .fatfsFile f size

/-- The function `write` of the operations of an open file. -/
def FileOps.write (op : FileOps) (data : ℕ → Byte) (size : Word) : MachineM σ Transfer :=
  match op with
  | .devNull => return devNullWrite data size
  | .devZero => return devNullWrite data size
  | .devFull => return devFullWrite
  | .basicTty => onConsole (basicTtyWrite config data size)
  | .rawTty => onConsole (rawTtyWrite data size)
  | .ramfsDir => return fileWriteDefault
  | .fatfsDir => return fileWriteDefault
  | .fatfsFile => return fileWriteDefault

/-- The part of `sys_read` and `sys_write` from the call of the operation on, with the error of the
part before.  It returns the result as an integer, and what was moved. -/
def transferRest (operation : FileOps → FileId → MachineM σ Transfer) (error : Int) :
    MachineM σ (Int × Contents) := do
  if error < 0 then
    return (error, .bytes [])
  else
    let proc ← onKernel currentProc
    match proc.inFlight with
    | none => fault
    | some f =>
        let file ← onKernel (readFile f)
        match file.op with
        | none => fault
        | some op =>
            let t ← operation op f
            discard (onKernel sysTransferEnd)
            return (t.result.toInt, t.moved)

/-- `sys_read`; `null` says that the pointer `data` is NULL. -/
def sysRead (fd : Int) (null : Bool) (size : Word) : MachineM σ (Int × Contents) := do
  let error ← onKernel (sysReadBegin fd null size)
  transferRest (fun op f => op.read mtime config fatRead f size) error

/-- `sys_write`, with the bytes of the buffer if the pointer `data` is not NULL. -/
def sysWrite (fd : Int) (null : Bool) (data : ℕ → Byte) (size : Word) :
    MachineM σ (Int × Contents) := do
  let error ← onKernel (sysWriteBegin fd null size)
  transferRest (fun op _ => op.write config data size) error

end Operations

/-! ### Results -/

/-- The result `r` is negative only for an error, after which nothing was moved; otherwise it is the
number of bytes that were moved, which is at most the size. -/
structure Unambiguous (size : Word) (r : Int × Contents) : Prop where
  error : r.1 < 0 → ∃ errno : Int, 1 ≤ errno ∧ errno ≤ 40 ∧ r.1 = -errno ∧ r.2.size = 0
  count : 0 ≤ r.1 → r.1 = r.2.size ∧ r.2.size ≤ size.toNat

/-- An operation moves `n` bytes, or fails. -/
inductive Outcome (size : Word) (t : Transfer) (n : ℕ) : Prop where
  | moved (hmoved : t.moved.size = n) (hsize : n ≤ size.toNat)
      (hresult : t.result = BitVec.ofNat 16 n)
  | failed (errno : Int) (hone : 1 ≤ errno) (hforty : errno ≤ 40) (hmoved : t.moved.size = 0)
      (hn : n = 0) (hresult : t.result = BitVec.ofInt 16 (-errno))

/-- A number of bytes as a signed word. -/
theorem toInt_ofNat_of_lt {n : ℕ} (hn : n < 2 ^ 16) :
  (BitVec.ofNat 16 n).toInt = if n < 2 ^ 15 then (n : Int) else n - 2 ^ 16
  := by
  rw [BitVec.toInt_eq_toNat_cond, BitVec.toNat_ofNat, Nat.mod_eq_of_lt hn]
  split_ifs <;> omega

variable {size : Word} {P : ℕ → Prop} {t : Transfer}

/-- A result is unambiguous exactly if fewer than 2¹⁵ bytes are moved. -/
theorem Outcome.unambiguous_iff {n : ℕ} (h : Outcome size t n) :
  Unambiguous size (t.result.toInt, t.moved) ↔ n < 2 ^ 15
  := by
  cases h with
  | moved hmoved hsize hresult =>
      have htoInt := toInt_ofNat_of_lt (hsize.trans_lt size.isLt)
      rw [← hresult] at htoInt
      constructor
      · intro hclear
        by_contra hn
        rw [if_neg hn] at htoInt
        obtain ⟨errno, -, -, -, hzero⟩ := hclear.error (by
          dsimp only
          omega)
        dsimp only at hzero
        omega
      · intro hn
        rw [if_pos hn] at htoInt
        constructor
        · intro hneg
          dsimp only at hneg
          omega
        · intro _
          dsimp only
          rw [htoInt, hmoved]
          exact ⟨rfl, hsize⟩
  | failed errno hone hforty hmoved hn hresult =>
      have htoInt : t.result.toInt = -errno := by
        rw [hresult, BitVec.toInt_ofInt, Int.bmod_def]
        split_ifs <;> omega
      refine ⟨fun _ => by omega, fun _ => ⟨?_, ?_⟩⟩
      · intro _
        exact ⟨errno, hone, hforty, htoInt, hmoved⟩
      · intro hnonneg
        dsimp only at hnonneg
        omega

/-- A result wraps around if 2¹⁵ bytes or more are moved. -/
theorem Outcome.wraps {n : ℕ} (h : Outcome size t n) (hn : 2 ^ 15 ≤ n) :
  t.result.toInt = n - 2 ^ 16 ∧ t.moved.size = n ∧ ¬ Unambiguous size (t.result.toInt, t.moved)
  := by
  rw [h.unambiguous_iff]
  cases h with
  | moved hmoved hsize hresult =>
      refine ⟨?_, hmoved, not_lt.mpr hn⟩
      rw [hresult, toInt_ofNat_of_lt (hsize.trans_lt size.isLt), if_neg (not_lt.mpr hn)]
  | failed errno hone hforty hmoved hzero hresult => omega

/-! ### The console moves what it counts -/

/-- The number of bytes that `basic_tty_read` stores for a line of the input, if the buffer has room
for `size` bytes. -/
def lineCount (input : ℕ → Int) : ℕ → ℕ → ℕ
  | _, 0 => 0
  | next, size + 1 =>
      if input next < 0 then 0
      else if input next = CR.toNat ∨ input next = LF.toNat then 1
      else lineCount input (next + 1) size + 1

/-- A line is cut at the size of the buffer. -/
theorem lineCount_le (input : ℕ → Int) (next size : ℕ) : lineCount input next size ≤ size := by
  induction size generalizing next with
  | zero => apply le_rfl
  | succ size ih =>
      rw [lineCount]
      have hle := ih (next + 1)
      split_ifs <;> omega

/-- A line that does not end is cut off at the size of the buffer. -/
theorem lineCount_of_ne {c : Int} (hc : 0 ≤ c) (hcr : c ≠ CR.toNat) (hlf : c ≠ LF.toNat) (next size : ℕ) :
  lineCount (fun _ => c) next size = size
  := by
  induction size generalizing next with
  | zero => rfl
  | succ size ih => rw [lineCount, if_neg (not_lt.mpr hc), if_neg (not_or.mpr ⟨hcr, hlf⟩), ih]

variable (config : ConsoleConfig)

/-- What is echoed does not change the input. -/
theorem echoChar_input (c : Int) (s : Console) :
  (echoChar config c s).2.input = s.input ∧ (echoChar config c s).2.next = s.next
  := by
  rw [echoChar]
  split_ifs <;> exact ⟨rfl, rfl⟩

/-- One byte is counted, and `n` more. -/
theorem add_one_add_ofNat (result : Word) (n : ℕ) :
  result + 1 + BitVec.ofNat 16 n = result + BitVec.ofNat 16 (n + 1)
  := by
  bv_omega

/-- The loop counts the bytes that it stores. -/
theorem basicTtyReadLoop_eq (size : ℕ) (result : Word) (d : List Byte) (s : Console) :
  ∃ l s', basicTtyReadLoop config size result d s
      = ((result + BitVec.ofNat 16 (lineCount s.input s.next size), d ++ l), s')
    ∧ l.length = lineCount s.input s.next size
  := by
  induction size generalizing result d s with
  | zero =>
      refine ⟨[], s, ?_, rfl⟩
      rw [lineCount, BitVec.add_zero, List.append_nil]
      rfl
  | succ size ih =>
      rw [lineCount, basicTtyReadLoop]
      change ∃ l s', (if s.input s.next < 0 then pure (result, d) else _ :
        StateM Console (Word × List Byte)) { s with next := s.next + 1 } = _ ∧ _
      split_ifs with hneg hnewline
      · refine ⟨[], { s with next := s.next + 1 }, ?_, rfl⟩
        rw [BitVec.add_zero, List.append_nil]
        rfl
      · exact ⟨[LF], _, rfl, rfl⟩
      · obtain ⟨hinput, hnext⟩ := echoChar_input config (s.input s.next)
          { s with next := s.next + 1 }
        obtain ⟨l, s', heq, hlength⟩ := ih (result + 1) (d ++ [BitVec.ofInt 8 (s.input s.next)])
          (echoChar config (s.input s.next) { s with next := s.next + 1 }).2
        rw [hinput, hnext] at heq hlength
        dsimp only at heq hlength
        refine ⟨BitVec.ofInt 8 (s.input s.next) :: l, s', heq.trans ?_, ?_⟩
        · rw [List.append_assoc, List.singleton_append, add_one_add_ofNat]
        · rw [List.length_cons, hlength]

/-- The loop counts the bytes that it writes. -/
theorem basicTtyWriteLoop_eq (data : ℕ → Byte) (size : ℕ) (result : Word) (taken : List Byte)
    (s : Console) :
  ∃ l s', basicTtyWriteLoop config data size result taken s
      = ((result + BitVec.ofNat 16 size, taken ++ l), s')
    ∧ l.length = size
  := by
  induction size generalizing result taken s with
  | zero =>
      refine ⟨[], s, ?_, rfl⟩
      rw [BitVec.add_zero, List.append_nil]
      rfl
  | succ size ih =>
      obtain ⟨l, s', heq, hlength⟩ := ih (result + 1) (taken ++ [data taken.length])
        (basicTtyPut config (data taken.length) s).2
      refine ⟨data taken.length :: l, s', heq.trans ?_, ?_⟩
      · rw [List.append_assoc, List.singleton_append, add_one_add_ofNat]
      · rw [List.length_cons, hlength]

/-- All the characters are written. -/
theorem rawTtyWriteLoop_eq (data : ℕ → Byte) (size : ℕ) (taken : List Byte) (s : Console) :
  ∃ l s', rawTtyWriteLoop data size taken s = (taken ++ l, s') ∧ l.length = size
  := by
  induction size generalizing taken s with
  | zero =>
      refine ⟨[], s, ?_, rfl⟩
      rw [List.append_nil]
      rfl
  | succ size ih =>
      obtain ⟨l, s', heq, hlength⟩ := ih (taken ++ [data taken.length])
        (chrout (data taken.length) s).2
      refine ⟨data taken.length :: l, s', heq.trans ?_, ?_⟩
      · rw [List.append_assoc, List.singleton_append]
      · rw [List.length_cons, hlength]

/-- A line is read. -/
theorem basicTtyRead_outcome (size : Word) (s : Console) :
  Outcome size (basicTtyRead config size s).1 (lineCount s.input s.next size.toNat)
  := by
  obtain ⟨l, s', heq, hlength⟩ := basicTtyReadLoop_eq config size.toNat 0 [] s
  have hread : (basicTtyRead config size s).1
      = ⟨BitVec.ofNat 16 (lineCount s.input s.next size.toNat), .bytes l⟩ := by
    change (⟨(basicTtyReadLoop config size.toNat 0 [] s).1.1,
      .bytes (basicTtyReadLoop config size.toNat 0 [] s).1.2⟩ : Transfer) = _
    rw [heq]
    simp
  rw [hread]
  exact .moved (t := ⟨_, .bytes l⟩) hlength (lineCount_le _ _ _) rfl

/-- All bytes are written. -/
theorem basicTtyWrite_outcome (data : ℕ → Byte) (size : Word) (s : Console) :
  Outcome size (basicTtyWrite config data size s).1 size.toNat
  := by
  obtain ⟨l, s', heq, hlength⟩ := basicTtyWriteLoop_eq config data size.toNat 0 [] s
  have hwrite : (basicTtyWrite config data size s).1 = ⟨BitVec.ofNat 16 size.toNat, .bytes l⟩ := by
    change (⟨(basicTtyWriteLoop config data size.toNat 0 [] s).1.1,
      .bytes (basicTtyWriteLoop config data size.toNat 0 [] s).1.2⟩ : Transfer) = _
    rw [heq]
    simp
  rw [hwrite]
  exact .moved (t := ⟨_, .bytes l⟩) hlength le_rfl rfl

theorem rawTtyWrite_outcome (data : ℕ → Byte) (size : Word) (s : Console) :
  Outcome size (rawTtyWrite data size s).1 size.toNat
  := by
  obtain ⟨l, s', heq, hlength⟩ := rawTtyWriteLoop_eq data size.toNat [] s
  have hwrite : (rawTtyWrite data size s).1 = ⟨size, .bytes l⟩ := by
    change (⟨size, .bytes (rawTtyWriteLoop data size.toNat [] s).1⟩ : Transfer) = _
    rw [heq, List.nil_append]
  rw [hwrite]
  exact .moved (t := ⟨_, .bytes l⟩) hlength le_rfl (by simp)

/-- At most one character is read. -/
theorem rawTtyRead_outcome (flags size : Word) (s : Console) :
  ∃ n ≤ 1, Outcome size (rawTtyRead config flags size s).1 n
  := by
  by_cases hzero : size = 0
  · rw [rawTtyRead, if_pos hzero]
    exact ⟨0, Nat.zero_le 1, .moved rfl (Nat.zero_le _) rfl⟩
  · have hone : 1 ≤ size.toNat := by bv_omega
    rw [rawTtyRead, if_neg hzero]
    split_ifs
    · by_cases hch : s.input s.next < 0
      · refine ⟨0, Nat.zero_le 1, ?_⟩
        change Outcome size ((if s.input s.next < 0 then pure _ else _ :
          StateM Console Transfer) _).1 0
        rw [if_pos hch]
        exact .moved rfl (Nat.zero_le _) rfl
      · refine ⟨1, le_rfl, ?_⟩
        change Outcome size ((if s.input s.next < 0 then pure _ else _ :
          StateM Console Transfer) _).1 1
        rw [if_neg hch]
        exact .moved rfl hone rfl
    · exact ⟨1, le_rfl, .moved rfl hone rfl⟩

/-! ### Directories -/

section Directory

variable (mtime : BufId → ℤ) {s : FileSystem σ} {k : Kernel σ} {f : FileId} {b : BufId}
  {L : List Fs.Listed}

/-- A read of a directory stores as many structures as it counts, from any position of the file
on. -/
theorem ramfsDirRead_count (hdir : DirOk s b L) (posn : Long) (size : Word) :
  ∃ rs file, ramfsDirRead mtime size ⟨b, posn⟩ s = some ((DirRecords.add {} rs, file), s)
    ∧ rs.length ≤ CONFIG_NUM_BUFFERS ∧ SIZEOF_DIRENT * rs.length ≤ size.toNat
  := by
  have hlistable := hdir.listable
  obtain ⟨i, l, hi, -, -, hchain, rfl⟩ := hdir.lists
  have hlength := hchain.length_le
  obtain ⟨p, hseek, hrest⟩ := ramfsSeek_eq hchain hlength (posn.setWidth 16)
  have hfuel : (l.drop (posn.setWidth 16).toNat).length ≤ CONFIG_NUM_BUFFERS := by
    rw [List.length_drop]
    omega
  obtain ⟨rs, hrs, hrecorded⟩ := @ramfsDirReadLoop_eq _ mtime _ _ _ _ hrest hfuel
    (fun e he => hlistable _ (List.mem_map_of_mem (List.mem_of_mem_drop he))) size {}
  have hcount := hrecorded.length_eq
  rw [List.length_map, List.length_take] at hcount
  refine ⟨rs, ⟨b, posn + (DirRecords.add {} rs).count.setWidth 32⟩, ?_, by omega, ?_⟩
  · apply (bind_eq (readInode_eq hi)).trans
    apply (bind_eq hseek).trans
    apply (bind_eq hrs).trans
    rfl
  · calc SIZEOF_DIRENT * rs.length
        ≤ SIZEOF_DIRENT * (size.toNat / SIZEOF_DIRENT) := Nat.mul_le_mul_left _ (by omega)
      _ ≤ size.toNat := Nat.mul_div_le _ _

/-- The operation of an open file keeps the processes and the references to the file. -/
structure KeepsFile (f : FileId) (k k' : Kernel σ) : Prop where
  processTable_eq : k'.processTable = k.processTable
  current_eq : k'.current = k.current
  count_eq : (k'.globalFd f).count = (k.globalFd f).count

theorem KeepsFile.refl (f : FileId) (k : Kernel σ) : KeepsFile f k k := ⟨rfl, rfl, rfl⟩

/-- A read of a directory moves at most 2700 bytes. -/
theorem ramfsDirReadFile_ends (hdir : DirOk k.fs b L) (hinode : (k.globalFd f).inode = some b)
    (size : Word) :
  Ends (ramfsDirReadFile mtime f size) k fun t k' =>
    (∃ n ≤ 2700, Outcome size t n) ∧ KeepsFile f k k'
  := by
  obtain ⟨rs, file, hread, hle, hsize⟩ :=
    ramfsDirRead_count mtime hdir (k.globalFd f).posn size
  apply Ends.bind_of_eq readFile_eq
  rw [hinode]
  apply Ends.bind_of_eq (onFs_eq hread)
  apply Ends.bind_of_eq setFile_eq
  apply Ends.pure
  refine ⟨⟨SIZEOF_DIRENT * rs.length, Nat.mul_le_mul_left 27 hle, ?_⟩, rfl, rfl, ?_⟩
  · exact .moved (t := ⟨_, .dirents rs⟩) rfl hsize (DirRecords.result_add rs)
  · simp [Kernel.setFile]

end Directory

/-! ### Operations -/

/-- A read moves 2¹⁵ bytes or more. -/
def ReadOverflows (op : FileOps) (size : Word) (s : Console) : Prop :=
  match op with
  | .devZero | .devFull => 2 ^ 15 ≤ size.toNat
  | .basicTty => 2 ^ 15 ≤ lineCount s.input s.next size.toNat
  | _ => False

/-- A write moves 2¹⁵ bytes or more. -/
def WriteOverflows (op : FileOps) (size : Word) : Prop :=
  match op with
  | .devNull | .devZero | .basicTty | .rawTty => 2 ^ 15 ≤ size.toNat
  | _ => False

/-- A file that is open, with the operations of a device or of a directory of the RAM file system. -/
structure OpenFile (k : Kernel σ) (f : FileId) (op : FileOps) : Prop where
  count_pos : 0 < (k.globalFd f).count
  op_eq : (k.globalFd f).op = some op
  notFatfs : op.isFatfs = false
  dir : op = .ramfsDir → ∃ b L, (k.globalFd f).inode = some b ∧ DirOk k.fs b L

section Operations

variable {mtime : BufId → ℤ} {fatRead : FileOps → FileId → Word → MachineM σ Transfer}
  {s : Machine σ} {k : Kernel σ} {f : FileId} {op : FileOps}

theorem onKernel_eq {α : Type} {m : KernelM σ α} {a : α} {k' : Kernel σ}
    (h : m s.kernel = some (a, k')) :
  onKernel m s = some (a, { s with kernel := k' })
  := by
  change (m s.kernel).map _ = _
  rw [h]
  rfl

/-- An operation moves `n` bytes or fails, and keeps the file. -/
def Operates (size : Word) (f : FileId) (m : MachineM σ Transfer) (s : Machine σ)
    (P : ℕ → Prop) : Prop :=
  Ends m s fun t s' => (∃ n, Outcome size t n ∧ P n) ∧ KeepsFile f s.kernel s'.kernel

theorem operates_pure {n : ℕ} (h : Outcome size t n) (hP : P n) :
  Operates size f (pure t) s P
  :=
  Ends.pure ⟨⟨n, h, hP⟩, .refl f s.kernel⟩

theorem operates_onConsole {m : StateM Console Transfer} {n : ℕ} (h : Outcome size (m s.console).1 n)
    (hP : P n) :
  Operates size f (onConsole m) s P
  :=
  ⟨_, _, rfl, ⟨n, h, hP⟩, .refl f s.kernel⟩

/-- An operation on the kernel. -/
theorem operates_onKernel {m : KernelM σ Transfer}
    (h : Ends m s.kernel fun t k' => (∃ n, Outcome size t n ∧ P n) ∧ KeepsFile f s.kernel k') :
  Operates size f (onKernel m) s P
  :=
  Ends.zoom h

theorem devZeroRead_outcome (size : Word) : Outcome size (devZeroRead size) size.toNat :=
  .moved (List.length_replicate ..) le_rfl (by simp [devZeroRead])

theorem devNullWrite_outcome (data : ℕ → Byte) (size : Word) :
  Outcome size (devNullWrite data size) size.toNat
  :=
  .moved (by simp [devNullWrite, Contents.size]) le_rfl (by simp [devNullWrite])

theorem devFullWrite_outcome (size : Word) : Outcome size devFullWrite 0 :=
  .failed ENOSPC (by decide) (by decide) rfl rfl rfl

theorem fileWriteDefault_outcome (size : Word) : Outcome size fileWriteDefault 0 :=
  .failed EINVAL (by decide) (by decide) rfl rfl rfl

/-- What is read from an open file. -/
theorem FileOps.read_operates (h : OpenFile s.kernel f op) (size : Word) :
  Operates size f (op.read mtime config fatRead f size) s fun n =>
    n < 2 ^ 15 ↔ ¬ ReadOverflows op size s.console
  := by
  have hfat := h.notFatfs
  cases op with
  | devNull =>
      apply operates_pure (n := 0) (.moved rfl (Nat.zero_le _) rfl)
      simp [ReadOverflows]
  | devZero => apply operates_pure (devZeroRead_outcome size) not_le.symm
  | devFull => apply operates_pure (devZeroRead_outcome size) not_le.symm
  | basicTty => apply operates_onConsole (basicTtyRead_outcome config size s.console) not_le.symm
  | rawTty =>
      obtain ⟨n, hn, houtcome⟩ := rawTtyRead_outcome config
        (s.kernel.globalFd f).flags size s.console
      apply Ends.bind_of_eq (onKernel_eq readFile_eq)
      apply operates_onConsole houtcome
      simp only [ReadOverflows, not_false_eq_true, iff_true]
      omega
  | ramfsDir =>
      obtain ⟨b, L, hinode, hdir⟩ := h.dir rfl
      apply operates_onKernel
      apply (ramfsDirReadFile_ends mtime hdir hinode size).mono
      rintro t k' ⟨⟨n, hn, houtcome⟩, hkeeps⟩
      refine ⟨⟨n, houtcome, ?_⟩, hkeeps⟩
      simp only [ReadOverflows, not_false_eq_true, iff_true]
      omega
  | fatfsDir => cases hfat
  | fatfsFile => cases hfat

/-- What is written to an open file. -/
theorem FileOps.write_operates (h : OpenFile s.kernel f op) (data : ℕ → Byte) (size : Word) :
  Operates size f (op.write config data size) s fun n =>
    n < 2 ^ 15 ↔ ¬ WriteOverflows op size
  := by
  have hfat := h.notFatfs
  cases op with
  | devNull => apply operates_pure (devNullWrite_outcome data size) not_le.symm
  | devZero => apply operates_pure (devNullWrite_outcome data size) not_le.symm
  | devFull => apply operates_pure (devFullWrite_outcome size) (by simp [WriteOverflows])
  | basicTty => apply operates_onConsole (basicTtyWrite_outcome config data size s.console) not_le.symm
  | rawTty => apply operates_onConsole (rawTtyWrite_outcome data size s.console) not_le.symm
  | ramfsDir => apply operates_pure (fileWriteDefault_outcome size) (by simp [WriteOverflows])
  | fatfsDir => cases hfat
  | fatfsFile => cases hfat

end Operations

/-! ### System calls -/

section Calls

variable {mtime : BufId → ℤ} {fatRead : FileOps → FileId → Word → MachineM σ Transfer}
  {s : Machine σ} {k : Kernel σ} {p : Proc} {fd : Int} {n : Fd} {f : FileId} {op : FileOps}

/-- The descriptor `fd` of the current process refers to the file `f`. -/
def Refers (k : Kernel σ) (fd : Int) (f : FileId) : Prop :=
  ∃ p n, k.processTable k.current = some p ∧ fdIndex fd = some n ∧ p.fd n = some f

/-- The file that a descriptor refers to is open in every state of the kernel. -/
theorem openFile_of_reachable {sd : SdDriver σ} (hk : (kernel sd).Reachable (fun _ _ => True) k)
    (hfd : Refers k fd f) (hop : (k.globalFd f).op = some op) (hfat : op.isFatfs = false)
    (hdir : op = .ramfsDir → ∃ b i, (k.globalFd f).inode = some b ∧ k.fs.buf b = .inode i
      ∧ i.op = .ramfs ∧ S_ISDIR i.mode = true) :
  OpenFile k f op
  where
  count_pos := by
    obtain ⟨p, n, hp, -, hf⟩ := hfd
    apply (counted_of_reachable hk).pos_of_fd hp hf
  op_eq := hop
  notFatfs := hfat
  dir hram := by
    obtain ⟨b, i, hinode, hi, hramfs, hmode⟩ := hdir hram
    have hfs := (kernelOk_anything hk).files.fs
    obtain ⟨l, hl, -⟩ := (hfs.wellFormed.inodeOk b i hi).chain hramfs hmode
    exact ⟨b, l.map listed, hinode, hfs.dirOk ⟨i, l, hi, hramfs, hmode, hl, rfl⟩⟩

/-- The kernel while the process `p` waits for the operation of the file `f`. -/
def Kernel.waiting (k : Kernel σ) (p : Proc) (f : FileId) : Kernel σ :=
  (k.setFile f { k.globalFd f with count := (k.globalFd f).count + 1 }).setProc k.current
    { p with inFlight := some f }

theorem Kernel.waiting_proc (k : Kernel σ) (p : Proc) (f : FileId) :
  (k.waiting p f).processTable (k.waiting p f).current = some { p with inFlight := some f }
  :=
  Function.update_self ..

theorem Kernel.waiting_file (k : Kernel σ) (p : Proc) (f : FileId) :
  (k.waiting p f).globalFd f = { k.globalFd f with count := (k.globalFd f).count + 1 }
  :=
  Function.update_self ..

/-- The file stays open during the transfer. -/
theorem OpenFile.waiting (h : OpenFile k f op) (p : Proc) : OpenFile (k.waiting p f) f op where
  count_pos := by
    have hpos := h.count_pos
    rw [k.waiting_file]
    dsimp only
    omega
  op_eq := by
    rw [k.waiting_file]
    apply h.op_eq
  notFatfs := h.notFatfs
  dir hop := by
    rw [k.waiting_file]
    apply h.dir hop

/-- The part before the operation takes a reference to the file. -/
theorem transferBegin_eq (hp : k.processTable k.current = some p) (hn : fdIndex fd = some n)
    (hf : p.fd n = some f) (size : Word) :
  transferBegin fd false size k = some (0, k.waiting p f)
  := by
  have hget : fileGet fd k = some (some f, k) := by
    unfold fileGet
    rw [hn]
    apply (bind_eq (currentProc_eq hp)).trans
    rw [hf]
    rfl
  apply (bind_eq hget).trans
  dsimp only
  rw [if_neg (by simp)]
  apply (bind_eq fileRef_eq).trans
  refine Eq.trans (bind_eq (currentProc_eq (p := p) ?_)) ?_
  · exact hp
  · rfl

/-- A reference to a file that is not the last one is given up. -/
theorem fileDeref_of_lt (hcount : 1 < (k.globalFd f).count) :
  ∃ k', fileDeref f k = some (0, k')
  := by
  have hmore : ¬ (k.globalFd f).count - 1 ≤ 0 := by omega
  refine ⟨k.setFile f { k.globalFd f with count := (k.globalFd f).count - 1 }, ?_⟩
  apply (bind_eq readFile_eq).trans
  apply (bind_eq setFile_eq).trans
  rw [if_neg hmore]
  rfl

/-- The part after the operation gives up the reference, which is not the last one. -/
theorem sysTransferEnd_eq (hp : k.processTable k.current = some p) (hin : p.inFlight = some f)
    (hcount : 1 < (k.globalFd f).count) :
  ∃ k', sysTransferEnd k = some (0, k')
  := by
  obtain ⟨k', heq⟩ := fileDeref_of_lt (k := k.setProc k.current { p with inFlight := none }) hcount
  refine ⟨k', ?_⟩
  apply (bind_eq (currentProc_eq hp)).trans
  rw [hin]
  apply (bind_eq setCurrentProc_eq).trans
  apply (bind_eq (discard_eq heq)).trans
  rfl

/-- A call returns what the operation returns, if the descriptor refers to an open file and the
pointer is not NULL. -/
theorem transfer_ends {operation : FileOps → FileId → MachineM σ Transfer} (hfd : Refers s.kernel fd f)
    (hopen : OpenFile s.kernel f op) (hoperation : ∀ s₁ : Machine σ, OpenFile s₁.kernel f op → s₁.console = s.console →
      Operates size f (operation op f) s₁ P) :
  Ends (onKernel (transferBegin fd false size) >>= transferRest operation) s fun r _ =>
    ∃ t n, Outcome size t n ∧ P n ∧ r = (t.result.toInt, t.moved)
  := by
  obtain ⟨p, n, hp, hn, hf⟩ := hfd
  have hproc := s.kernel.waiting_proc p f
  have hwaiting := hopen.waiting p
  refine Ends.bind_of_eq (onKernel_eq (transferBegin_eq hp hn hf size)) ?_
  rw [transferRest, if_neg (lt_irrefl 0)]
  refine Ends.bind_of_eq (onKernel_eq (currentProc_eq hproc)) ?_
  refine Ends.bind_of_eq (onKernel_eq readFile_eq) ?_
  dsimp only
  rw [hwaiting.op_eq]
  apply Ends.bind (hoperation ⟨s.kernel.waiting p f, s.console⟩ hwaiting rfl)
  rintro t s₂ ⟨⟨n, houtcome, hn⟩, hkeeps⟩
  have hcount : 1 < (s₂.kernel.globalFd f).count := by
    have hpos := hopen.count_pos
    rw [hkeeps.count_eq, Kernel.waiting_file]
    dsimp only
    omega
  rw [← hkeeps.processTable_eq, ← hkeeps.current_eq] at hproc
  obtain ⟨k₃, hend⟩ := sysTransferEnd_eq hproc rfl hcount
  apply Ends.bind_discard_of_eq (onKernel_eq hend)
  apply Ends.pure ⟨t, n, houtcome, hn, rfl⟩

/-- The result of `sys_read` and of `sys_write` on an open file is unambiguous exactly if the call
moves fewer than 2¹⁵ bytes. -/
theorem sysRead_sysWrite_iff (mtime : BufId → ℤ) (config : ConsoleConfig)
    (fatRead : FileOps → FileId → Word → MachineM σ Transfer) (s : Machine σ) (fd : Int)
    (f : FileId) (op : FileOps) (hfd : Refers s.kernel fd f) (hopen : OpenFile s.kernel f op)
    (data : ℕ → Byte) (size : Word) :
  Ends (sysRead mtime config fatRead fd false size) s (fun r _ =>
      Unambiguous size r ↔ ¬ ReadOverflows op size s.console)
    ∧ Ends (sysWrite config fd false data size) s (fun r _ =>
      Unambiguous size r ↔ ¬ WriteOverflows op size)
  := by
  have hread (s₁ : Machine σ) (hopen₁ : OpenFile s₁.kernel f op)
      (hconsole : s₁.console = s.console) :
      Operates size f (op.read mtime config fatRead f size) s₁ fun n =>
        n < 2 ^ 15 ↔ ¬ ReadOverflows op size s.console := by
    rw [← hconsole]
    apply FileOps.read_operates config hopen₁ size
  have hwrite (s₁ : Machine σ) (hopen₁ : OpenFile s₁.kernel f op) (_ : s₁.console = s.console) :
      Operates size f (op.write config data size) s₁ fun n =>
        n < 2 ^ 15 ↔ ¬ WriteOverflows op size :=
    FileOps.write_operates config hopen₁ data size
  constructor
  · apply (transfer_ends hfd hopen hread).mono
    rintro _ _ ⟨t, n, houtcome, hn, rfl⟩
    rw [houtcome.unambiguous_iff, hn]
  · apply (transfer_ends hfd hopen hwrite).mono
    rintro _ _ ⟨t, n, houtcome, hn, rfl⟩
    rw [houtcome.unambiguous_iff, hn]

end Calls

theorem refers_bootKernel : Refers bootKernel 1 0 :=
  ⟨shell, 1, booted_bootKernel.shell_eq, rfl, rfl⟩

theorem openFile_bootKernel : OpenFile bootKernel 0 .basicTty :=
  openFile_of_reachable (.start bootKernel_start) refers_bootKernel rfl rfl (by simp)

/-- A console on which nothing but line feeds is typed. -/
def lineFeeds : Console := { input := fun _ => 0x0A }

/-- A console on which nothing but letters is typed. -/
def letters : Console := { input := fun _ => 0x41 }

/-- When the shell has started, a read of 32768 bytes of a line of the console that does not end moves
them and returns -32768, and a write of 65535 bytes to the console, which are all sent, returns -1. -/
theorem sysRead_32768 :
  (kernel noCard).Reachable (fun _ _ => True) bootKernel
    ∧ Ends (sysRead (fun _ => 0) eater (fun _ _ _ => fault) 1 false 32768) ⟨bootKernel, letters⟩
      (fun r _ => r.1 = -32768 ∧ r.2.size = 32768 ∧ ¬ Unambiguous 32768 r)
    ∧ Ends (sysWrite eater 1 false (fun _ => 0x41) 65535) ⟨bootKernel, lineFeeds⟩
      (fun r _ => r.1 = -1 ∧ r.2.size = 65535 ∧ ¬ Unambiguous 65535 r)
  := by
  refine ⟨.start bootKernel_start, ?_, ?_⟩
  · have hline (s₁ : Machine Unit) (_ : OpenFile s₁.kernel 0 .basicTty)
        (hconsole : s₁.console = letters) :
        Operates 32768 0 (FileOps.read (fun _ => 0) eater (fun _ _ _ => fault) .basicTty 0 32768) s₁
          fun n => n = 32768 := by
      apply operates_onConsole (basicTtyRead_outcome eater 32768 s₁.console)
      rw [hconsole]
      apply lineCount_of_ne
      all_goals decide
    apply (transfer_ends refers_bootKernel openFile_bootKernel hline).mono
    rintro _ _ ⟨t, n, houtcome, rfl, rfl⟩
    apply houtcome.wraps (by decide)
  · have htty (s₁ : Machine Unit) (_ : OpenFile s₁.kernel 0 .basicTty)
        (_ : s₁.console = lineFeeds) :
        Operates 65535 0 (FileOps.write eater .basicTty (fun _ => 0x41) 65535) s₁
          fun n => n = 65535 :=
      operates_onConsole (basicTtyWrite_outcome eater _ 65535 s₁.console) rfl
    apply (transfer_ends refers_bootKernel openFile_bootKernel htty).mono
    rintro _ _ ⟨t, n, houtcome, rfl, rfl⟩
    apply houtcome.wraps (by decide)

/-- A line is read from the console, and written to it. -/
theorem sysRead_sysWrite_line :
  Ends (sysRead (fun _ => 0) eater (fun _ _ _ => fault) 1 false 80) ⟨bootKernel, lineFeeds⟩
      (fun r _ => Unambiguous 80 r)
    ∧ Ends (sysWrite eater 1 false (fun _ => 0x41) 80) ⟨bootKernel, lineFeeds⟩
      (fun r _ => Unambiguous 80 r)
  := by
  obtain ⟨hread, hwrite⟩ := sysRead_sysWrite_iff (fun _ => 0) eater (fun _ _ _ => fault)
    ⟨bootKernel, lineFeeds⟩ 1 0 .basicTty refers_bootKernel openFile_bootKernel (fun _ => 0x41) 80
  constructor
  · apply hread.mono
    intro r _ hiff
    apply hiff.mpr
    change ¬ 2 ^ 15 ≤ lineCount (fun _ => 0x0A) 0 80
    decide
  · apply hwrite.mono
    intro r _ hiff
    apply hiff.mpr
    change ¬ 2 ^ 15 ≤ 80
    decide

end Mosnix.Os
