import Mosnix.Fat.Directory
import Mosnix.Lib.Program

/-!
# Reading a file

`fatfs_file_read`, and what it means for an open file to read as a sequence of bytes: however large
the buffers, the calls return the bytes in order, and then 0.
-/

namespace Mosnix.Fat

open Program

section Driver

variable {σ : Type} (sd : SdDriver σ)

/-- A function of the FAT file system, which does not fault. -/
def run {α : Type} (m : StateM σ α) : Program σ α := onPart id (fun _ t => t) m

/-- The largest value of `ssize_t`. -/
def SSIZE_MAX : Int := 32767

/-- `size`, clamped to the number of bytes before the end of the file. -/
def clampSize (file : FatFile) (size : Word) : Word :=
  let remaining := file.info.size - file.posn
  if remaining < size.setWidth 32 then remaining.setWidth 16 else size

/-- The loop of `fatfs_file_read`, with the bytes that were copied so far; it may not end.  The
function copies all bytes that are left in the block.  It is a fault if the result becomes too large
for its type. -/
def fatfsFileReadLoop : ℕ → Word → Int → List Byte → FatFile →
    Program σ ((Int × List Byte) × FatFile)
  | 0, _, _, _, _ => fault
  | fuel + 1, size, result, data, file => do
      if size = 0 then
        return ((result, data), file)
      else
        let size := clampSize file size
        if size = 0 then
          return ((result, data), file)
        else
          let (readSize, info) ← run (fatfsInfoReadPrepare sd file.info)
          let file := { file with info := info }
          if readSize < 0 then
            return ((readSize, data), file)
          else if readSize = 0 then
            return ((result, data), file)
          else
            let block := (sd.info (← get)).block
            let copied := (List.range readSize.toNat).map fun i => block (info.offset.toNat + i)
            if result + readSize > SSIZE_MAX then
              fault
            else
              fatfsFileReadLoop fuel (size - BitVec.ofInt 16 readSize) (result + readSize)
                (data ++ copied) file

/-- `fatfs_file_read`: the result, and the bytes in the buffer. -/
def fatfsFileRead (fuel : ℕ) (size : Word) (file : FatFile) :
    Program σ ((Int × List Byte) × FatFile) :=
  fatfsFileReadLoop sd fuel size 0 [] file

/-- Calls of `fatfs_file_read` on one file. -/
def fatfsFileReads (fuel : ℕ) : List Word → FatFile → Program σ (List (Int × List Byte))
  | [], _ => return []
  | size :: sizes, file => do
      let (r, file) ← fatfsFileRead sd fuel size file
      let rs ← fatfsFileReads fuel sizes file
      return r :: rs

/-- The file reads as `contents`: whatever the sizes of the calls, they end and return the bytes of
`contents` in order, and then 0. -/
def ReadsAs (file : FatFile) (t : σ) (contents : List Byte) : Prop :=
  ∀ sizes : ℕ → Word, (∀ n, sizes n ≠ 0) → ∃ m, ∀ n ≥ m, ∃ fuel rs t',
    fatfsFileReads sd fuel ((List.range n).map sizes) file t = some (rs, t') ∧
    (∀ r ∈ rs, r.1 = r.2.length) ∧
    (rs.take m).flatMap Prod.snd = contents ∧ ∀ r ∈ rs.drop m, r = (0, [])

end Driver

section Empty

variable {σ : Type} {sd : SdDriver σ} {file : FatFile} {t : σ}

variable (h : file.info.size = file.posn)

include h

/-- Nothing is read at the end of a file. -/
theorem fatfsFileRead_of_end (fuel : ℕ) (size : Word) :
  fatfsFileRead sd (fuel + 1) size file t = some (((0, []), file), t)
  := by
  rw [fatfsFileRead, fatfsFileReadLoop]
  by_cases hsize : size = 0
  · rw [if_pos hsize]
    rfl
  · have hremaining : file.info.size - file.posn = 0 := by
      rw [h]
      apply BitVec.sub_self
    have hlt : (0 : Long) < size.setWidth 32 := by bv_omega
    have hclamp : clampSize file size = 0 := by
      rw [clampSize, hremaining, if_pos hlt]
      rfl
    rw [if_neg hsize, hclamp]
    rfl

/-- Reads at the end of the file return nothing. -/
theorem fatfsFileReads_of_end (fuel : ℕ) (sizes : List Word) :
  fatfsFileReads sd (fuel + 1) sizes file t = some (List.replicate sizes.length (0, []), t)
  := by
  induction sizes with
  | nil => rfl
  | cons size sizes ih =>
      rw [fatfsFileReads, bind_eq (fatfsFileRead_of_end h fuel size)]
      dsimp only
      rw [bind_eq ih]
      rfl

theorem fatfsFileReads_eq_of_end {fuel : ℕ} {sizes : List Word} {rs : List (Int × List Byte)} {t' : σ}
    (hrs : fatfsFileReads sd fuel sizes file t = some (rs, t')) :
  rs = List.replicate sizes.length (0, [])
  := by
  cases fuel with
  | zero =>
      cases sizes with
      | nil =>
          cases hrs
          rfl
      | cons size sizes => cases hrs
  | succ fuel =>
      rw [fatfsFileReads_of_end h] at hrs
      cases hrs
      rfl

/-- A file at its end reads as nothing. -/
theorem readsAs_of_end (contents : List Byte) :
  ReadsAs sd file t contents ↔ contents = []
  := by
  constructor
  · intro hreads
    obtain ⟨m, hm⟩ := hreads (fun _ => 1) (fun _ => by decide)
    obtain ⟨fuel, rs, t', hrs, -, hcontents, -⟩ := hm m le_rfl
    rw [← hcontents, List.flatMap_eq_nil_iff]
    intro r hr
    rw [fatfsFileReads_eq_of_end h hrs] at hr
    rw [List.eq_of_mem_replicate (List.mem_of_mem_take hr)]
  · rintro rfl sizes -
    refine ⟨0, fun n _ => ⟨1, _, t, fatfsFileReads_of_end h 0 _, ?_, rfl, ?_⟩⟩
    · intro r hr
      rw [List.eq_of_mem_replicate hr]
      rfl
    · intro r hr
      apply List.eq_of_mem_replicate hr

end Empty

end Mosnix.Fat
