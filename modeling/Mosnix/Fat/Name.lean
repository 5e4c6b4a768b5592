import Mosnix.Machine
import Mosnix.Lib.FixedBuffer

/-!
# Short file names

The directory entries of a FAT volume (`fatdefs.h`) and the two conversions of
`fatutils.c` between the 8.3 names of directory entries and ordinary names:
`fatConvertDirent` lists a directory entry under an ordinary name, and `fatFormatName`
formats an ordinary name as an 8.3 name to look it up.
-/

namespace Mosnix.Fat

open FixedBuffer

/-! ### Directory entries -/

def FAT_DIR_END : Byte := 0x00
def FAT_DIR_DELETED : Byte := 0xE5

def FAT_ATTR_READ_ONLY : Byte := 0x01
def FAT_ATTR_HIDDEN : Byte := 0x02
def FAT_ATTR_SYSTEM : Byte := 0x04
def FAT_ATTR_VOLUME : Byte := 0x08
def FAT_ATTR_DIRECTORY : Byte := 0x10
def FAT_ATTR_DEVICE : Byte := 0x40
def FAT_ATTR_RESERVED : Byte := 0x80

def FAT_ATTR_BLOCKED : Byte :=
  FAT_ATTR_HIDDEN ||| FAT_ATTR_SYSTEM ||| FAT_ATTR_VOLUME ||| FAT_ATTR_DEVICE
    ||| FAT_ATTR_RESERVED

def FAT_NAME_LEN : ℕ := 11

/-- `struct fat_dir_entry`, without the times, which no function reads. -/
structure DirEntry where
  name : List Byte
  attrs : Byte
  clusterHigh : Word
  clusterLow : Word
  size : Long
  name_length : name.length = FAT_NAME_LEN
  deriving DecidableEq

def DT_DIR : Byte := 4
def DT_REG : Byte := 8

def DIRENT_NAME_MAX : ℕ := 16

/-- `struct dirent`. -/
structure Dirent where
  dIno : Long
  dMtimeNp : ℤ
  dModeNp : Word
  dType : Byte
  dName : List Byte
  dName_length : dName.length = DIRENT_NAME_MAX
  deriving DecidableEq

/-! ### Formatting a name -/

/-- The characters that are invalid in an 8.3 name. -/
def invalidChars : List Byte :=
  ['"', '*', '+', ',', '/', ':', ';', '<', '=', '>', '?', '[', '\\', ']', '^', '|'].map chr

/-- The conversion of lower case to upper case in `fat_format_name`. -/
def toUpper (ch : Byte) : Byte :=
  if chr 'a' ≤ ch ∧ ch ≤ chr 'z' then ch ^^^ 0x20 else ch

/-- The checks that the loop of `fat_format_name` makes on a character: the position at which
the character is stored, and whether it belongs to the extension. -/
def fatFormatChar (ch : Byte) (posn : ℕ) (dot : Bool) : Option (ℕ × Bool) := do
  let (posn, dot) ←
    if ch < 0x21 ∨ 0x7E < ch then none
    else if ch = chr '.' then
      if dot then none else some (8, true)
    else if ch ∈ invalidChars then none
    else some (posn, dot)
  if dot then
    if posn ≥ 11 then none else some (posn, dot)
  else
    if posn ≥ 8 then none else some (posn, dot)

/-- The loop of `fat_format_name`, over the characters of the name that remain. -/
def fatFormatLoop : List Byte → List Byte → ℕ → Bool → Option (List Byte)
  | [], out, _, _ => some out
  | ch :: name, out, posn, dot => do
      let (posn, dot) ← fatFormatChar ch posn dot
      fatFormatLoop name (out.set posn (toUpper ch)) (posn + 1) dot

/-- `fat_format_name` on the characters of a name: the formatted name, if the name can be
formatted. -/
def fatFormatName (name : List Byte) : Option (List Byte) :=
  let out := List.replicate FAT_NAME_LEN (chr ' ')
  match name with
  | [] => none
  | ch :: rest =>
      if ch = chr '.' then
        if rest = [] then some (out.set 0 (chr '.'))
        else if rest = [chr '.'] then some ((out.set 0 (chr '.')).set 1 (chr '.'))
        else none
      else fatFormatLoop (ch :: rest) out 0 false

/-! ### Listing a directory entry -/

/-- The conversion of upper case to lower case in `fat_convert_name`. -/
def toLower (ch : Byte) : Byte :=
  if chr 'A' ≤ ch ∧ ch ≤ chr 'Z' then ch ^^^ 0x20 else ch

/-- `fat_convert_name`: the changed output name and the position after the part. -/
def fatConvertName : List Byte → ℕ → List Byte → ℕ → List Byte × ℕ
  | outname, posn, ch :: inname, len + 1 =>
      if ch = chr ' ' then (outname, posn)
      else fatConvertName (outname.set posn (toLower ch)) (posn + 1) inname len
  | outname, posn, _, _ => (outname, posn)

theorem length_fatConvertName (outname : List Byte) (posn : ℕ) (inname : List Byte) (len : ℕ) :
  (fatConvertName outname posn inname len).1.length = outname.length
  := by
  fun_induction fatConvertName outname posn inname len with
  | case1 => rfl
  | case2 _ _ _ _ _ _ ih => simpa using ih
  | case3 => rfl

/-- The name that `fat_convert_dirent` writes for the 8.3 name `name`. -/
def fatConvertDirentName (dName name : List Byte) : List Byte :=
  if name.head? ≠ some (chr '.') then
    let base := fatConvertName dName 0 name 8
    let full :=
      if name[8]? ≠ some (chr ' ') then
        fatConvertName (base.1.set base.2 (chr '.')) (base.2 + 1) (name.drop 8) 3
      else base
    full.1.set full.2 0
  else
    let dName := dName.set 0 (chr '.')
    if name[1]? = some (chr '.') then (dName.set 1 (chr '.')).set 2 0
    else dName.set 1 0

theorem length_fatConvertDirentName (dName name : List Byte) :
  (fatConvertDirentName dName name).length = dName.length
  := by
  simp only [fatConvertDirentName]
  split_ifs
  · simp [length_fatConvertName]
  · simp [length_fatConvertName]
  · simp
  · simp

/-- `fat_convert_time_to_unix`. -/
def fatConvertTimeToUnix (_ : DirEntry) : ℤ := 0

/-- `fat_convert_dirent`: the listed entry, if the directory entry can be listed. -/
def fatConvertDirent (out : Dirent) (entry : DirEntry) : Option Dirent :=
  if entry.name.head? = some FAT_DIR_END ∨ entry.name.head? = some FAT_DIR_DELETED then none
  else if entry.attrs &&& FAT_ATTR_BLOCKED ≠ 0 then none
  else
    let dModeNp : Word := if entry.attrs &&& FAT_ATTR_READ_ONLY ≠ 0 then 0o555 else 0o755
    some
      { dIno := entry.size
        dMtimeNp := fatConvertTimeToUnix entry
        dModeNp :=
          if entry.attrs &&& FAT_ATTR_DIRECTORY ≠ 0 then dModeNp ||| 0x4000
          else dModeNp ||| 0x8000
        dType := if entry.attrs &&& FAT_ATTR_DIRECTORY ≠ 0 then DT_DIR else DT_REG
        dName := fatConvertDirentName out.dName entry.name
        dName_length := by rw [length_fatConvertDirentName, out.dName_length] }

/-! ### Valid short names -/

/-- A character of a valid 8.3 name: printable, not a space, not in lower case, not a dot, and
not one of the invalid characters. -/
def ShortChar (c : Byte) : Prop :=
  0x21 ≤ c ∧ c ≤ 0x7E ∧ ¬ (chr 'a' ≤ c ∧ c ≤ chr 'z') ∧ c ≠ chr '.' ∧ c ∉ invalidChars

instance : DecidablePred ShortChar := fun c => by
  unfold ShortChar
  infer_instance

/-- The part `s` of a name, padded with spaces to `width` bytes. -/
def pad (width : ℕ) (s : List Byte) : List Byte :=
  s ++ List.replicate (width - s.length) (chr ' ')

variable {s rest : List Byte} {posn : ℕ} {c : Byte}

/-- A name is padded to its width. -/
theorem length_pad {width : ℕ} (h : s.length ≤ width) :
  (pad width s).length = width
  := by
  simp [pad, h]

/-- A valid 8.3 name other than `.` and `..`: a base and an extension. -/
structure ShortName where
  base : List Byte
  ext : List Byte
  base_ne_nil : base ≠ []
  base_length : base.length ≤ 8
  ext_length : ext.length ≤ 3
  base_valid : ∀ c ∈ base, ShortChar c
  ext_valid : ∀ c ∈ ext, ShortChar c

namespace ShortName

/-- The base and the extension, each padded with spaces. -/
def bytes (n : ShortName) : List Byte :=
  pad 8 n.base ++ pad 3 n.ext

/-- The name under which `n` is listed. -/
def listed (n : ShortName) : List Byte :=
  if n.ext = [] then n.base.map toLower
  else n.base.map toLower ++ chr '.' :: n.ext.map toLower

end ShortName

/-- A character that the loop of `fat_format_name` stores as a part of the name. -/
def FormatChar (c : Byte) : Prop :=
  ¬ (c < 0x21 ∨ 0x7E < c) ∧ c ≠ chr '.' ∧ c ∉ invalidChars

instance : DecidablePred FormatChar := fun c => by
  unfold FormatChar
  infer_instance

set_option maxRecDepth 10000 in
/-- Converting a valid character to lower case and back gives the character. -/
theorem ShortChar.toUpper_toLower : ∀ {c : Byte}, ShortChar c → toUpper (toLower c) = c := by
  decide

set_option maxRecDepth 10000 in
/-- The lower case of a valid character can be formatted. -/
theorem ShortChar.format_toLower : ∀ {c : Byte}, ShortChar c → FormatChar (toLower c) := by
  decide +kernel

theorem FormatChar.ne_zero (h : FormatChar c) : c ≠ 0 := by
  rintro rfl
  apply h.1
  left
  decide

theorem ShortChar.ne_space (h : ShortChar c) : c ≠ chr ' ' := by
  rintro rfl
  revert h
  decide

/-! ### The listed name -/

/-- `fat_convert_name` stores a part of a name, up to its length or the first space, in lower
case. -/
theorem fatConvertName_eq {outname : List Byte} {len : ℕ} (hs : ∀ c ∈ s, c ≠ chr ' ')
    (hlen : s.length ≤ len) (hout : posn + s.length ≤ outname.length)
    (hend : s.length = len ∨ rest.head? = some (chr ' ')) :
  fatConvertName outname posn (s ++ rest) len
    = (overwrite outname posn (s.map toLower), posn + s.length)
  := by
  induction s generalizing outname posn len with
  | nil =>
      cases hend with
      | inl h =>
          subst h
          simp [fatConvertName]
      | inr h =>
          obtain ⟨rest', rfl⟩ := List.head?_eq_some_iff.mp h
          cases len with
          | zero => simp [fatConvertName]
          | succ len => simp [fatConvertName]
  | cons c s ih =>
      cases len with
      | zero => simp at hlen
      | succ len =>
          simp only [List.length_cons] at hlen hout hend
          have hs' : ∀ d ∈ s, d ≠ chr ' ' := fun d hd => hs d (by simp [hd])
          rw [List.cons_append, fatConvertName, if_neg (hs c (by simp)),
            ih hs' (by omega) (by simp; omega) (hend.imp_left Nat.succ_inj.mp),
            overwrite_set (by omega),
            List.map_cons, List.length_cons, Nat.add_assoc, Nat.add_comm 1]

/-- `fat_convert_name` stores a padded part of a name without the padding. -/
theorem fatConvertName_pad {outname : List Byte} {width : ℕ} (hs : ∀ c ∈ s, c ≠ chr ' ')
    (hlen : s.length ≤ width) (hout : posn + s.length ≤ outname.length) :
  fatConvertName outname posn (pad width s ++ rest) width
    = (overwrite outname posn (s.map toLower), posn + s.length)
  := by
  rw [pad, List.append_assoc]
  apply fatConvertName_eq hs hlen hout
  obtain ⟨k, hk⟩ := Nat.exists_eq_add_of_le hlen
  cases k with
  | zero =>
      left
      omega
  | succ k =>
      right
      simp [hk, List.replicate_succ]

namespace ShortName

variable (n : ShortName)

theorem base_ne_space : ∀ c ∈ n.base, c ≠ chr ' ' :=
  fun c h => (n.base_valid c h).ne_space

theorem ext_ne_space : ∀ c ∈ n.ext, c ≠ chr ' ' :=
  fun c h => (n.ext_valid c h).ne_space

/-- The extension starts at the byte 8. -/
theorem drop_bytes : n.bytes.drop 8 = pad 3 n.ext := by
  have h : (pad 8 n.base ++ pad 3 n.ext).drop (pad 8 n.base).length = pad 3 n.ext :=
    List.drop_left
  rwa [length_pad n.base_length] at h

/-- The ninth byte is a space exactly when there is no extension. -/
theorem getElem?_bytes_eq_space_iff :
  n.bytes[8]? = some (chr ' ') ↔ n.ext = []
  := by
  rw [← List.head?_drop, drop_bytes, pad]
  cases h : n.ext with
  | nil => simp
  | cons c ext =>
      have hc : c ≠ chr ' ' := n.ext_ne_space c (by simp [h])
      simpa using hc

/-- The first byte after the base is never a dot. -/
theorem getElem?_bytes_ne_dot : n.bytes[8]? ≠ some (chr '.') := by
  rw [← List.head?_drop, drop_bytes, pad]
  cases h : n.ext with
  | nil => decide
  | cons c ext =>
      have hc : c ≠ chr '.' := (n.ext_valid c (by simp [h])).2.2.2.1
      simpa using hc

theorem head?_bytes_ne_dot : n.bytes.head? ≠ some (chr '.') := by
  cases h : n.base with
  | nil => exact absurd h n.base_ne_nil
  | cons c base =>
      have hc : c ≠ chr '.' := (n.base_valid c (by simp [h])).2.2.2.1
      simpa [bytes, pad, h] using hc

/-- A name is listed with at most twelve characters. -/
theorem length_listed_le : n.listed.length ≤ 12 := by
  have hb := n.base_length
  have he := n.ext_length
  unfold listed
  split_ifs
  · simp
    omega
  · simp
    omega

theorem ne_zero_of_mem_listed (h : c ∈ n.listed) : c ≠ 0 := by
  have hlower : ∀ s : List Byte, (∀ d ∈ s, ShortChar d) → c ∈ s.map toLower → c ≠ 0 := by
    intro s hs hc
    obtain ⟨d, hd, rfl⟩ := List.mem_map.mp hc
    apply (hs d hd).format_toLower.ne_zero
  unfold listed at h
  split_ifs at h
  · apply hlower _ n.base_valid h
  · simp only [List.mem_append, List.mem_cons] at h
    obtain h | rfl | h := h
    · apply hlower _ n.base_valid h
    · decide
    · apply hlower _ n.ext_valid h

end ShortName

/-- `fat_convert_dirent` writes the listed name of a valid short name and a terminating NUL. -/
theorem fatConvertDirentName_eq (n : ShortName) {dName : List Byte}
    (hd : dName.length = DIRENT_NAME_MAX) :
  fatConvertDirentName dName n.bytes = overwrite dName 0 (n.listed ++ [0])
  := by
  have hb := n.base_length
  have he := n.ext_length
  replace hd : dName.length = 16 := hd
  have hbase : fatConvertName dName 0 n.bytes 8
      = (overwrite dName 0 (n.base.map toLower), n.base.length) := by
    rw [ShortName.bytes, fatConvertName_pad n.base_ne_space hb (by omega), Nat.zero_add]
  have hlen : (overwrite dName 0 (n.base.map toLower)).length = 16 := by
    rw [length_overwrite (by simp; omega), hd]
  have hend (s : List Byte) (hs : s.length < 16) :
      (overwrite dName 0 s).set s.length 0 = overwrite dName 0 (s ++ [0]) := by
    have h : (overwrite dName 0 s).set (0 + s.length) 0 = overwrite dName 0 (s ++ [0]) :=
      set_overwrite (by omega)
    rwa [Nat.zero_add] at h
  simp only [fatConvertDirentName, if_pos n.head?_bytes_ne_dot, hbase]
  cases h : n.ext with
  | nil =>
      have hspace : ¬ n.bytes[8]? ≠ some (chr ' ') := by
        simp [n.getElem?_bytes_eq_space_iff, h]
      have hlisted : n.listed = n.base.map toLower := by simp [ShortName.listed, h]
      rw [if_neg hspace, hlisted, ← hend _ (by simp; omega), List.length_map]
  | cons c ext =>
      have hspace : n.bytes[8]? ≠ some (chr ' ') := by
        simp [n.getElem?_bytes_eq_space_iff, h]
      have hlisted : n.listed = n.base.map toLower ++ chr '.' :: n.ext.map toLower := by
        simp [ShortName.listed, h]
      have hext : fatConvertName
            ((overwrite dName 0 (n.base.map toLower)).set n.base.length (chr '.'))
            (n.base.length + 1) (n.bytes.drop 8) 3
          = (overwrite dName 0 n.listed, n.listed.length) := by
        have happend := overwrite_append (s := n.base.map toLower)
          (t := chr '.' :: n.ext.map toLower) (Nat.zero_le dName.length)
        rw [Nat.zero_add, List.length_map] at happend
        rw [n.drop_bytes, ← List.append_nil (pad 3 n.ext),
          fatConvertName_pad n.ext_ne_space he (by simp; omega), overwrite_set (by omega), happend,
          hlisted]
        simp [Nat.add_assoc, Nat.add_comm 1]
      have hle := n.length_listed_le
      rw [if_pos hspace, hext, ← hend _ (by omega)]

/-- The name of a listed entry is the listed name of its short name. -/
theorem cString_dName {out out' : Dirent} {e : DirEntry} (n : ShortName) (hn : e.name = n.bytes)
    (h : fatConvertDirent out e = some out') :
  cString out'.dName = n.listed
  := by
  have hname : out'.dName = fatConvertDirentName out.dName e.name := by
    simp only [fatConvertDirent] at h
    split at h
    · cases h
    · split at h
      · cases h
      · cases h
        rfl
  have hnul : 0 ∉ n.listed := fun h => n.ne_zero_of_mem_listed h rfl
  rw [hname, hn, fatConvertDirentName_eq n out.dName_length, overwrite, List.take_zero,
    List.nil_append, List.append_assoc, List.singleton_append, cString_append hnul]

/-! ### Formatting the listed name -/

/-- A character that is kept as it is. -/
theorem fatFormatChar_of_formatChar {ch : Byte} {dot : Bool} (hch : FormatChar ch)
    (hroom : posn < if dot then 11 else 8) :
  fatFormatChar ch posn dot = some (posn, dot)
  := by
  obtain ⟨hprint, hdot, hvalid⟩ := hch
  cases dot with
  | false => simp_all [fatFormatChar]
  | true => simp_all [fatFormatChar]

/-- After the dot, characters are stored one after the other. -/
theorem fatFormatChar_of_dot {ch : Byte} {p : ℕ × Bool} (h : fatFormatChar ch posn true = some p) :
  p = (posn, true)
  := by
  simp only [fatFormatChar, if_true] at h
  split_ifs at h
  · simp at h
  · simp at h
  · simp at h
  · have hroom : posn < 11 ∧ (posn, true) = p := by simpa using h
    apply hroom.2.symm

/-- The loop of `fat_format_name` stores characters in upper case while there is room. -/
theorem fatFormatLoop_append {out : List Byte} {dot : Bool} (hs : ∀ c ∈ s, FormatChar c)
    (hroom : posn + s.length ≤ if dot then 11 else 8) (hout : out.length = FAT_NAME_LEN) :
  fatFormatLoop (s ++ rest) out posn dot
    = fatFormatLoop rest (overwrite out posn (s.map toUpper)) (posn + s.length) dot
  := by
  induction s generalizing out posn with
  | nil => simp
  | cons c s ih =>
      rw [List.length_cons] at hroom
      have hs' : ∀ d ∈ s, FormatChar d := fun d hd => hs d (by simp [hd])
      have hle : (if dot then 11 else 8) ≤ out.length := by
        rw [hout]
        cases dot <;> decide
      have hlen : (out.set posn (toUpper c)).length = FAT_NAME_LEN := by simpa using hout
      have hchar : fatFormatChar c posn dot = some (posn, dot) :=
        fatFormatChar_of_formatChar (hs c (by simp)) (by omega)
      simp only [List.cons_append, fatFormatLoop, hchar, Option.bind_eq_bind, Option.bind_some]
      rw [ih hs' (by omega) hlen, overwrite_set (by omega), List.map_cons, List.length_cons,
        Nat.add_assoc, Nat.add_comm 1]

/-- After the dot, the byte that holds the dot is never changed. -/
theorem getElem?_fatFormatLoop {name out r : List Byte} (hposn : 8 < posn)
    (h : fatFormatLoop name out posn true = some r) :
  r[8]? = out[8]?
  := by
  induction name generalizing out posn with
  | nil =>
      cases h
      rfl
  | cons ch name ih =>
      obtain ⟨p, hp, hloop⟩ := Option.bind_eq_some_iff.mp h
      cases fatFormatChar_of_dot hp
      rw [ih (by omega) hloop, List.getElem?_set_ne (by omega)]

/-- The name part that the lower case of `s` formats to. -/
theorem map_toUpper_map_toLower (hs : ∀ c ∈ s, ShortChar c) :
  (s.map toLower).map toUpper = s
  := by
  rw [List.map_map]
  apply List.map_congr_left (g := id) (fun c hc => (hs c hc).toUpper_toLower) |>.trans
  apply List.map_id

theorem formatChar_of_mem_map_toLower (hs : ∀ c ∈ s, ShortChar c) :
  ∀ c ∈ s.map toLower, FormatChar c
  := by
  intro c hc
  obtain ⟨d, hd, rfl⟩ := List.mem_map.mp hc
  apply (hs d hd).format_toLower

/-- A listed name does not start with a dot, and the loop formats its base. -/
theorem fatFormatName_base (n : ShortName) (rest : List Byte) :
  fatFormatName (n.base.map toLower ++ rest)
    = fatFormatLoop rest (overwrite (List.replicate FAT_NAME_LEN (chr ' ')) 0 n.base)
        n.base.length false
  := by
  have hformat := formatChar_of_mem_map_toLower n.base_valid
  have hloop : fatFormatLoop (n.base.map toLower ++ rest)
        (List.replicate FAT_NAME_LEN (chr ' ')) 0 false
      = fatFormatLoop rest (overwrite (List.replicate FAT_NAME_LEN (chr ' ')) 0
          ((n.base.map toLower).map toUpper)) (0 + (n.base.map toLower).length) false :=
    fatFormatLoop_append hformat (by simpa using n.base_length) (by simp)
  rw [map_toUpper_map_toLower n.base_valid, List.length_map, Nat.zero_add] at hloop
  rw [← hloop]
  cases h : n.base with
  | nil => exact absurd h n.base_ne_nil
  | cons c base =>
      have hdot : toLower c ≠ chr '.' := (hformat (toLower c) (by simp [h])).2.1
      rw [List.map_cons, List.cons_append, fatFormatName, if_neg hdot]

/-- Without an extension, the listed name formats to the bytes of the name. -/
theorem fatFormatName_of_ext_eq_nil (n : ShortName) (h : n.ext = []) :
  fatFormatName n.listed = some n.bytes
  := by
  have hb := n.base_length
  have hform := fatFormatName_base n []
  rw [List.append_nil] at hform
  have hspaces : 11 - n.base.length = 8 - n.base.length + 3 := by omega
  have hpad : overwrite (List.replicate FAT_NAME_LEN (chr ' ')) 0 n.base = n.bytes := by
    rw [overwrite, List.take_zero, List.nil_append, List.drop_replicate, Nat.zero_add,
      FAT_NAME_LEN, hspaces, List.replicate_add, ShortName.bytes, h, pad, pad,
      List.append_assoc, List.length_nil, List.nil_append]
  rw [ShortName.listed, if_pos h, hform, fatFormatLoop, hpad]

/-- With an extension, the listed name does not format to the bytes of the name: the dot is
stored as the ninth byte. -/
theorem fatFormatName_ne_of_ext_ne_nil (n : ShortName) (h : n.ext ≠ []) :
  fatFormatName n.listed ≠ some n.bytes
  := by
  intro hform
  rw [ShortName.listed, if_neg h, fatFormatName_base, fatFormatLoop] at hform
  obtain ⟨p, hp, hloop⟩ := Option.bind_eq_some_iff.mp hform
  have hp' : p = (8, true) := by
    simpa [fatFormatChar] using hp.symm
  subst hp'
  apply n.getElem?_bytes_ne_dot
  have hlen : (overwrite (List.replicate FAT_NAME_LEN (chr ' ')) 0 n.base).length = 11 := by
    have hb := n.base_length
    rw [length_overwrite (by simp [FAT_NAME_LEN]; omega), List.length_replicate, FAT_NAME_LEN]
  rw [getElem?_fatFormatLoop (by omega) hloop, List.getElem?_set_self (by omega)]
  rfl

/-- The short name with base `FOO` and no extension. -/
def fooName : ShortName where
  base := ['F', 'O', 'O'].map chr
  ext := []
  base_ne_nil := by decide
  base_length := by decide
  ext_length := by decide
  base_valid := by decide
  ext_valid := by decide

/-- The short name with base `FOO` and extension `TXT`. -/
def fooTxtName : ShortName where
  base := ['F', 'O', 'O'].map chr
  ext := ['T', 'X', 'T'].map chr
  base_ne_nil := by decide
  base_length := by decide
  ext_length := by decide
  base_valid := by decide
  ext_valid := by decide

/-- The directory entry of an empty regular file with a given name. -/
def fileEntry (n : ShortName) (h : n.bytes.length = FAT_NAME_LEN) : DirEntry where
  name := n.bytes
  attrs := 0
  clusterHigh := 0
  clusterLow := 0
  size := 0
  name_length := h

/-- A directory entry to be filled in. -/
def emptyDirent : Dirent where
  dIno := 0
  dMtimeNp := 0
  dModeNp := 0
  dType := 0
  dName := List.replicate DIRENT_NAME_MAX 0
  dName_length := by decide

/-- The 8.3 name of a listed directory entry is recovered from its listed name exactly when it
has no extension. -/
theorem fatFormatName_dName_iff {out out' : Dirent} {e : DirEntry} {n : ShortName}
    (hn : e.name = n.bytes) (h : fatConvertDirent out e = some out') :
  fatFormatName (cString out'.dName) = some e.name ↔ e.name[8]? = some (chr ' ')
  := by
  rw [cString_dName n hn h, hn, n.getElem?_bytes_eq_space_iff]
  constructor
  · intro hform
    apply of_not_not
    intro hext
    apply fatFormatName_ne_of_ext_ne_nil n hext hform
  · apply fatFormatName_of_ext_eq_nil

/-- The name of the entry `FOO` is recovered. -/
theorem fatFormatName_dName_foo :
  ∃ out', fatConvertDirent emptyDirent (fileEntry fooName (by decide)) = some out'
    ∧ fatFormatName (cString out'.dName) = some fooName.bytes
  := by
  obtain ⟨out', h⟩ := Option.isSome_iff_exists.mp
    (show (fatConvertDirent emptyDirent (fileEntry fooName (by decide))).isSome by decide)
  use out', h
  apply (fatFormatName_dName_iff (n := fooName) rfl h).mpr
  decide

/-- The name of the entry `FOO.TXT` is not recovered: its listed name cannot be formatted. -/
theorem fatFormatName_dName_fooTxt :
  ∃ out', fatConvertDirent emptyDirent (fileEntry fooTxtName (by decide)) = some out'
    ∧ cString out'.dName = ['f', 'o', 'o', '.', 't', 'x', 't'].map chr
    ∧ fatFormatName (cString out'.dName) = none
  := by
  obtain ⟨out', h⟩ := Option.isSome_iff_exists.mp
    (show (fatConvertDirent emptyDirent (fileEntry fooTxtName (by decide))).isSome by decide)
  use out', h
  rw [cString_dName fooTxtName rfl h]
  decide

end Mosnix.Fat
