import Mosnix.Fat.Card

/-!
# Searching and listing a directory

The search of `fatfs_lookup` for a name, and `fatfs_dir_read`, on a card without read errors.  Both
see the entries of the first block of a directory but the last one, and fail when they get there.
-/

namespace Mosnix.Fat

/-! ### Entries -/

/-- The end marker of a directory. -/
def DirEntry.IsEnd (e : DirEntry) : Prop := e.name.head? = some FAT_DIR_END

/-- An entry that is neither deleted nor blocked by its attributes. -/
def DirEntry.IsVisible (e : DirEntry) : Prop :=
  e.name.head? ≠ some FAT_DIR_DELETED ∧ e.attrs &&& FAT_ATTR_BLOCKED = 0

/-- An entry that is found under a name. -/
def DirEntry.Matches (name83 : List Byte) (e : DirEntry) : Prop :=
  e.IsVisible ∧ e.name = name83

instance : DecidablePred DirEntry.IsEnd := fun _ => inferInstanceAs (Decidable (_ = _))

instance : DecidablePred DirEntry.IsVisible := fun _ => inferInstanceAs (Decidable (_ ∧ _))

instance (name83 : List Byte) : DecidablePred (DirEntry.Matches name83) := fun _ =>
  inferInstanceAs (Decidable (_ ∧ _))

/-- The entries of a directory before its end marker. -/
def live (es : List DirEntry) : List DirEntry :=
  es.takeWhile fun e => ¬ e.IsEnd

/-- The entry that is found under a name. -/
def findEntry (name83 : List Byte) (es : List DirEntry) : Option DirEntry :=
  (live es).find? fun e => e.Matches name83

variable {file : FatFile} {e : DirEntry} {fuel n : ℕ}

theorem findEntry_cons_of_isEnd {name83 : List Byte} (h : e.IsEnd) (es : List DirEntry) :
  findEntry name83 (e :: es) = none
  := by
  rw [findEntry, live, List.takeWhile_cons_of_neg (by simpa using h), List.find?_nil]

theorem findEntry_cons_of_matches {name83 : List Byte} (h : ¬ e.IsEnd) (hmatch : e.Matches name83)
    (es : List DirEntry) :
  findEntry name83 (e :: es) = some e
  := by
  rw [findEntry, live, List.takeWhile_cons_of_pos (by simpa using h),
    List.find?_cons_of_pos (by simpa using hmatch)]

theorem findEntry_cons_of_not {name83 : List Byte} (h : ¬ e.IsEnd) (hmatch : ¬ e.Matches name83)
    (es : List DirEntry) :
  findEntry name83 (e :: es) = findEntry name83 es
  := by
  rw [findEntry, live, List.takeWhile_cons_of_pos (by simpa using h),
    List.find?_cons_of_neg (by simpa using hmatch)]
  rfl

/-! ### The search for a name -/

/-- The search in the entries that can be read. -/
def scan (name83 : List Byte) : List DirEntry → Except Int DirEntry
  | [] => .error (-EINVAL)
  | e :: es =>
      if e.IsEnd then .error (-ENOENT)
      else if e.Matches name83 then .ok e
      else scan name83 es

/-- The result that the search should have. -/
def searchResult (name83 : List Byte) (es : List DirEntry) : Except Int DirEntry :=
  match findEntry name83 es with
  | some e => .ok e
  | none => .error (-ENOENT)

/-- The search is right if it meets the entry or the end marker. -/
theorem scan_of_exists {name83 : List Byte} {es : List DirEntry}
    (h : ∃ e ∈ es, e.IsEnd ∨ e.Matches name83) (rest : List DirEntry) :
  scan name83 es = searchResult name83 (es ++ rest)
  := by
  induction es with
  | nil => simp at h
  | cons e es ih =>
      rw [scan, List.cons_append, searchResult]
      split_ifs with hend hmatch
      · rw [findEntry_cons_of_isEnd hend]
      · rw [findEntry_cons_of_matches hend hmatch]
      · rw [findEntry_cons_of_not hend hmatch]
        apply ih
        rw [List.exists_mem_cons_iff] at h
        apply h.resolve_left
        exact not_or.mpr ⟨hend, hmatch⟩

/-- The search fails otherwise. -/
theorem scan_of_not_exists {name83 : List Byte} {es : List DirEntry}
    (h : ¬ ∃ e ∈ es, e.IsEnd ∨ e.Matches name83) :
  scan name83 es = .error (-EINVAL)
  := by
  induction es with
  | nil => rfl
  | cons e es ih =>
      rw [List.exists_mem_cons_iff, not_or, not_or] at h
      rw [scan, if_neg h.1.1, if_neg h.1.2, ih h.2]

section Serves

variable {σ : Type} {sd : SdDriver σ} {v : Volume} {ready : σ → Prop} {reader : FatfsInodeInfo}
  {t : σ} {name83 : List Byte} {es : List DirEntry}

/-- The loop of `fatfs_lookup`. -/
theorem Serves.lookupLoop_eq (hsd : Serves sd v ready) (ht : ready t) (h : Remaining v reader es)
    {maxEntries : ℕ} (hmax : es.length < maxEntries) :
  ∃ t', fatfsLookupLoop sd name83 maxEntries reader t = (scan name83 es, t') ∧ ready t'
  := by
  induction es generalizing reader t maxEntries with
  | nil =>
      obtain ⟨n, rfl⟩ := Nat.exists_eq_add_one_of_ne_zero (Nat.ne_zero_of_lt hmax)
      obtain ⟨t', hread, ht'⟩ := hsd.readDirent_nil ht h
      refine ⟨t', ?_, ht'⟩
      rw [fatfsLookupLoop]
      simp only [bind, StateT.bind]
      rw [hread]
      rfl
  | cons e es ih =>
      obtain ⟨n, rfl⟩ := Nat.exists_eq_add_one_of_ne_zero (Nat.ne_zero_of_lt hmax)
      obtain ⟨reader', t', hread, h', ht'⟩ := hsd.readDirent_cons ht h
      obtain ⟨t'', hloop, ht''⟩ := ih ht' h' (Nat.lt_of_succ_lt_succ hmax)
      rw [fatfsLookupLoop, scan]
      simp only [bind, StateT.bind]
      rw [hread]
      dsimp only
      by_cases hend : e.name.head? = some FAT_DIR_END
      · rw [if_pos hend, if_pos (show e.IsEnd from hend)]
        exact ⟨t', rfl, ht'⟩
      rw [if_neg hend, if_neg (show ¬ e.IsEnd from hend)]
      by_cases hdeleted : e.name.head? = some FAT_DIR_DELETED
      · rw [if_pos hdeleted, if_neg fun hmatch => hmatch.1.1 hdeleted]
        exact ⟨t'', hloop, ht''⟩
      rw [if_neg hdeleted]
      by_cases hblocked : e.attrs &&& FAT_ATTR_BLOCKED ≠ 0
      · rw [if_pos hblocked, if_neg fun hmatch => hblocked hmatch.1.2]
        exact ⟨t'', hloop, ht''⟩
      rw [if_neg hblocked]
      by_cases hname : e.name = name83
      · rw [if_pos hname, if_pos ⟨⟨hdeleted, not_not.mp hblocked⟩, hname⟩]
        exact ⟨t', rfl, ht'⟩
      · rw [if_neg hname, if_neg fun hmatch => hname hmatch.2]
        exact ⟨t'', hloop, ht''⟩

/-- The first cluster of a directory of the volume. -/
def Volume.dirCluster (v : Volume) (cluster : Long) : Long :=
  if cluster = FAT_END_CLUSTER then v.root else cluster

/-- The cluster of a directory, with 0 for the root. -/
theorem Serves.dirCluster_eq (hsd : Serves sd v ready) (ht : ready t) (cluster : Long) :
  ∃ t', fatfsDirCluster sd cluster t = (some (v.dirCluster cluster), t') ∧ ready t'
  := by
  rw [fatfsDirCluster, Volume.dirCluster]
  split_ifs with hroot
  · obtain ⟨hdetect, ht'⟩ := hsd.sdDetect ht
    refine ⟨(sd.sdDetect t).2, ?_, ht'⟩
    change (if (sd.sdDetect t).1 = SD_DETECT_NONE then _ else _ : StateM σ (Option Long))
      (sd.sdDetect t).2 = _
    rw [if_neg hdetect, ← (hsd.describes ht').root]
    rfl
  · exact ⟨t, rfl, ht⟩

/-- The part of `fatfs_lookup` before an inode is created. -/
theorem Serves.findEntry_eq (hsd : Serves sd v ready) (ht : ready t) {name : List Byte}
    (hname : fatFormatName name = some name83) {cluster : Long}
    (hc : v.Valid (v.dirCluster cluster)) :
  ∃ t', fatfsFindEntry sd cluster name t =
      (scan name83 (v.firstEntries (v.dirCluster cluster)), t') ∧ ready t'
  := by
  obtain ⟨t₁, hcluster, ht₁⟩ := hsd.dirCluster_eq ht cluster
  obtain ⟨hopened, hremaining⟩ := hsd.opened ht₁ hc default 0
  have hmax : (v.firstEntries (v.dirCluster cluster)).length < 65535 := by
    rw [v.length_firstEntries]
    decide
  obtain ⟨t₂, hloop, ht₂⟩ : ∃ t', fatfsLookupLoop sd name83 65535 _ t₁ = (_, t') ∧ ready t' :=
    hsd.lookupLoop_eq ht₁ hremaining hmax
  refine ⟨t₂, ?_, ht₂⟩
  rw [fatfsFindEntry, hname]
  simp only [bind, StateT.bind]
  rw [hcluster]
  change (if (fatfsInfoNew (sd.info t₁) default (v.dirCluster cluster) 0).1 then _ else _ :
    StateM σ (Except Int DirEntry)) t₁ = _
  rw [if_pos hopened, hloop]

end Serves

/-! ### Listing a directory -/

/-- The size of `struct dirent`. -/
def SIZEOF_DIRENT : ℕ := 27

/-- The members of `struct file` that the operations of the FAT file system use, with the information
that `fatfs_info` points to. -/
structure FatFile where
  info : FatfsInodeInfo
  posn : Long := 0

/-- What a call of `fatfs_dir_read` returns: its result, the entries that it stored in the buffer,
and whether it met the end marker. -/
structure Listed where
  result : Int := 0
  entries : List DirEntry := []
  ended : Bool := false

/-- The state of `fatfs_dir_read`, with the structures in the buffer. -/
structure DirRead extends Listed where
  dirents : List Dirent := []

/-- A buffer for directory entries: its size, and what is in it before the call. -/
structure DirBuffer where
  size : ℕ
  out : ℕ → Dirent

section Driver

variable {σ : Type} (sd : SdDriver σ)

/-- The loop of `fatfs_dir_read`.  An error is returned in place of the entries that were stored. -/
def fatfsDirReadLoop (out : ℕ → Dirent) :
    ℕ → ℕ → DirRead → FatFile → StateM σ (DirRead × FatFile)
  | 0, _, r, file => return (r, file)
  | fuel + 1, size, r, file => do
      if size < SIZEOF_DIRENT then
        return (r, file)
      else
        let (entry, info) ← fatfsInfoReadDirent sd file.info
        match entry with
        | .error error =>
            return (if error < 0 then { result := error } else r, { file with info := info })
        | .ok entry =>
            if entry.name.head? = some FAT_DIR_END then
              return ({ r with ended := true }, { file with info := info })
            else
              let posn := file.posn + BitVec.ofNat 32 SIZEOF_DIRENT
              match fatConvertDirent (out r.dirents.length) entry with
              | some dirent =>
                  fatfsDirReadLoop out fuel (size - SIZEOF_DIRENT)
                    { r with
                      result := r.result + SIZEOF_DIRENT
                      entries := r.entries ++ [entry]
                      dirents := r.dirents ++ [dirent] }
                    { info := info, posn := posn }
              | none => fatfsDirReadLoop out fuel size r { info := info, posn := posn }

/-- `fatfs_dir_read`.  The loop ends before it has read all entries of a block
(`fatfsDirRead_eq`). -/
def fatfsDirRead (buf : DirBuffer) (file : FatFile) : StateM σ (DirRead × FatFile) :=
  fatfsDirReadLoop sd buf.out 16 buf.size {} file

/-- Calls of `fatfs_dir_read` on one file. -/
def fatfsDirReads : List DirBuffer → FatFile → StateM σ (List DirRead)
  | [], _ => return []
  | buf :: bufs, file => do
      let (r, file) ← fatfsDirRead sd buf file
      let rs ← fatfsDirReads bufs file
      return r :: rs

variable {sd}

/-- Rounds beyond the rest of the block change nothing. -/
theorem fatfsDirReadLoop_succ {out : ℕ → Dirent} {size : ℕ} {r : DirRead} {t : σ}
    (h : SD_BLKSIZE ≤ file.info.offset.toNat + SIZEOF_FAT_DIR_ENTRY * fuel) :
  fatfsDirReadLoop sd out (fuel + 1) size r file t = fatfsDirReadLoop sd out fuel size r file t
  := by
  induction fuel generalizing size r file t with
  | zero =>
      rw [Nat.mul_zero, Nat.add_zero] at h
      cases offset_lt file.info h
  | succ fuel ih =>
      rw [fatfsDirReadLoop, fatfsDirReadLoop]
      split_ifs with hsize
      · rfl
      · simp only [bind, StateT.bind]
        rcases hread : fatfsInfoReadDirent sd file.info t with ⟨⟨entry, info⟩, t'⟩
        cases entry with
        | error error => rfl
        | ok entry =>
            have hinfo : SD_BLKSIZE ≤ info.offset.toNat + SIZEOF_FAT_DIR_ENTRY * fuel := by
              rw [fatfsInfoReadDirent_offset hread]
              rw [Nat.mul_succ] at h
              omega
            dsimp only
            split_ifs with hend
            · rfl
            · cases fatConvertDirent (out r.dirents.length) entry with
              | some dirent => apply ih hinfo
              | none => apply ih hinfo

/-- The bound on the rounds of the loop of `fatfs_dir_read` is not reached. -/
theorem fatfsDirRead_eq (h : 16 ≤ fuel) (buf : DirBuffer) (file : FatFile) (t : σ) :
  fatfsDirReadLoop sd buf.out fuel buf.size {} file t = fatfsDirRead sd buf file t
  := by
  induction fuel, h using Nat.le_induction with
  | base => rfl
  | succ fuel hfuel ih =>
      rw [fatfsDirReadLoop_succ, ih]
      rw [SD_BLKSIZE, SIZEOF_FAT_DIR_ENTRY]
      omega

end Driver

/-- The listing of the entries that can be read, in a buffer for `n` entries. -/
def listEntries : ℕ → List DirEntry → Listed → Listed × List DirEntry
  | 0, es, r => (r, es)
  | _ + 1, [], _ => ({ result := -EINVAL }, [])
  | n + 1, e :: es, r =>
      if e.IsEnd then ({ r with ended := true }, es)
      else if e.IsVisible then
        listEntries n es { r with result := r.result + SIZEOF_DIRENT, entries := r.entries ++ [e] }
      else listEntries (n + 1) es r

/-- Listings one after the other. -/
def listings : List ℕ → List DirEntry → List Listed
  | [], _ => []
  | n :: ns, es => (listEntries n es {}).1 :: listings ns (listEntries n es {}).2

/-- The visible entries are converted. -/
theorem exists_fatConvertDirent (h : ¬ e.IsEnd) (hvisible : e.IsVisible) (out : Dirent) :
  ∃ dirent, fatConvertDirent out e = some dirent
  := by
  have hname : ¬ (e.name.head? = some FAT_DIR_END ∨ e.name.head? = some FAT_DIR_DELETED) :=
    not_or.mpr ⟨h, hvisible.1⟩
  rw [fatConvertDirent, if_neg hname, if_neg (not_not.mpr hvisible.2)]
  exact ⟨_, rfl⟩

theorem fatConvertDirent_of_not (h : ¬ e.IsVisible) (out : Dirent) :
  fatConvertDirent out e = none
  := by
  rw [fatConvertDirent]
  split_ifs with hname hblocked
  · rfl
  · rfl
  · exfalso
    apply h
    exact ⟨fun hdeleted => hname (Or.inr hdeleted), not_not.mp hblocked⟩

section Serves

variable {σ : Type} {sd : SdDriver σ} {v : Volume} {ready : σ → Prop} {t : σ} {es : List DirEntry}

/-- The loop of `fatfs_dir_read` lists the entries that can be read. -/
theorem Serves.dirReadLoop_eq (hsd : Serves sd v ready) (ht : ready t) {out : ℕ → Dirent} {size : ℕ}
    {r : DirRead} (h : Remaining v file.info es) (hfuel : es.length < fuel) :
  ∃ r' file' t', fatfsDirReadLoop sd out fuel size r file t = ((r', file'), t') ∧ ready t' ∧
    (listEntries (size / SIZEOF_DIRENT) es r.toListed).1 = r'.toListed ∧
    Remaining v file'.info (listEntries (size / SIZEOF_DIRENT) es r.toListed).2
  := by
  induction fuel generalizing size r file t es with
  | zero => exact absurd hfuel (Nat.not_lt_zero _)
  | succ n ih =>
      rw [fatfsDirReadLoop]
      by_cases hsize : size < SIZEOF_DIRENT
      · rw [if_pos hsize, Nat.div_eq_of_lt hsize, listEntries]
        exact ⟨r, file, t, rfl, ht, rfl, h⟩
      obtain ⟨m, hm⟩ : ∃ m, size / SIZEOF_DIRENT = m + 1 :=
        Nat.exists_eq_add_one.mpr (Nat.div_pos (not_lt.mp hsize) (by decide))
      rw [if_neg hsize, hm]
      simp only [bind, StateT.bind]
      cases es with
      | nil =>
          obtain ⟨t', hread, ht'⟩ := hsd.readDirent_nil ht h
          rw [hread]
          exact ⟨_, _, t', rfl, ht', rfl, h⟩
      | cons e es =>
          obtain ⟨info, t', hread, h', ht'⟩ := hsd.readDirent_cons ht h
          rw [hread, listEntries]
          dsimp only
          by_cases hend : e.name.head? = some FAT_DIR_END
          · rw [if_pos hend, if_pos (show e.IsEnd from hend)]
            exact ⟨_, _, t', rfl, ht', rfl, h'⟩
          rw [if_neg hend, if_neg (show ¬ e.IsEnd from hend)]
          by_cases hvisible : e.IsVisible
          · obtain ⟨dirent, hdirent⟩ := exists_fatConvertDirent hend hvisible (out r.dirents.length)
            have hm' : (size - SIZEOF_DIRENT) / SIZEOF_DIRENT = m := by
              rw [SIZEOF_DIRENT] at hm ⊢
              omega
            rw [hdirent, if_pos hvisible, ← hm']
            apply ih ht' h' (Nat.lt_of_succ_lt_succ hfuel)
          · rw [fatConvertDirent_of_not hvisible, if_neg hvisible, ← hm]
            apply ih ht' h' (Nat.lt_of_succ_lt_succ hfuel)

/-- `fatfs_dir_read` lists the entries that can be read. -/
theorem Serves.dirRead_eq (hsd : Serves sd v ready) (ht : ready t) (buf : DirBuffer)
    (h : Remaining v file.info es) :
  ∃ r file' t', fatfsDirRead sd buf file t = ((r, file'), t') ∧ ready t' ∧
    (listEntries (buf.size / SIZEOF_DIRENT) es {}).1 = r.toListed ∧
    Remaining v file'.info (listEntries (buf.size / SIZEOF_DIRENT) es {}).2
  := by
  apply hsd.dirReadLoop_eq ht h
  have := h.length_le
  omega

/-- The calls of `fatfs_dir_read` list the entries that can be read. -/
theorem Serves.dirReads_eq (hsd : Serves sd v ready) (ht : ready t) (h : Remaining v file.info es)
    (bufs : List DirBuffer) :
  (fatfsDirReads sd bufs file t).1.map DirRead.toListed =
    listings (bufs.map fun buf => buf.size / SIZEOF_DIRENT) es
  := by
  induction bufs generalizing file t es with
  | nil => rfl
  | cons buf bufs ih =>
      obtain ⟨r, file', t', hread, ht', hr, h'⟩ := hsd.dirRead_eq ht buf h
      rw [fatfsDirReads, List.map_cons, listings, hr, ← ih ht' h']
      simp only [bind, StateT.bind]
      rw [hread]
      rfl

end Serves

/-! ### What the listings have -/

variable {es : List DirEntry}

/-- In a large buffer, a directory is listed up to its end marker, or not at all. -/
theorem listEntries_of_lt (hn : es.length < n) (r : Listed) :
  (∃ e ∈ es, e.IsEnd) ∧ (listEntries n es r).1.ended = true ∧
      (listEntries n es r).2.length < es.length ∨
    (∀ e ∈ es, ¬ e.IsEnd) ∧ listEntries n es r = ({ result := -EINVAL }, [])
  := by
  induction es generalizing n r with
  | nil =>
      obtain ⟨m, rfl⟩ := Nat.exists_eq_add_one_of_ne_zero (Nat.ne_zero_of_lt hn)
      right
      exact ⟨by simp, rfl⟩
  | cons e es ih =>
      obtain ⟨m, rfl⟩ := Nat.exists_eq_add_one_of_ne_zero (Nat.ne_zero_of_lt hn)
      rw [List.length_cons, Nat.add_lt_add_iff_right] at hn
      rw [listEntries, List.exists_mem_cons_iff, List.forall_mem_cons, List.length_cons]
      split_ifs with hend hvisible
      · left
        exact ⟨Or.inl hend, rfl, Nat.lt_succ_self _⟩
      · obtain ⟨hexists, hended, hlength⟩ | ⟨hall, heq⟩ := ih hn
          { r with result := r.result + SIZEOF_DIRENT, entries := r.entries ++ [e] }
        · left
          exact ⟨Or.inr hexists, hended, Nat.lt_succ_of_lt hlength⟩
        · right
          exact ⟨⟨hend, hall⟩, heq⟩
      · obtain ⟨hexists, hended, hlength⟩ | ⟨hall, heq⟩ := ih (Nat.lt_succ_of_lt hn) r
        · left
          exact ⟨Or.inr hexists, hended, Nat.lt_succ_of_lt hlength⟩
        · right
          exact ⟨⟨hend, hall⟩, heq⟩

/-- In a buffer for one entry, a directory with a visible entry before its end marker is listed up to
that entry. -/
theorem listEntries_one (hend : ∀ e ∈ es, ¬ e.IsEnd) (hvisible : ∃ e ∈ es, e.IsVisible) :
  (listEntries 1 es {}).1.entries ≠ []
  := by
  induction es with
  | nil => simp at hvisible
  | cons e es ih =>
      rw [List.forall_mem_cons] at hend
      rw [List.exists_mem_cons_iff] at hvisible
      rw [listEntries, if_neg hend.1]
      split_ifs with h
      · cases es <;> simp [listEntries]
      · apply ih hend.2 (hvisible.resolve_left h)

/-- A directory without visible entries and without an end marker has no listing. -/
theorem listEntries_of_hidden (h : ∀ e ∈ es, ¬ e.IsEnd ∧ ¬ e.IsVisible) (n : ℕ) :
  (listEntries n es {}).1.entries = [] ∧ (listEntries n es {}).1.ended = false ∧
    ∀ e ∈ (listEntries n es {}).2, ¬ e.IsEnd ∧ ¬ e.IsVisible
  := by
  induction es with
  | nil =>
      cases n with
      | zero => simp [listEntries]
      | succ n => simp [listEntries]
  | cons e es ih =>
      rw [List.forall_mem_cons] at h
      cases n with
      | zero =>
          rw [listEntries, List.forall_mem_cons]
          exact ⟨rfl, rfl, h⟩
      | succ n =>
          rw [listEntries, if_neg h.1.1, if_neg h.1.2]
          apply ih h.2

/-- Nothing is listed if no entry is visible. -/
theorem listings_of_hidden (h : ∀ e ∈ es, ¬ e.IsEnd ∧ ¬ e.IsVisible) (ns : List ℕ) :
  ∀ l ∈ listings ns es, l.entries = [] ∧ l.ended = false
  := by
  induction ns generalizing es with
  | nil => simp [listings]
  | cons n ns ih =>
      obtain ⟨hentries, hended, hrest⟩ := listEntries_of_hidden h n
      rw [listings, List.forall_mem_cons]
      exact ⟨⟨hentries, hended⟩, ih hrest⟩

/-- With large buffers, a call fails in the end. -/
theorem exists_listing_error (hn : es.length < n) :
  ∃ m l, (listings (List.replicate (m + 1) n) es)[m]? = some l ∧ l.result = -EINVAL
  := by
  induction hlength : es.length using Nat.strong_induction_on generalizing es with
  | _ k ih =>
      subst hlength
      obtain ⟨-, -, hrest⟩ | ⟨-, heq⟩ := listEntries_of_lt hn {}
      · obtain ⟨m, l, hl, hresult⟩ := ih _ hrest (hrest.trans hn) rfl
        refine ⟨m + 1, l, ?_, hresult⟩
        rw [List.replicate_succ, listings, List.getElem?_cons_succ]
        apply hl
      · refine ⟨0, { result := -EINVAL }, ?_, rfl⟩
        rw [List.replicate_one, listings, heq]
        rfl

/-- With large buffers, a directory without an end marker is not listed. -/
theorem listings_of_not_isEnd (hn : es.length < n) (h : ∀ e ∈ es, ¬ e.IsEnd) (m : ℕ) :
  ∀ l ∈ listings (List.replicate m n) es, l.entries = []
  := by
  induction m generalizing es with
  | zero => simp [listings]
  | succ m ih =>
      obtain ⟨⟨e, he, hend⟩, -⟩ | ⟨-, heq⟩ := listEntries_of_lt hn {}
      · cases h e he hend
      · rw [List.replicate_succ, listings, heq, List.forall_mem_cons]
        refine ⟨rfl, ih (Nat.zero_lt_of_lt hn) (by simp)⟩

/-! ### The end of a listing -/

section Driver

variable {σ : Type} (sd : SdDriver σ)

/-- The entries that calls of `fatfs_dir_read` return. -/
def returned (bufs : List DirBuffer) (file : FatFile) (t : σ) : List DirEntry :=
  (fatfsDirReads sd bufs file t).1.flatMap fun r => r.entries

/-- The listing of a directory ends for good: no entry after the end marker is returned, the calls
after one that met the end marker return 0, and the entries that are returned in the end do not
depend on the sizes of the buffers. -/
structure EndsForGood (file : FatFile) (t : σ) (dir : List DirEntry) : Prop where
  before_end : ∀ bufs, returned sd bufs file t <+: (live dir).filter fun e => e.IsVisible
  after_end : ∀ (bufs : List DirBuffer) (i j : ℕ) (r r' : DirRead), i < j →
    (fatfsDirReads sd bufs file t).1[i]? = some r →
    (fatfsDirReads sd bufs file t).1[j]? = some r' → r.ended = true → r'.result = 0
  same : ∀ bufs bufs' : ℕ → DirBuffer, (∀ n, SIZEOF_DIRENT ≤ (bufs n).size) →
    (∀ n, SIZEOF_DIRENT ≤ (bufs' n).size) → ∃ m, ∀ n ≥ m,
      returned sd ((List.range n).map bufs) file t = returned sd ((List.range n).map bufs') file t

end Driver

section Serves

variable {σ : Type} {sd : SdDriver σ} {v : Volume} {ready : σ → Prop} {t : σ}

/-- The entries that are returned, from the listings. -/
theorem Serves.returned_eq (hsd : Serves sd v ready) (ht : ready t) (h : Remaining v file.info es)
    (bufs : List DirBuffer) :
  returned sd bufs file t =
    (listings (bufs.map fun buf => buf.size / SIZEOF_DIRENT) es).flatMap Listed.entries
  := by
  rw [← hsd.dirReads_eq ht h, List.flatMap_map]
  rfl

/-- A call, from the listings. -/
theorem Serves.exists_dirRead (hsd : Serves sd v ready) (ht : ready t) (h : Remaining v file.info es)
    (bufs : List DirBuffer) {i : ℕ} {l : Listed}
    (hl : (listings (bufs.map fun buf => buf.size / SIZEOF_DIRENT) es)[i]? = some l) :
  ∃ r, (fatfsDirReads sd bufs file t).1[i]? = some r ∧ r.toListed = l
  := by
  rw [← hsd.dirReads_eq ht h, List.getElem?_map, Option.map_eq_some_iff] at hl
  apply hl

/-- Buffers for `n` entries. -/
def buffers (n : ℕ) (out : ℕ → Dirent) : ℕ → DirBuffer := fun _ =>
  { size := SIZEOF_DIRENT * n, out := out }

theorem map_buffers (n m : ℕ) (out : ℕ → Dirent) :
  ((List.range m).map (buffers n out)).map (fun buf => buf.size / SIZEOF_DIRENT) =
    List.replicate m n
  := by
  rw [List.map_map]
  apply List.eq_replicate_iff.mpr
  simp [buffers, Nat.mul_div_cancel_left n (show 0 < SIZEOF_DIRENT by decide)]

/-- The listing of a directory with an end marker does not end for good. -/
theorem EndsForGood.not_isEnd (hsd : Serves sd v ready) (ht : ready t) (h : Remaining v file.info es)
    {dir : List DirEntry} (hends : EndsForGood sd file t dir) (out : ℕ → Dirent) :
  ∀ e ∈ es, ¬ e.IsEnd
  := by
  have hn : es.length < 16 := Nat.lt_succ_of_le h.length_le
  obtain ⟨-, hended, hrest⟩ | ⟨hall, -⟩ := listEntries_of_lt hn {}
  · exfalso
    obtain ⟨m, l, hl, hresult⟩ := exists_listing_error (hrest.trans hn)
    have hlist : listings (((List.range (m + 2)).map (buffers 16 out)).map
        fun buf => buf.size / SIZEOF_DIRENT) es =
          (listEntries 16 es {}).1 :: listings (List.replicate (m + 1) 16) (listEntries 16 es {}).2 := by
      rw [map_buffers, List.replicate_succ, listings]
    obtain ⟨r, hr, hrl⟩ : ∃ r, (fatfsDirReads sd _ file t).1[0]? = some r ∧
        r.toListed = (listEntries 16 es {}).1 :=
      hsd.exists_dirRead ht h ((List.range (m + 2)).map (buffers 16 out)) (by rw [hlist]; rfl)
    obtain ⟨r', hr', hrl'⟩ : ∃ r', (fatfsDirReads sd _ file t).1[m + 1]? = some r' ∧
        r'.toListed = l :=
      hsd.exists_dirRead ht h ((List.range (m + 2)).map (buffers 16 out))
        (by rw [hlist, List.getElem?_cons_succ, hl])
    have hzero := hends.after_end _ 0 (m + 1) r r' (Nat.succ_pos m) hr hr' (by rw [hrl, hended])
    rw [hrl', hresult] at hzero
    revert hzero
    decide
  · apply hall

/-- The listing of a directory with visible entries and without an end marker depends on the sizes of
the buffers. -/
theorem EndsForGood.not_isVisible (hsd : Serves sd v ready) (ht : ready t)
    (h : Remaining v file.info es) {dir : List DirEntry} (hends : EndsForGood sd file t dir)
    (out : ℕ → Dirent) (hend : ∀ e ∈ es, ¬ e.IsEnd) :
  ∀ e ∈ es, ¬ e.IsVisible
  := by
  by_contra hvisible
  push Not at hvisible
  have hsize {n : ℕ} (hn : 0 < n) (i : ℕ) : SIZEOF_DIRENT ≤ (buffers n out i).size :=
    Nat.le_mul_of_pos_right SIZEOF_DIRENT hn
  obtain ⟨m, hm⟩ := hends.same (buffers 16 out) (buffers 1 out) (hsize (by decide)) (hsize (by decide))
  have hsame := hm (m + 1) (Nat.le_succ m)
  rw [hsd.returned_eq ht h, hsd.returned_eq ht h, map_buffers, map_buffers] at hsame
  have hlarge : (listings (List.replicate (m + 1) 16) es).flatMap Listed.entries = [] :=
    List.flatMap_eq_nil_iff.mpr
      (listings_of_not_isEnd (Nat.lt_succ_of_le h.length_le) hend (m + 1))
  rw [hlarge, List.replicate_succ, listings, List.flatMap_cons] at hsame
  apply listEntries_one hend hvisible
  apply (List.append_eq_nil_iff.mp hsame.symm).1

/-- The listing of the entries that can be read ends for good iff there are no entries to list, and
no end marker. -/
theorem Serves.endsForGood_iff (hsd : Serves sd v ready) (ht : ready t) (h : Remaining v file.info es)
    (dir : List DirEntry) :
  EndsForGood sd file t dir ↔ ∀ e ∈ es, ¬ e.IsEnd ∧ ¬ e.IsVisible
  := by
  constructor
  · intro hends e he
    have hend := hends.not_isEnd hsd ht h (fun _ => emptyDirent)
    exact ⟨hend e he, hends.not_isVisible hsd ht h (fun _ => emptyDirent) hend e he⟩
  · intro hhidden
    have hnil (bufs : List DirBuffer) : returned sd bufs file t = [] := by
      rw [hsd.returned_eq ht h]
      apply List.flatMap_eq_nil_iff.mpr
      intro l hl
      apply (listings_of_hidden hhidden _ l hl).1
    constructor
    · intro bufs
      rw [hnil]
      apply List.nil_prefix
    · intro bufs i j r r' _ hr _ hended
      have hmem : r.toListed ∈ listings (bufs.map fun buf => buf.size / SIZEOF_DIRENT) es := by
        rw [← hsd.dirReads_eq ht h]
        apply List.mem_map_of_mem (List.mem_of_getElem? hr)
      rw [(listings_of_hidden hhidden _ _ hmem).2] at hended
      cases hended
    · intro bufs bufs' _ _
      refine ⟨0, fun n _ => ?_⟩
      rw [hnil, hnil]

/-- The listing of a directory ends for good iff the first 15 entries of the directory are deleted or
blocked. -/
theorem fatfsDirReads_ends_iff (hsd : Serves sd v ready) (ht : ready t) {c : Long} {cs : List Long}
    (hchain : v.Chain c cs) (x : FatfsInodeInfo) :
  EndsForGood sd { info := (fatfsInfoNew (sd.info t) x c 0).2 } t (v.entries cs) ↔
    ∀ e ∈ (v.entries cs).take 15, ¬ e.IsEnd ∧ ¬ e.IsVisible
  := by
  rw [hchain.take_entries]
  apply hsd.endsForGood_iff ht (hsd.opened ht hchain.valid x 0).2

end Serves

/-- A directory with an end marker, and after it the entry of a file that was there before. -/
def staleBlock : ℕ → Byte := fun i =>
  if i < 32 then 0 else ([chr 'F', chr 'O', chr 'O'] ++ List.replicate 8 (chr ' ')).getD (i - 32) 0

/-- The first call meets the end marker, and the second call returns the entry after it. -/
theorem fatfsDirReads_stale :
  (oneCluster staleBlock).Chain 2 [2] ∧
    ((fatfsDirReads (oneCluster staleBlock).driver
        [buffers 1 (fun _ => emptyDirent) 0, buffers 1 (fun _ => emptyDirent) 1]
        { info := (fatfsInfoNew ((oneCluster staleBlock).driver.info staleBlock) default 2 0).2 }
        staleBlock).1.map fun r => (r.ended, r.result)) = [(true, 0), (false, 27)] ∧
    ¬ EndsForGood (oneCluster staleBlock).driver
      { info := (fatfsInfoNew ((oneCluster staleBlock).driver.info staleBlock) default 2 0).2 }
      staleBlock ((oneCluster staleBlock).entries [2])
  := by
  refine ⟨oneCluster_chain staleBlock, by decide +kernel, ?_⟩
  have hserves := (oneCluster staleBlock).serves_driver
  rw [hserves.endsForGood_iff trivial (hserves.opened trivial (oneCluster_chain _).valid default 0).2]
  intro h
  apply (h ((oneCluster staleBlock).entryAt 2 0) (by decide +kernel)).1
  decide +kernel

/-- A directory whose entries are all deleted. -/
theorem fatfsDirReads_ends_iff_deleted :
  EndsForGood (oneCluster fun _ => FAT_DIR_DELETED).driver
    { info := (fatfsInfoNew ((oneCluster fun _ => FAT_DIR_DELETED).driver.info fun _ => 0)
        default 2 0).2 }
    (fun _ => 0) ((oneCluster fun _ => FAT_DIR_DELETED).entries [2])
  := by
  have hserves := (oneCluster fun _ => FAT_DIR_DELETED).serves_driver
  apply (fatfsDirReads_ends_iff hserves trivial (oneCluster_chain _) default).mpr
  decide +kernel

end Mosnix.Fat
