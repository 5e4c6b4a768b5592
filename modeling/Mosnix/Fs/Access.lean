import Mosnix.Fs.PathBuffer

/-!
# Permissions

The checks of `inode_access` along a path of the RAM file system.  A walk along a path comes to
directories, each of which must grant the permission to search it, and ends at a node, which must
grant the access that the flags request.  As `R_OK` is 3, and not 4, a request to read is checked
against the permissions to write and to search.
-/

namespace Mosnix.Fs

open Fat Path Program

variable {σ : Type} {sd : SdDriver σ} {s s' : FileSystem σ} {node b c dir : BufId} {i : Inode}
  {stack : List (List Byte)} {dirs : List BufId} {held infos : List BufId} {q : Policy}
  {oflag mode : Word} {wanted : Bool}

/-! ### The permissions of the owner -/

def S_IRUSR : Word := 0x0100
def S_IWUSR : Word := 0x0080

/-- The permissions of the owner. -/
def ownerBits (mode : Word) : BitVec 3 := mode.extractLsb' 6 3

theorem shift_and_7 (mode : Word) : mode >>> 6 &&& 7 = (ownerBits mode).setWidth 16 := by
  ext n hn
  rw [ownerBits]
  simp only [BitVec.getElem_and, BitVec.getElem_ushiftRight, BitVec.getElem_setWidth,
    BitVec.getLsbD_extractLsb']
  interval_cases n <;> simp

/-- The bits of the mode for the owner. -/
theorem and_twoPow_ne_zero {mode : Word} {n : ℕ} (hn : n < 3) :
  mode &&& BitVec.twoPow 16 (6 + n) ≠ 0 ↔ (ownerBits mode).getLsbD n = true
  := by
  have hne : BitVec.twoPow 16 (6 + n) ≠ 0#16 := by
    interval_cases n <;> decide
  rw [BitVec.and_twoPow, ownerBits, BitVec.getLsbD_extractLsb']
  split_ifs with h
  · simp [h, hn, hne]
  · simp [h, hn]

theorem and_S_IXUSR : mode &&& S_IXUSR ≠ 0 ↔ (ownerBits mode).getLsbD 0 = true :=
  and_twoPow_ne_zero (n := 0) (by decide)

theorem and_S_IWUSR : mode &&& S_IWUSR ≠ 0 ↔ (ownerBits mode).getLsbD 1 = true :=
  and_twoPow_ne_zero (n := 1) (by decide)

/-- `inode_access` fails with `EACCES` only. -/
theorem inodeAccess_eq_of_neg {m : Word} (h : inodeAccess i m < 0) : inodeAccess i m = -EACCES := by
  revert h
  rw [inodeAccess]
  dsimp only
  split_ifs
  · exact fun h => absurd h (by decide)
  · exact fun h => absurd h (by decide)
  · exact fun _ => rfl

/-- The check of `inode_access`, in terms of the permissions of the owner. -/
theorem inodeAccess_iff {m : Word} (hm : m ≠ F_OK) :
  ¬ inodeAccess i m < 0 ↔ m &&& (ownerBits i.mode).setWidth 16 = m
  := by
  rw [← shift_and_7, ← BitVec.and_assoc, inodeAccess, if_neg hm]
  dsimp only
  split_ifs with h
  · simpa using h
  · simpa [EACCES] using h

theorem inodeAccess_X_OK : ¬ inodeAccess i X_OK < 0 ↔ i.mode &&& S_IXUSR ≠ 0 := by
  rw [inodeAccess_iff (by decide), and_S_IXUSR]
  generalize ownerBits i.mode = o
  revert o
  decide

theorem inodeAccess_W_OK : ¬ inodeAccess i W_OK < 0 ↔ i.mode &&& S_IWUSR ≠ 0 := by
  rw [inodeAccess_iff (by decide), and_S_IWUSR]
  generalize ownerBits i.mode = o
  revert o
  decide

/-- The check for reading tests the bits for writing and for execution. -/
theorem inodeAccess_R_OK :
  ¬ inodeAccess i R_OK < 0 ↔ i.mode &&& S_IWUSR ≠ 0 ∧ i.mode &&& S_IXUSR ≠ 0
  := by
  rw [inodeAccess_iff (by decide), and_S_IWUSR, and_S_IXUSR]
  generalize ownerBits i.mode = o
  revert o
  decide

/-- The access that the flags request is granted by the permissions of the owner. -/
def Grants (oflag mode : Word) : Prop :=
  if oflag &&& O_ACCMODE = O_RDONLY then mode &&& S_IRUSR ≠ 0
  else if oflag &&& O_ACCMODE = O_WRONLY then mode &&& S_IWUSR ≠ 0
  else if oflag &&& O_ACCMODE = O_RDWR then mode &&& S_IRUSR ≠ 0 ∧ mode &&& S_IWUSR ≠ 0
  else mode &&& S_IXUSR ≠ 0

/-- The permissions of the owner for which a request to read is checked correctly. -/
def ReadAgrees (oflag mode : Word) : Prop :=
  if oflag &&& O_ACCMODE = O_RDONLY then
    mode &&& S_IRUSR ≠ 0 ↔ mode &&& S_IWUSR ≠ 0 ∧ mode &&& S_IXUSR ≠ 0
  else if oflag &&& O_ACCMODE = O_RDWR then
    mode &&& S_IWUSR ≠ 0 → (mode &&& S_IRUSR ≠ 0 ↔ mode &&& S_IXUSR ≠ 0)
  else True

/-- The check of the access that the flags request. -/
theorem oflagToAccessMode_iff :
  (¬ inodeAccess i (oflagToAccessMode oflag) < 0 ↔ Grants oflag i.mode) ↔ ReadAgrees oflag i.mode
  := by
  rw [oflagToAccessMode, Grants, ReadAgrees]
  by_cases hro : oflag &&& O_ACCMODE = O_RDONLY
  · rw [if_pos hro, if_pos hro, if_pos hro, inodeAccess_R_OK]
    exact iff_comm
  rw [if_neg hro, if_neg hro, if_neg hro]
  by_cases hrw : oflag &&& O_ACCMODE = O_RDWR
  · have hwo : oflag &&& O_ACCMODE ≠ O_WRONLY := by
      rw [hrw]
      decide
    have hmask : R_OK ||| W_OK = R_OK := by decide
    rw [if_neg hwo, if_neg hwo, if_pos hrw, if_pos hrw, if_pos hrw, hmask, inodeAccess_R_OK]
    tauto
  rw [if_neg hrw, if_neg hrw, if_neg hrw, iff_true]
  split_ifs
  · apply inodeAccess_W_OK
  · apply inodeAccess_X_OK

/-! ### Walks -/

/-- The permission `bit` in the mode of the inode `b`. -/
def HasMode (s : FileSystem σ) (bit : Word) (b : BufId) : Prop :=
  ∃ i, s.buf b = .inode i ∧ i.mode &&& bit ≠ 0

/-- The walk from `node` along the names `stack` comes to the directories `dirs` and ends at the
node `b`. -/
inductive Walk (s : FileSystem σ) : BufId → List (List Byte) → List BufId → BufId → Prop where
  | nil (node : BufId) : Walk s node [] [] node
  | cons {node c b : BufId} {name : List Byte} {stack : List (List Byte)} {dirs : List BufId}
      (hentry : Entry s node name c) (hrest : Walk s c stack dirs b) :
      Walk s node (name :: stack) (node :: dirs) b

/-- An entry that is found is one of the entries of the directory. -/
theorem Entry.exists_mem {name : List Byte} (he : Entry s node name c) :
  ∃ L x, Lists s node L ∧ x ∈ L ∧ x.2 = (name, some c)
  := by
  obtain ⟨i, l₁, e, l₂, hram, hl, rfl, hc, -⟩ := he
  refine ⟨_, listed e, ⟨i, _, hram.buf_eq, hram.op_eq, hram.isDir, hl, rfl⟩, by simp, ?_⟩
  rw [listed, hc]

theorem Entry.nameOk {name : List Byte} (he : Entry s node name c) (ht : RamTree s) :
  NameOk name
  := by
  obtain ⟨L, x, hL, hx, heq⟩ := he.exists_mem
  have hname := ht.names node L x hL hx
  rwa [heq] at hname

/-- An entry leads to a node. -/
theorem Entry.ramInode {name : List Byte} (he : Entry s node name c) (ht : RamTree s) :
  RamInode s c
  := by
  obtain ⟨L, x, hL, hx, heq⟩ := he.exists_mem
  exact (ht.child node L x c hL hx (by rw [heq])).2

/-- A directory may be searched if the owner has the permission. -/
theorem Entry.searchable_iff {name : List Byte} (he : Entry s node name c) :
  Searchable s node ↔ HasMode s S_IXUSR node
  := by
  obtain ⟨i, -, -, -, hram, -⟩ := he
  constructor
  · rintro ⟨j, hj, -, haccess⟩
    exact ⟨j, hj, inodeAccess_X_OK.mp haccess⟩
  · rintro ⟨j, hj, haccess⟩
    obtain rfl : j = i := by simpa [hram.buf_eq, eq_comm] using hj
    exact ⟨j, hj, hram.isDir, inodeAccess_X_OK.mpr haccess⟩

/-- The directories that a path goes through can be searched. -/
theorem Walk.searchable_iff (hw : Walk s node stack dirs b) :
  (∀ d ∈ dirs, Searchable s d) ↔ ∀ d ∈ dirs, HasMode s S_IXUSR d
  := by
  induction hw with
  | nil => simp
  | cons hentry hrest ih => rw [List.forall_mem_cons, List.forall_mem_cons, hentry.searchable_iff, ih]

/-- The walk to the first entry of a directory. -/
theorem walk_first {d : BufId} {e : RamfsDirent} (hram : RamDir s node i)
    (hd : i.ramfsDir = some d) (he : s.buf d = .dirent e) (hc : e.inode = some c)
    (hnext : e.next = none) :
  Walk s node [e.name] [node] c
  :=
  Walk.cons ⟨i, [], (d, e), [], hram, ⟨hd, he, hnext⟩, rfl, hc, by simp⟩ (Walk.nil c)

/-- The checks of the permissions along a walk, and at the node where it ends. -/
def AccessPass (s : FileSystem σ) (dirs : List BufId) (oflag : Word) (i : Inode) : Prop :=
  (∀ d ∈ dirs, Searchable s d) ∧ ¬ inodeAccess i (oflagToAccessMode oflag) < 0

/-- The result of `inode_lookup` at a node where the permissions are granted. -/
def checkResult (oflag mode : Word) (i : Inode) : Int :=
  if (mode ^^^ i.mode) &&& S_IFMT ≠ 0 then
    if S_ISDIR mode then -ENOTDIR else if S_ISDIR i.mode then -EISDIR else -EACCES
  else if oflag &&& O_CREAT ≠ 0 ∧ oflag &&& O_EXCL ≠ 0 then -EEXIST
  else 0

section Loop

variable {Q : Int × Option BufId → FileSystem σ → Prop} {path : List Byte} {fuel : ℕ}

/-- The loop of `inode_lookup` at a directory that may not be searched. -/
theorem inodeLookupLoop_of_access_neg (hs : WellFormed s) (h : Extends s s' [node] [])
    (hpath : path ≠ []) (hi : s'.buf node = .inode i) (hdir : S_ISDIR i.mode = true)
    (haccess : inodeAccess i X_OK < 0) (hQ : ∀ t, Extends s t [] [] → Q (-EACCES, none) t) :
  Ends (inodeLookupLoop sd wanted oflag mode (fuel + 1) node path) s' Q
  := by
  unfold inodeLookupLoop
  rw [if_neg hpath]
  apply Ends.bind_of_eq (readInode_eq hi)
  rw [if_neg (not_not.mpr hdir), if_pos haccess]
  apply Ends.bind_discard (h.inodeDeref_ends hs)
  intro _ t ht
  apply Ends.pure
  rw [inodeAccess_eq_of_neg haccess]
  apply hQ t ht

/-- The loop of `inode_lookup` along a walk. -/
theorem Walk.inodeLookupLoop_ends (hw : Walk s node stack dirs b) (hs : FsOk q s held infos)
    (h : Extends s s' [node] []) (hfuel : (walkPath stack).length < fuel)
    (hpass : (∀ d ∈ dirs, Searchable s d) →
      ∀ t, Extends s t [b] [] → Ends (inodeLookupCheck wanted b oflag mode) t Q)
    (hfail : ¬ (∀ d ∈ dirs, Searchable s d) → ∀ t, Extends s t [] [] → Q (-EACCES, none) t) :
  Ends (inodeLookupLoop sd wanted oflag mode fuel node (walkPath stack)) s' Q
  := by
  induction hw generalizing s' fuel with
  | nil node =>
      cases fuel with
      | zero => omega
      | succ n => apply hpass (by simp) s' h
  | @cons node c b name stack dirs hentry hrest ih =>
      rw [List.forall_mem_cons] at hpass hfail
      have hname := hentry.nameOk hs.tree
      have hne := walkPath_ne_nil hname.normal.ne_nil stack
      obtain ⟨htake, hlast, hdrop⟩ := nameLen_walkPath hname.normal hname.zero_notMem
        (hname.length_le.trans (by decide)) stack
      cases fuel with
      | zero => omega
      | succ n =>
          by_cases hsearch : Searchable s node
          · obtain ⟨ci, hci, hop⟩ := hentry.ramInode hs.tree
            rw [← htake] at hentry
            apply inodeLookupLoop_of_entry hs.wellFormed h hne hsearch hentry hci (hs.noLnk hci hop)
            intro t ht
            rw [hdrop]
            split_ifs with hnil
            · obtain rfl := hlast.mp hnil
              cases hrest
              apply hpass ⟨hsearch, by simp⟩ t ht
            · apply ih ht
              · have hpos := List.length_pos_of_ne_nil hne
                rw [← hdrop, List.length_drop]
                omega
              · exact fun hdirs => hpass ⟨hsearch, hdirs⟩
              · exact fun hdirs => hfail fun hall => hdirs hall.2
          · obtain ⟨i, -, -, -, hram, -⟩ := hentry
            have haccess : inodeAccess i X_OK < 0 := by
              by_contra hno
              exact hsearch ⟨i, hram.buf_eq, hram.isDir, hno⟩
            apply inodeLookupLoop_of_access_neg hs.wellFormed h hne (h.inode_eq hram.buf_eq)
              hram.isDir haccess
            apply hfail
            exact fun hall => hsearch hall.1

/-- The checks of `inode_lookup` at the end of the path. -/
theorem inodeLookupCheck_result (hs : WellFormed s) (h : Extends s s' [b] [])
    (hi : s'.buf b = .inode i) :
  Ends (inodeLookupCheck wanted b oflag mode) s' fun r _ =>
    r.1 = if inodeAccess i (oflagToAccessMode oflag) < 0 then -EACCES else checkResult oflag mode i
  := by
  have hderef (e : Int) : Ends (derefAndReturn b e) s' fun r _ => r.1 = e := by
    apply Ends.bind_discard (h.inodeDeref_ends hs)
    intro _ t _
    apply Ends.pure
    rfl
  apply Ends.bind_of_eq (readInode_eq hi)
  rw [checkResult]
  dsimp only
  split_ifs with haccess htype hdir hdir' hexcl
  · rw [inodeAccess_eq_of_neg haccess]
    apply hderef
  · apply hderef
  · apply hderef
  · apply hderef
  · apply hderef
  · unfold returnInode
    split_ifs
    · apply Ends.pure
      rfl
    · apply hderef

end Loop

/-- `inode_lookup` along a walk through the RAM file system. -/
theorem Walk.inodeLookup_result (hw : Walk s s.root stack dirs b) (hs : FsOk q s held infos)
    (hi : s.buf b = .inode i) :
  Ends (inodeLookup sd wanted (render (chr '/') stack) oflag mode) s fun r _ =>
    (AccessPass s dirs oflag i → r.1 = checkResult oflag mode i)
      ∧ (¬ AccessPass s dirs oflag i → r.1 = -EACCES)
  := by
  apply Ends.bind hs.wellFormed.inodeGetRoot_ends
  rintro _ t ⟨rfl, ht⟩
  apply hw.inodeLookupLoop_ends hs ht
  · rw [render_eq_cons, List.length_cons]
    omega
  · intro hsearch t' ht'
    apply (inodeLookupCheck_result hs.wellFormed ht' (ht'.inode_eq hi)).mono
    intro r t'' hr
    rw [hr]
    constructor
    · exact fun hpass => if_neg hpass.2
    · exact fun hno => if_pos (not_not.mp fun haccess => hno ⟨hsearch, haccess⟩)
  · intro hsearch t' _
    exact ⟨fun hpass => absurd hpass.1 hsearch, fun _ => rfl⟩

/-- A directory that can be searched passes the checks. -/
theorem passes_directory (hdir : S_ISDIR i.mode = true) (hmode : i.mode &&& S_IXUSR ≠ 0) :
  Passes O_EXEC S_IFDIR i
  where
  access := inodeAccess_X_OK.mpr hmode
  type_eq := by
    rw [type_eq_iff, ← beq_iff_eq]
    exact hdir
  not_excl := by decide

/-- A lookup of a directory that the owner may search. -/
theorem Parent.inodeLookup_directory {name : List Byte}
    (hp : Parent s s.root (walkPath stack) dir name) (hs : WellFormed s) (he : Entry s dir name c)
    (hi : s.buf c = .inode i) (hdir : S_ISDIR i.mode = true) (hmode : i.mode &&& S_IXUSR ≠ 0) :
  ∃ i' s', inodeLookup sd true (render (chr '/') stack) O_EXEC S_IFDIR s = some ((0, some c), s')
    ∧ s'.buf c = .inode i' ∧ i'.mode = i.mode
  := by
  have hends : Ends (inodeLookup sd true (render (chr '/') stack) O_EXEC S_IFDIR) s
      fun r s' => r = (0, some c) ∧ ∃ i', s'.buf c = .inode i' ∧ i'.mode = i.mode := by
    apply Parent.inodeLookup_ends hp hs he hi (not_S_ISLNK_of_S_ISDIR hdir)
    intro t ht
    have hi' := ht.inode_eq hi
    exact ⟨_, t, inodeLookupCheck_eq hi' (passes_directory hdir hmode), rfl, _, hi', rfl⟩
  obtain ⟨_, s', heq, rfl, i', hi', hmode'⟩ := hends
  exact ⟨i', s', heq, hi', hmode'⟩

/-- A lookup creates a node only in a directory that the owner may write to. -/
theorem Looked.hasMode {r : Int} {out : Option BufId} {path : List Byte}
    (h : Looked wanted oflag mode s node path (r, out) s') (hr : 0 < r) :
  ∃ dir name child d c, Created s s' dir name child d c ∧ HasMode s S_IWUSR dir
  := by
  have hmay {dir : BufId} (hw : Writable s dir) : HasMode s S_IWUSR dir := by
    obtain ⟨i, hi, haccess⟩ := hw
    exact ⟨i, hi, inodeAccess_W_OK.mp haccess⟩
  cases h with
  | failed he => omega
  | found => omega
  | checked => omega
  | created dir d c name _ _ _ _ hwrite h => exact ⟨dir, name, _, d, c, h, hmay hwrite⟩
  | made dir d c name _ _ _ _ hwrite h => exact ⟨dir, name, _, d, c, h, hmay hwrite⟩

/-- The permissions that `inode_lookup` enforces along a path to a node of the RAM file system.
They are those of the directories and of the node, unless the flags ask to read the node, and its
permissions to read differ from those to write and to search. -/
theorem inodeLookup_access_iff (hs : FsOk q s held infos) (hw : Walk s s.root stack dirs b)
    (hi : s.buf b = .inode i) (sd : SdDriver σ) (oflag mode : Word) :
  (∃ r out s', inodeLookup sd true (render (chr '/') stack) oflag mode s = some ((r, out), s')
      ∧ (AccessPass s dirs oflag i → r = checkResult oflag mode i)
      ∧ (¬ AccessPass s dirs oflag i → r = -EACCES))
    ∧ ((AccessPass s dirs oflag i ↔
          (∀ d ∈ dirs, HasMode s S_IXUSR d) ∧ Grants oflag i.mode) ↔
        (∃ d ∈ dirs, ¬ HasMode s S_IXUSR d) ∨ ReadAgrees oflag i.mode)
    ∧ ∀ wanted pathname r out s',
        inodeLookup sd wanted pathname oflag mode s = some ((r, out), s') → 0 < r →
        ∃ dir name child d c, Created s s' dir name child d c ∧ HasMode s S_IWUSR dir
  := by
  refine ⟨?_, ?_, ?_⟩
  · obtain ⟨⟨r, out⟩, s', heq, hr⟩ := hw.inodeLookup_result hs hi
    exact ⟨r, out, s', heq, hr⟩
  · rw [AccessPass, hw.searchable_iff, ← oflagToAccessMode_iff]
    have hex : (∃ d ∈ dirs, ¬ HasMode s S_IXUSR d) ↔ ¬ ∀ d ∈ dirs, HasMode s S_IXUSR d := by
      simp
    rw [hex]
    tauto
  · intro wanted pathname r out s' heq hr
    have hlooked := (inodeLookup_ends hs.wellFormed).ensures.of_eq heq
    exact hlooked.hasMode hr

/-- The mode of a directory that the owner may read, and may neither write nor search. -/
def readOnlyMode : Word := S_IFDIR ||| S_IRUSR

/-- The file system after `inode_lookup` has created the directory `/m`, which may only be read. -/
def readOnlyFs : FileSystem Unit :=
  ((inodeLookup noCard true [chr '/', chr 'm'] O_CREAT readOnlyMode (boot ())).get
    (by decide +kernel)).2

/-- The file system comes from the creation of `/m`. -/
theorem readOnlyFs_eq :
  inodeLookup noCard true [chr '/', chr 'm'] O_CREAT readOnlyMode (boot ())
    = some ((1, some 97), readOnlyFs)
  := by
  rw [readOnlyFs, Option.eq_some_iff_get_eq]
  refine ⟨by decide +kernel, Prod.ext ?_ rfl⟩
  decide +kernel

theorem fsOk_readOnlyFs : FsOk ⟨True, True⟩ readOnlyFs [97] [] := by
  have hboot : FsOk ⟨True, True⟩ (boot ()) [] [] :=
    ⟨boot (), rest_boot _ (), Extends.refl (wellFormed_boot ())⟩
  have hunmounted : Unmounted (boot ()) (walkPath [[chr 'm']]) := by
    intro dir name i _ hi
    obtain ⟨-, rfl⟩ := inode_of_boot hi
    decide
  have hcreate : MayCreate ⟨True, True⟩ (boot ()) (walkPath [[chr 'm']]) readOnlyMode :=
    ⟨⟨Or.inl (by decide), by decide⟩, fun _ => hunmounted⟩
  have hnormal : ∀ c ∈ [[chr 'm']], Normal (chr '/') (chr '.') c := by
    intro c hc
    rw [List.mem_singleton.mp hc]
    exact ⟨by decide, by decide, by decide, by decide⟩
  have hpath : IsPath ([chr '/', chr 'm'] ++ List.replicate 62 0) [[chr 'm']] :=
    ⟨by decide, ⟨by decide, List.replicate 61 0, by decide⟩, hnormal, by decide⟩
  have hlooked := (inodeLookup_ends (wellFormed_boot ())).ensures.of_eq readOnlyFs_eq
  apply hlooked.fsOk hboot hpath fun _ => hcreate

theorem walk_readOnlyFs : Walk readOnlyFs readOnlyFs.root [[chr 'm']] [readOnlyFs.root] 97 := by
  have hroot : RamDir readOnlyFs readOnlyFs.root
      { op := .ramfs, count := 3, mode := rootMode, ramfsDir := some 98 } :=
    ⟨by decide +kernel, rfl, by decide, by decide⟩
  have hm : readOnlyFs.buf 98 = .dirent ⟨[chr 'm'], some 97, none⟩ := by decide +kernel
  apply walk_first hroot rfl hm rfl rfl

/-- The directory `/m` may be read, but `inode_lookup` does not let the owner open it for reading. -/
theorem inodeLookup_access_readOnly :
  FsOk ⟨True, True⟩ readOnlyFs [97] []
    ∧ Walk readOnlyFs readOnlyFs.root [[chr 'm']] [readOnlyFs.root] 97
    ∧ HasMode readOnlyFs S_IXUSR readOnlyFs.root
    ∧ readOnlyFs.buf 97 = .inode (newInode readOnlyMode 2) ∧ Grants O_RDONLY readOnlyMode
    ∧ ∃ s', inodeLookup noCard true (render (chr '/') [[chr 'm']]) O_RDONLY S_IFDIR readOnlyFs
      = some ((-EACCES, none), s')
  := by
  refine ⟨fsOk_readOnlyFs, walk_readOnlyFs, ⟨_, rfl, by decide +kernel⟩, ?_, ?_, ?_⟩
  · decide +kernel
  · rw [Grants]
    decide
  · have hr : (inodeLookup noCard true (render (chr '/') [[chr 'm']]) O_RDONLY S_IFDIR
        readOnlyFs).map Prod.fst = some (-EACCES, none) := by
      decide +kernel
    obtain ⟨⟨r, s'⟩, heq, rfl⟩ := Option.map_eq_some_iff.mp hr
    exact ⟨s', heq⟩

/-- The checks of the permissions of the directory `/m` to write and to search it. -/
theorem inodeLookup_access_iff_readOnly :
  FsOk ⟨True, True⟩ readOnlyFs [97] []
    ∧ Walk readOnlyFs readOnlyFs.root [[chr 'm']] [readOnlyFs.root] 97
    ∧ (AccessPass readOnlyFs [readOnlyFs.root] O_EXEC (newInode readOnlyMode 2) ↔
        (∀ d ∈ [readOnlyFs.root], HasMode readOnlyFs S_IXUSR d) ∧ Grants O_EXEC readOnlyMode)
  := by
  have hbuf : readOnlyFs.buf 97 = .inode (newInode readOnlyMode 2) := by decide +kernel
  obtain ⟨-, hiff, -⟩ :=
    inodeLookup_access_iff fsOk_readOnlyFs walk_readOnlyFs hbuf noCard O_EXEC S_IFDIR
  refine ⟨fsOk_readOnlyFs, walk_readOnlyFs, hiff.mpr (Or.inr ?_)⟩
  rw [ReadAgrees]
  decide

end Mosnix.Fs
