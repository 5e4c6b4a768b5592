import Mathlib.Data.List.Basic
import Mathlib.Tactic

/-!
# Normalised paths

A path over an alphabet with a separator `sep` and a dot `dot` is a list of characters, and its
components are the parts between separators.  `resolve` folds the components of a path over a
stack of components: empty components and `.` are skipped, `..` drops the last component of the
stack, and every other component is added at the end.  `render` is the absolute path of a stack.

The second half relates the rendered path to the operations of an implementation that keeps it
in a buffer: adding a component, and cutting the path back to the last separator.  `Fits` says that
the path does not outgrow the buffer while it is resolved.
-/

namespace Path

variable {α : Type*} {sep dot : α}

/-- A component that names an entry: not empty, not `.` or `..`, and without separators. -/
structure Normal (sep dot : α) (c : List α) : Prop where
  ne_nil : c ≠ []
  ne_dot : c ≠ [dot]
  ne_dotDot : c ≠ [dot, dot]
  sep_notMem : sep ∉ c

/-- The effect of one component on a stack of components. -/
def push [DecidableEq α] (dot : α) (stack : List (List α)) (c : List α) : List (List α) :=
  if c = [] ∨ c = [dot] then stack
  else if c = [dot, dot] then stack.dropLast
  else stack ++ [c]

/-- The stack after the components of the path `s`. -/
def resolve [DecidableEq α] (sep dot : α) (stack : List (List α)) (s : List α) : List (List α) :=
  (s.splitOn sep).foldl (push dot) stack

/-- The absolute path of a stack of components. -/
def render (sep : α) (stack : List (List α)) : List α :=
  sep :: [sep].intercalate stack

/-! ### Resolving -/

variable {s c : List α}

section Resolve

variable [DecidableEq α]

@[simp]
theorem push_nil (stack : List (List α)) : push dot stack [] = stack := by
  simp [push]

@[simp]
theorem push_dot (stack : List (List α)) : push dot stack [dot] = stack := by
  simp [push]

/-- `..` leaves a directory. -/
@[simp]
theorem push_dotDot (stack : List (List α)) : push dot stack [dot, dot] = stack.dropLast := by
  simp [push]

/-- A name enters a directory. -/
theorem push_of_normal (h : Normal sep dot c) (stack : List (List α)) :
  push dot stack c = stack ++ [c]
  := by
  simp [push, h.ne_nil, h.ne_dot, h.ne_dotDot]

@[simp]
theorem resolve_nil (stack : List (List α)) : resolve sep dot stack [] = stack := by
  simp [resolve]

/-- A leading separator does not count. -/
@[simp]
theorem resolve_sep (stack : List (List α)) (s : List α) :
  resolve sep dot stack (sep :: s) = resolve sep dot stack s
  := by
  have h := List.splitOn_append_cons_self (a := sep) [] s
  rw [List.nil_append] at h
  simp [resolve, h]

/-- Leading separators do not matter. -/
theorem resolve_dropWhile (stack : List (List α)) (s : List α) :
  resolve sep dot stack (s.dropWhile (· = sep)) = resolve sep dot stack s
  := by
  induction s with
  | nil => rfl
  | cons x s ih =>
      rw [List.dropWhile_cons]
      split_ifs with h
      · rw [ih, of_decide_eq_true h, resolve_sep]
      · rfl

/-- The first component of a path is pushed before the others. -/
theorem resolve_append {rest : List α} (hc : sep ∉ c) (hrest : rest = [] ∨ rest.head? = some sep)
    (stack : List (List α)) :
  resolve sep dot stack (c ++ rest) = resolve sep dot (push dot stack c) rest
  := by
  cases hrest with
  | inl h =>
      subst h
      rw [List.append_nil, resolve_nil, resolve, List.splitOn_eq_singleton hc, List.foldl_cons,
        List.foldl_nil]
  | inr h =>
      obtain ⟨s, rfl⟩ := List.head?_eq_some_iff.mp h
      rw [resolve_sep, resolve, List.splitOn_append_cons_self_of_not_mem hc, List.foldl_cons]
      rfl

/-- A path that does not start with a separator starts with a component. -/
theorem takeWhile_ne_nil (hs : s ≠ []) (hsep : s.head? ≠ some sep) :
  s.takeWhile (· ≠ sep) ≠ []
  := by
  cases s with
  | nil => exact absurd rfl hs
  | cons x s =>
      have hx : x ≠ sep := by simpa using hsep
      simp [hx]

theorem sep_notMem_takeWhile (sep : α) (s : List α) : sep ∉ s.takeWhile (· ≠ sep) := by
  intro h
  have hall := List.all_takeWhile (l := s) (p := (· ≠ sep))
  simpa using List.all_eq_true.mp hall sep h

/-- The first component of a path is followed by a separator or by nothing. -/
theorem dropWhile_eq_nil_or (sep : α) (s : List α) :
  s.dropWhile (· ≠ sep) = [] ∨ (s.dropWhile (· ≠ sep)).head? = some sep
  := by
  cases h : s.dropWhile (· ≠ sep) with
  | nil => simp
  | cons x rest =>
      have hx := List.head?_dropWhile_not (· ≠ sep) s
      rw [h] at hx
      simpa using hx

/-- After the leading separators there is no separator. -/
theorem head?_dropWhile_ne (sep : α) (s : List α) : (s.dropWhile (· = sep)).head? ≠ some sep := by
  intro h
  have hx := List.head?_dropWhile_not (· = sep) s
  rw [h] at hx
  simp at hx

/-- A property of the components of the stack and of the components that are pushed holds of
the components of the resulting stack. -/
theorem forall_mem_push {P : List α → Prop} {stack : List (List α)} (hstack : ∀ d ∈ stack, P d)
    (hc : c ≠ [] → c ≠ [dot] → c ≠ [dot, dot] → P c) :
  ∀ d ∈ push dot stack c, P d
  := by
  unfold push
  split_ifs with h h'
  · apply hstack
  · intro d hd
    apply hstack d (List.dropLast_subset stack hd)
  · intro d hd
    obtain hd | rfl := List.mem_append.mp hd |>.imp_right List.mem_singleton.mp
    · apply hstack d hd
    · apply hc (fun h₀ => h (Or.inl h₀)) (fun h₀ => h (Or.inr h₀)) h'

/-- The components of a path have no separators, and their characters are from the path. -/
theorem of_mem_splitOn (h : c ∈ s.splitOn sep) :
  sep ∉ c ∧ c ⊆ s
  := by
  induction s generalizing c with
  | nil =>
      rw [List.splitOn_nil, List.mem_singleton] at h
      simp [h]
  | cons x s ih =>
      rw [List.splitOn_cons_eq_if_modifyHead] at h
      split_ifs at h with hx
      · obtain rfl | h := List.mem_cons.mp h
        · simp
        · obtain ⟨hsep, hsub⟩ := ih h
          exact ⟨hsep, List.subset_cons_of_subset x hsub⟩
      · obtain ⟨d, ds, hds⟩ := List.exists_cons_of_ne_nil (List.splitOn_ne_nil sep s)
        rw [hds, List.modifyHead_cons] at h
        rw [hds] at ih
        obtain rfl | h := List.mem_cons.mp h
        · obtain ⟨hsep, hsub⟩ := ih (List.mem_cons_self)
          simp only [beq_iff_eq] at hx
          exact ⟨List.not_mem_cons_of_ne_of_not_mem (Ne.symm hx) hsep, List.cons_subset_cons x hsub⟩
        · obtain ⟨hsep, hsub⟩ := ih (List.mem_cons_of_mem d h)
          exact ⟨hsep, List.subset_cons_of_subset x hsub⟩

/-- A property of the components of the stack, and of the components of the path that are not
skipped, holds of the components of the resolved stack. -/
theorem forall_mem_resolve {P : List α → Prop} {stack : List (List α)} (hstack : ∀ d ∈ stack, P d)
    (hs : ∀ c, Normal sep dot c → c ⊆ s → P c) :
  ∀ d ∈ resolve sep dot stack s, P d
  := by
  have hcs : ∀ c ∈ s.splitOn sep, sep ∉ c ∧ c ⊆ s := fun c => of_mem_splitOn
  unfold resolve
  generalize s.splitOn sep = cs at hcs ⊢
  induction cs generalizing stack with
  | nil => apply hstack
  | cons c cs ih =>
      rw [List.foldl_cons]
      apply ih
      · apply forall_mem_push hstack
        intro hnil hdot hdotDot
        obtain ⟨hsep, hsub⟩ := hcs c (by simp)
        apply hs c ⟨hnil, hdot, hdotDot, hsep⟩ hsub
      · intro d hd
        apply hcs d (by simp [hd])

end Resolve

/-! ### The rendered path in a buffer -/

@[simp]
theorem render_nil : render sep [] = [sep] := rfl

/-- The rendered path without the slash of the root: what precedes the separator of a further
component. -/
def stem (sep : α) (stack : List (List α)) : List α :=
  stack.flatMap (sep :: ·)

@[simp]
theorem stem_nil : stem sep [] = [] := rfl

theorem stem_append (stack : List (List α)) (c : List α) :
  stem sep (stack ++ [c]) = stem sep stack ++ sep :: c
  := by
  simp [stem]

theorem render_eq_stem {stack : List (List α)} (h : stack ≠ []) :
  render sep stack = stem sep stack
  := by
  induction stack with
  | nil => exact absurd rfl h
  | cons c cs ih =>
      cases cs with
      | nil => simp [render, stem]
      | cons d ds =>
          have hrest := ih (List.cons_ne_nil d ds)
          rw [render] at hrest ⊢
          rw [List.intercalate_cons_cons, stem, List.flatMap_cons, ← stem, ← hrest]
          simp

/-- The path of a directory in a directory. -/
theorem render_append (stack : List (List α)) (c : List α) :
  render sep (stack ++ [c]) = stem sep stack ++ sep :: c
  := by
  rw [render_eq_stem (by simp), stem_append]

/-- The characters of a rendered path. -/
theorem mem_render_iff {stack : List (List α)} {x : α} :
  x ∈ render sep stack ↔ x = sep ∨ ∃ c ∈ stack, x ∈ c
  := by
  cases stack with
  | nil => simp
  | cons c cs =>
      rw [render_eq_stem (List.cons_ne_nil c cs), stem, List.mem_flatMap]
      simp only [List.mem_cons]
      constructor
      · rintro ⟨d, hd, rfl | hx⟩
        · left
          rfl
        · right
          exact ⟨d, hd, hx⟩
      · rintro (rfl | ⟨d, hd, hx⟩)
        · exact ⟨c, Or.inl rfl, Or.inl rfl⟩
        · exact ⟨d, hd, Or.inr hx⟩

/-- Only the root renders to a single separator. -/
theorem one_lt_length_render_iff (sep : α) {stack : List (List α)} (h : ∀ c ∈ stack, c ≠ []) :
  1 < (render sep stack).length ↔ stack ≠ []
  := by
  constructor
  · rintro hlen rfl
    simp at hlen
  · intro hne
    obtain ⟨cs, c, rfl⟩ := List.eq_nil_or_concat stack |>.resolve_left hne
    rw [List.concat_eq_append, render_append]
    have hc : 0 < c.length := List.length_pos_of_ne_nil (h c (by simp))
    simp
    omega

/-- A rendered path ends in a separator only at the root. -/
theorem getLast?_render {stack : List (List α)} (h : ∀ c ∈ stack, Normal sep dot c)
    (hlast : (render sep stack).getLast? = some sep) :
  render sep stack = [sep]
  := by
  obtain rfl | ⟨cs, c, rfl⟩ := List.eq_nil_or_concat stack
  · rfl
  · rw [List.concat_eq_append] at h hlast
    have hc : Normal sep dot c := h c (by simp)
    obtain ⟨c', x, rfl⟩ := List.eq_nil_or_concat c |>.resolve_left hc.ne_nil
    rw [render_append, List.concat_eq_append, ← List.cons_append, ← List.append_assoc,
      List.getLast?_concat, Option.some_inj] at hlast
    exact absurd (by simp [hlast]) hc.sep_notMem

/-! ### Paths that fit in a buffer -/

section Fits

variable [DecidableEq α] {n : ℕ} {stack : List (List α)}

/-- While the path `s` is resolved, the rendered stack has fewer than `n` characters, before the first
component and after each component. -/
def Fits (sep dot : α) (n : ℕ) (stack : List (List α)) (s : List α) : Prop :=
  ∀ cs, cs <+: s.splitOn sep → (render sep (cs.foldl (push dot) stack)).length < n

/-- A path fits if its first component and its rest fit. -/
theorem fits_of_splitOn {t : List α} (h : s.splitOn sep = c :: t.splitOn sep) :
  Fits sep dot n stack s
    ↔ (render sep stack).length < n ∧ Fits sep dot n (push dot stack c) t
  := by
  unfold Fits
  rw [h]
  constructor
  · intro hs
    refine ⟨hs [] List.nil_prefix, ?_⟩
    intro cs hcs
    apply hs (c :: cs) (List.cons_prefix_cons.mpr ⟨rfl, hcs⟩)
  · rintro ⟨hstack, ht⟩ cs hcs
    obtain rfl | ⟨ds, rfl, hds⟩ := List.prefix_cons_iff.mp hcs
    · apply hstack
    · apply ht ds hds

/-- The directory that a path starts in fits. -/
theorem Fits.length_lt (h : Fits sep dot n stack s) :
  (render sep stack).length < n
  := h [] List.nil_prefix

@[simp]
theorem fits_nil : Fits sep dot n stack [] ↔ (render sep stack).length < n := by
  constructor
  · apply Fits.length_lt
  · intro hstack cs hcs
    rw [List.splitOn_nil] at hcs
    obtain rfl | ⟨ds, rfl, hds⟩ := List.prefix_cons_iff.mp hcs
    · apply hstack
    · rwa [List.prefix_nil.mp hds, List.foldl_cons, List.foldl_nil, push_nil]

@[simp]
theorem fits_sep : Fits sep dot n stack (sep :: s) ↔ Fits sep dot n stack s := by
  have hsplit := List.splitOn_append_cons_self (a := sep) [] s
  rw [List.nil_append, List.splitOn_nil, List.singleton_append] at hsplit
  rw [fits_of_splitOn hsplit, push_nil, and_iff_right_iff_imp]
  apply Fits.length_lt

/-- Leading separators do not count. -/
theorem fits_dropWhile :
  Fits sep dot n stack (s.dropWhile (· = sep)) ↔ Fits sep dot n stack s
  := by
  induction s with
  | nil => rfl
  | cons x s ih =>
      rw [List.dropWhile_cons]
      split_ifs with h
      · rw [ih, of_decide_eq_true h, fits_sep]
      · rfl

/-- The first component of a path is pushed before the others. -/
theorem fits_append {rest : List α} (hc : sep ∉ c) (hrest : rest = [] ∨ rest.head? = some sep) :
  Fits sep dot n stack (c ++ rest)
    ↔ (render sep stack).length < n ∧ Fits sep dot n (push dot stack c) rest
  := by
  cases hrest with
  | inl h =>
      subst h
      rw [List.append_nil, fits_nil]
      constructor
      · intro hs
        refine ⟨hs.length_lt, hs [c] ?_⟩
        rw [List.splitOn_eq_singleton hc]
      · rintro ⟨hstack, hpush⟩ cs hcs
        rw [List.splitOn_eq_singleton hc] at hcs
        obtain rfl | ⟨ds, rfl, hds⟩ := List.prefix_cons_iff.mp hcs
        · apply hstack
        · rwa [List.prefix_nil.mp hds]
  | inr h =>
      obtain ⟨s, rfl⟩ := List.head?_eq_some_iff.mp h
      rw [fits_sep, fits_of_splitOn (List.splitOn_append_cons_self_of_not_mem hc s)]

end Fits

/-! ### Rendered paths as paths -/

theorem length_render_append_le (stack : List (List α)) (c : List α) :
  (render sep stack).length ≤ (render sep (stack ++ [c])).length
  := by
  rw [render_append, List.length_append, List.length_cons]
  by_cases h : stack = []
  · simp [h]
  · rw [render_eq_stem h]
    omega

section Render

variable [DecidableEq α] {n : ℕ} {stack stack' : List (List α)}

/-- The components that are rendered are pushed one after the other. -/
theorem resolve_intercalate (h : ∀ c ∈ stack', Normal sep dot c) :
  resolve sep dot stack ([sep].intercalate stack') = stack ++ stack'
  := by
  induction stack' generalizing stack with
  | nil => simp
  | cons c cs ih =>
      rw [List.forall_mem_cons] at h
      have hpush := push_of_normal h.1 stack
      cases cs with
      | nil =>
          have hone : resolve sep dot stack (c ++ []) = resolve sep dot (push dot stack c) [] :=
            resolve_append h.1.sep_notMem (Or.inl rfl) stack
          rw [List.append_nil, resolve_nil, hpush] at hone
          simpa using hone
      | cons d ds =>
          rw [List.intercalate_cons_cons, List.append_assoc,
            resolve_append h.1.sep_notMem (Or.inr rfl), hpush, List.singleton_append, resolve_sep,
            ih h.2, List.append_assoc, List.singleton_append]

theorem fits_intercalate (h : ∀ c ∈ stack', Normal sep dot c)
    (hlen : (render sep (stack ++ stack')).length < n) :
  Fits sep dot n stack ([sep].intercalate stack')
  := by
  induction stack' generalizing stack with
  | nil => simpa using hlen
  | cons c cs ih =>
      rw [List.forall_mem_cons] at h
      have hpush := push_of_normal h.1 stack
      have hrest : Fits sep dot n (stack ++ [c]) ([sep].intercalate cs) := by
        apply ih h.2
        rwa [List.append_assoc, List.singleton_append]
      have hstack := (length_render_append_le stack c).trans_lt hrest.length_lt
      cases cs with
      | nil =>
          have hone : Fits sep dot n stack (c ++ []) := by
            apply (fits_append h.1.sep_notMem (Or.inl rfl)).mpr
            rw [hpush]
            exact ⟨hstack, hrest⟩
          simpa using hone
      | cons d ds =>
          rw [List.intercalate_cons_cons, List.append_assoc,
            fits_append h.1.sep_notMem (Or.inr rfl), hpush, List.singleton_append, fits_sep]
          exact ⟨hstack, hrest⟩

/-- A rendered path resolves to its components. -/
theorem resolve_render (h : ∀ c ∈ stack, Normal sep dot c) :
  resolve sep dot [] (render sep stack) = stack
  := by
  rw [render, resolve_sep, resolve_intercalate h, List.nil_append]

/-- A path without `.` and `..` fits if it is short enough. -/
theorem fits_render (h : ∀ c ∈ stack, Normal sep dot c) (hlen : (render sep stack).length < n) :
  Fits sep dot n [] (render sep stack)
  := by
  rw [render, fits_sep]
  apply fits_intercalate h
  rwa [List.nil_append]

end Render

end Path
