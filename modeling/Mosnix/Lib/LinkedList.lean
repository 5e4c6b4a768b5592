import Mathlib.Data.List.Basic
import Mathlib.Tactic

/-!
# Singly linked lists

A singly linked list with head: nodes of a type with a null element, a first node, and a next
node for each node.  `Path next a l b` says that following `next` from `a` passes through the
nodes `l` and arrives at `b`; `Holds s l` says that `l` are the nodes of the list `s`.  The
operations keep this relation.

A path only depends on the next nodes of its own nodes (`Path.congr`), so that the results apply
to an implementation whose stores agree with `next` on the nodes of the list.
-/

namespace LinkedList

variable {α : Type*} {next next' : α → α} {null a b c x p : α} {l l₁ l₂ : List α}

/-- Following `next` from `a` passes through `l` and arrives at `b`. -/
def Path (next : α → α) : α → List α → α → Prop
  | a, [], b => a = b
  | a, x :: l, b => a = x ∧ Path next (next x) l b

@[simp]
theorem path_nil : Path next a [] b ↔ a = b := Iff.rfl

@[simp]
theorem path_cons : Path next a (x :: l) b ↔ a = x ∧ Path next (next x) l b := Iff.rfl

/-- A path through a concatenation is a path through the first part followed by a path through
the second. -/
theorem path_append :
  Path next a (l₁ ++ l₂) b ↔ ∃ c, Path next a l₁ c ∧ Path next c l₂ b
  := by
  induction l₁ generalizing a with
  | nil => simp
  | cons x l ih =>
      rw [List.cons_append, path_cons, ih]
      simp [and_assoc]

/-- A path depends only on the next nodes of its nodes. -/
theorem Path.congr (h : Path next a l b) (hnext : ∀ x ∈ l, next' x = next x) :
  Path next' a l b
  := by
  induction l generalizing a with
  | nil => exact h
  | cons x l ih =>
      refine ⟨h.1, ?_⟩
      rw [hnext x (by simp)]
      apply ih h.2
      intro y hy
      apply hnext y (by simp [hy])

/-- The nodes of a path stay in a set that contains the first node and is closed under `next`,
as long as the null element is not reached. -/
theorem Path.forall_mem {S : α → Prop} (h : Path next a l null) (hnull : null ∉ l)
    (ha : a ≠ null → S a) (hnext : ∀ x, S x → next x ≠ null → S (next x)) :
  ∀ x ∈ l, S x
  := by
  induction l generalizing a with
  | nil => simp
  | cons x l ih =>
      obtain ⟨rfl, htail⟩ := h
      rw [List.mem_cons, not_or] at hnull
      have hx : S a := ha (Ne.symm hnull.1)
      intro y hy
      obtain rfl | hy := List.mem_cons.mp hy
      · apply hx
      · apply ih htail hnull.2 (hnext a hx) y hy

/-- The node after a node of a path is on the path or at its end. -/
theorem Path.next_mem (h : Path next a l b) (hx : x ∈ l) : next x ∈ l ∨ next x = b := by
  induction l generalizing a with
  | nil => simp at hx
  | cons y l ih =>
      obtain ⟨rfl, htail⟩ := h
      obtain rfl | hx := List.mem_cons.mp hx
      · cases l with
        | nil =>
            right
            exact htail
        | cons z l =>
            left
            rw [htail.1]
            simp
      · apply (ih htail hx).imp_left
        apply List.mem_cons_of_mem

/-- The nodes from a first node to the null element are determined. -/
theorem Path.unique (h₁ : Path next a l₁ null) (h₂ : Path next a l₂ null) (hn₁ : null ∉ l₁)
    (hn₂ : null ∉ l₂) :
  l₁ = l₂
  := by
  induction l₁ generalizing a l₂ with
  | nil =>
      cases l₂ with
      | nil => rfl
      | cons y l =>
          rw [path_nil] at h₁
          rw [path_cons, h₁] at h₂
          exact absurd (by simp [h₂.1]) hn₂
  | cons x l ih =>
      obtain ⟨rfl, htail⟩ := h₁
      cases l₂ with
      | nil =>
          rw [path_nil] at h₂
          exact absurd (by simp [h₂]) hn₁
      | cons y l' =>
          obtain ⟨rfl, htail'⟩ := h₂
          rw [List.mem_cons, not_or] at hn₁ hn₂
          rw [ih htail htail' hn₁.2 hn₂.2]

/-- The node before the nodes that follow `l`, where `a` is before the first node of `l`. -/
def before (a : α) (l : List α) : α :=
  l.getLast?.getD a

@[simp]
theorem before_nil : before a [] = a := rfl

@[simp]
theorem before_append : before a (l ++ [p]) = p := by
  simp [before]

theorem before_cons : before a (x :: l) = before x l := by
  cases l with
  | nil => rfl
  | cons y l => rfl

/-! ### Lists with a head -/

/-- The nodes of the list with first node `first`. -/
structure Holds (next : α → α) (null first : α) (l : List α) : Prop where
  path : Path next first l null
  null_notMem : null ∉ l
  nodup : l.Nodup

variable {first : α}

namespace Holds

/-- A node inserted in front of the list. -/
theorem insertHead (h : Holds next null first l) (hx : x ≠ null) (hxl : x ∉ l) (hself : next' x = first)
    (hnext : ∀ y ∈ l, next' y = next y) :
  Holds next' null x (x :: l)
  where
  path := by
    rw [path_cons, hself]
    exact ⟨rfl, h.path.congr hnext⟩
  null_notMem := by simp [h.null_notMem, hx.symm]
  nodup := by simp [h.nodup, hxl]

/-- The first node of a list that is not empty is on the list. -/
theorem first_mem (h : Holds next null first l) (hl : l ≠ []) : first ∈ l := by
  obtain ⟨x, l, rfl⟩ := List.exists_cons_of_ne_nil hl
  rw [h.path.1]
  simp

/-- The nodes around `p` are different from `p`. -/
theorem ne_of_mem (h : Holds next null first (l₁ ++ p :: l₂)) {y : α} (hy : y ∈ l₁ ∨ y ∈ l₂) :
  y ≠ p
  := by
  rintro rfl
  have hnodup := List.nodup_middle.mp h.nodup
  apply (List.nodup_cons.mp hnodup).1
  rwa [List.mem_append]

/-- A node inserted after the node `p`. -/
theorem insertAfter (h : Holds next null first (l₁ ++ p :: l₂)) (hx : x ≠ null)
    (hxl : x ∉ l₁ ++ p :: l₂) (hp : next' p = x) (hself : next' x = next p)
    (hnext : ∀ y ∈ l₁ ++ p :: l₂, y ≠ p → next' y = next y) :
  Holds next' null first (l₁ ++ p :: x :: l₂)
  where
  path := by
    obtain ⟨c, hpre, hpost⟩ := path_append.mp h.path
    rw [path_append]
    refine ⟨c, hpre.congr fun y hy => hnext y (by simp [hy]) (h.ne_of_mem (Or.inl hy)),
      hpost.1, hp, ?_⟩
    rw [hself]
    apply hpost.2.congr
    intro y hy
    apply hnext y (by simp [hy]) (h.ne_of_mem (Or.inr hy))
  null_notMem := by
    have hnull := h.null_notMem
    simp only [List.mem_append, List.mem_cons, not_or] at hnull ⊢
    exact ⟨hnull.1, hnull.2.1, hx.symm, hnull.2.2⟩
  nodup := by
    have hperm : (l₁ ++ p :: x :: l₂).Perm (x :: (l₁ ++ p :: l₂)) := by
      have hswap : (l₁ ++ [p] ++ x :: l₂).Perm (x :: (l₁ ++ [p] ++ l₂)) := List.perm_middle
      simpa using hswap
    rw [hperm.nodup_iff, List.nodup_cons]
    exact ⟨hxl, h.nodup⟩

/-- The first node removed. -/
theorem removeHead (h : Holds next null first (x :: l)) (hnext : ∀ y ∈ l, next' y = next y) :
  Holds next' null (next x) l
  where
  path := h.path.2.congr hnext
  null_notMem h' := h.null_notMem (List.mem_cons_of_mem x h')
  nodup := h.nodup.of_cons

/-- The node after the node `p` removed. -/
theorem removeAfter (h : Holds next null first (l₁ ++ p :: x :: l₂)) (hp : next' p = next x)
    (hnext : ∀ y ∈ l₁ ++ p :: x :: l₂, y ≠ p → next' y = next y) :
  Holds next' null first (l₁ ++ p :: l₂)
  where
  path := by
    obtain ⟨c, hpre, hpost⟩ := path_append.mp h.path
    rw [path_append]
    refine ⟨c, hpre.congr fun y hy => hnext y (by simp [hy]) (h.ne_of_mem (Or.inl hy)),
      hpost.1, ?_⟩
    rw [hp]
    apply hpost.2.2.congr
    intro y hy
    apply hnext y (by simp [hy]) (h.ne_of_mem (Or.inr (List.mem_cons_of_mem x hy)))
  null_notMem h' := by
    apply h.null_notMem
    simp only [List.mem_append, List.mem_cons] at h' ⊢
    tauto
  nodup := by
    apply List.Nodup.sublist _ h.nodup
    simp

/-- The list after a change that does not touch its nodes. -/
theorem congr (h : Holds next null first l) (hnext : ∀ y ∈ l, next' y = next y) :
  Holds next' null first l
  where
  path := h.path.congr hnext
  null_notMem := h.null_notMem
  nodup := h.nodup

end Holds

end LinkedList
