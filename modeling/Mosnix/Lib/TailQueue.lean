import Mathlib.Logic.Function.Basic
import Mathlib.Data.List.Nodup

/-!
# Tail queues

A store of tail queues in the manner of the BSD `queue.h` macros.  The heads `H` and the
elements `α` share one memory of pointer cells: a head has the cell `first h`, an element
the cell `next a`, and each element records the address of the cell that points at it.  An
element has one pair of links, so it can be linked into one queue at a time.

`Seg s c l e` says that from the cell `c` the elements `l` follow one another, up to the
cell `e`.  `Holds s q` says that every head `h` heads the queue `q h` and that the queues
share no element.  The operations `init`, `insertTail` and `remove` change the queues as
the corresponding operations on lists do.
-/

namespace TailQueue

/-- The address of a pointer cell: the first pointer of a head or the next pointer of an
element. -/
inductive Cell (H α : Type*) where
  | first (h : H)
  | next (a : α)
  deriving DecidableEq

/-- The memory of a family of tail queues: what each pointer cell holds, the address
`prev a` of the cell that points at `a`, and the address `last h` of the last pointer
cell of the queue at `h`. -/
@[ext]
structure Store (H α : Type*) where
  cell : Cell H α → Option α
  prev : α → Cell H α
  last : H → Cell H α

variable {H α : Type*}

/-- `TAILQ_FIRST`. -/
def Store.first (s : Store H α) (h : H) : Option α :=
  s.cell (.first h)

/-! ### Segments -/

/-- From the cell `c` the elements `l` follow one another, each recording the cell that
points at it, and `e` is the cell after the last one. -/
def Seg (s : Store H α) : Cell H α → List α → Cell H α → Prop
  | c, [], e => c = e
  | c, a :: l, e => s.cell c = some a ∧ s.prev a = c ∧ Seg s (.next a) l e

/-- The cells a segment reads: all but the cell after its last element. -/
def cells : Cell H α → List α → List (Cell H α)
  | _, [] => []
  | c, a :: l => c :: cells (.next a) l

variable {l l' : List α} {c e x : Cell H α}

/-- A segment in two parts. -/
theorem Seg.append {s : Store H α} :
  Seg s c (l ++ l') e ↔ ∃ m, Seg s c l m ∧ Seg s m l' e
  := by
  induction l generalizing c with
  | nil => simp [Seg]
  | cons a l ih =>
      simp only [List.cons_append, Seg, ih]
      constructor
      · rintro ⟨hc, hp, m, hm, he⟩
        use m
      · rintro ⟨m, ⟨hc, hp, hm⟩, he⟩
        use hc, hp, m

/-- The cells of a segment are its start and cells of its elements. -/
theorem mem_cells (h : x ∈ cells c l) :
  x = c ∨ ∃ a ∈ l, x = .next a
  := by
  induction l generalizing c with
  | nil => simp [cells] at h
  | cons a l ih =>
      rcases List.mem_cons.mp h with rfl | h
      · left
        rfl
      · right
        rcases ih h with rfl | ⟨b, hb, rfl⟩
        · use a, List.mem_cons_self
        · use b, List.mem_cons_of_mem a hb

/-- The end of a segment is its start or the cell of one of its elements. -/
theorem Seg.end_mem {s : Store H α} (h : Seg s c l e) :
  e = c ∨ ∃ a ∈ l, e = .next a
  := by
  induction l generalizing c with
  | nil => exact .inl h.symm
  | cons a l ih =>
      right
      rcases ih h.2.2 with rfl | ⟨b, hb, rfl⟩
      · use a, List.mem_cons_self
      · use b, List.mem_cons_of_mem a hb

/-- The cell after the last element is not among the cells a segment without repetition
reads. -/
theorem Seg.end_notMem_cells {s : Store H α} (h : Seg s c l e) (hl : l.Nodup)
    (hc : ∀ a ∈ l, c ≠ .next a) :
  e ∉ cells c l
  := by
  induction l generalizing c with
  | nil => simp [cells]
  | cons a l ih =>
      obtain ⟨ha, hl⟩ := List.nodup_cons.mp hl
      have hne : ∀ b ∈ l, (Cell.next a : Cell H α) ≠ .next b := by
        rintro b hb h
        cases h
        apply ha hb
      rw [cells, List.mem_cons, not_or]
      constructor
      · rintro rfl
        rcases Seg.end_mem h.2.2 with h' | ⟨b, hb, h'⟩
        · apply hc a List.mem_cons_self h'
        · apply hc b (List.mem_cons_of_mem a hb) h'
      · apply ih h.2.2 hl hne

/-- A segment depends only on the cells it reads and on the back links of its elements. -/
theorem Seg.frame {s s' : Store H α} (h : Seg s c l e) (hcell : ∀ x ∈ cells c l, s'.cell x = s.cell x)
    (hprev : ∀ a ∈ l, s'.prev a = s.prev a) :
  Seg s' c l e
  := by
  induction l generalizing c with
  | nil => apply h
  | cons a l ih =>
      obtain ⟨ha, hp, hs⟩ := h
      constructor
      · rw [hcell c List.mem_cons_self, ha]
      · constructor
        · rw [hprev a List.mem_cons_self, hp]
        · apply ih hs
          · intro x hx
            apply hcell x (List.mem_cons_of_mem c hx)
          · intro b hb
            apply hprev b (List.mem_cons_of_mem a hb)

/-- From one cell the store has one list of elements that ends in a null pointer. -/
theorem Seg.unique {s : Store H α} {e' : Cell H α} (h : Seg s c l e) (he : s.cell e = none)
    (h' : Seg s c l' e') (he' : s.cell e' = none) :
  l = l'
  := by
  induction l generalizing c l' with
  | nil =>
      cases l' with
      | nil => rfl
      | cons b l' =>
          obtain rfl : c = e := h
          cases he.symm.trans h'.1
  | cons a l ih =>
      cases l' with
      | nil =>
          obtain rfl : c = e' := h'
          cases he'.symm.trans h.1
      | cons b l' =>
          obtain rfl : a = b := Option.some.inj (h.1.symm.trans h'.1)
          rw [ih h.2.2 h'.2.2]

/-! ### Families of queues -/

/-- The head `h` heads the queue `l`. -/
def IsQueue (s : Store H α) (h : H) (l : List α) : Prop :=
  Seg s (.first h) l (s.last h) ∧ s.cell (s.last h) = none

/-- Every head `h` heads the queue `q h`, and the queues share no element. -/
structure Holds (s : Store H α) (q : H → List α) : Prop where
  queue : ∀ h, IsQueue s h (q h)
  nodup : ∀ h, (q h).Nodup
  disjoint : ∀ {h h' : H} {a : α}, a ∈ q h → a ∈ q h' → h = h'

namespace Holds

variable {s : Store H α} {q : H → List α} {h : H} {a : α}

/-- The first element of a queue. -/
theorem first_eq (hs : Holds s q) (h : H) :
  s.first h = (q h).head?
  := by
  obtain ⟨hseg, hnone⟩ := hs.queue h
  cases hq : q h with
  | nil =>
      rw [hq] at hseg
      rw [Store.first, show Cell.first h = s.last h from hseg, hnone]
      rfl
  | cons a l =>
      rw [hq] at hseg
      apply hseg.1

/-- Every queue is empty when every head holds a null pointer and records its own cell as the
last one. -/
theorem empty_iff {s : Store H α} :
  Holds s (fun _ => []) ↔ ∀ h, s.last h = .first h ∧ s.cell (.first h) = none
  := by
  constructor
  · intro hs h
    obtain ⟨hseg, hnone⟩ := hs.queue h
    have hl : s.last h = .first h := hseg.symm
    rw [hl] at hnone
    exact ⟨hl, hnone⟩
  · intro hs
    constructor
    · intro h
      obtain ⟨hl, hnone⟩ := hs h
      rw [IsQueue, hl]
      exact ⟨rfl, hnone⟩
    · simp
    · simp

/-- An element of a queue is recorded in the cell before it. -/
theorem split (hs : Holds s q) (hq : q h = l ++ a :: l') :
  Seg s (.first h) l (s.prev a) ∧ s.cell (s.prev a) = some a
    ∧ Seg s (.next a) l' (s.last h)
  := by
  have hseg := (hs.queue h).1
  rw [hq] at hseg
  obtain ⟨m, hm, hc, hp, he⟩ := Seg.append.mp hseg
  rw [hp]
  exact ⟨hm, hc, he⟩

variable {h' : H}

/-- The last cell of a queue is not a cell that another queue reads or ends in. -/
theorem last_ne (hs : Holds s q) {h : H} (hne : h ≠ h') (hx : x = .first h' ∨ ∃ a ∈ q h', x = .next a) :
  x ≠ s.last h
  := by
  rintro rfl
  rcases Seg.end_mem (hs.queue h).1 with he | ⟨a, ha, he⟩
  · rcases hx with hx | ⟨b, hb, hx⟩
    · cases he.symm.trans hx
      apply hne rfl
    · cases he.symm.trans hx
  · rcases hx with hx | ⟨b, hb, hx⟩
    · cases he.symm.trans hx
    · cases he.symm.trans hx
      apply hne (hs.disjoint ha hb)

/-- The last cell of a queue is not read by that queue. -/
theorem last_notMem_cells (hs : Holds s q) (h : H) :
  s.last h ∉ cells (.first h) (q h)
  := by
  apply Seg.end_notMem_cells (hs.queue h).1 (hs.nodup h)
  rintro a _ h
  cases h

/-- A cell of a queue is not the cell of an element that is in no queue. -/
theorem cell_ne_next (ha : ∀ h, a ∉ q h) (hx : x = .first h' ∨ ∃ b ∈ q h', x = .next b) :
  x ≠ .next a
  := by
  rintro rfl
  rcases hx with hx | ⟨b, hb, hx⟩
  · cases hx
  · cases hx
    apply ha h' hb

/-- The cell that points at an element of a queue is not a cell of another queue. -/
theorem prev_ne (hs : Holds s q) (ha : a ∈ q h) (hh : h' ≠ h)
    (hx : x = .first h' ∨ ∃ c ∈ q h', x = .next c) :
  x ≠ s.prev a
  := by
  rintro rfl
  obtain ⟨l, l', hq⟩ := List.append_of_mem ha
  rcases Seg.end_mem (hs.split hq).1 with he | ⟨c, hc, he⟩
  · rcases hx with hx | ⟨d, hd, hx⟩
    · cases he.symm.trans hx
      apply hh rfl
    · cases he.symm.trans hx
  · rcases hx with hx | ⟨d, hd, hx⟩
    · cases he.symm.trans hx
    · cases he.symm.trans hx
      apply hh (hs.disjoint hd _)
      rw [hq]
      apply List.mem_append_left _ hc

/-- The cell of an element of a queue points at the element after it. -/
theorem cell_next (hs : Holds s q) (hq : q h = l ++ a :: l') :
  s.cell (.next a) = l'.head?
  := by
  obtain ⟨-, -, hseg⟩ := hs.split hq
  cases l' with
  | nil =>
      rw [show Cell.next a = s.last h from hseg]
      apply (hs.queue h).2
  | cons b l' => apply hseg.1

end Holds

/-! ### Operations -/

variable [DecidableEq H] [DecidableEq α]

namespace Store

/-- `TAILQ_INSERT_TAIL`. -/
def insertTail (s : Store H α) (h : H) (a : α) : Store H α :=
  let s := { s with cell := Function.update s.cell (.next a) none }
  let s := { s with prev := Function.update s.prev a (s.last h) }
  let s := { s with cell := Function.update s.cell (s.last h) (some a) }
  { s with last := Function.update s.last h (.next a) }

/-- `TAILQ_REMOVE`. -/
def remove (s : Store H α) (h : H) (a : α) : Store H α :=
  let s :=
    match s.cell (.next a) with
    | some b => { s with prev := Function.update s.prev b (s.prev a) }
    | none => { s with last := Function.update s.last h (s.prev a) }
  { s with cell := Function.update s.cell (s.prev a) (s.cell (.next a)) }

variable {s : Store H α} {h : H} {a : α}

theorem insertTail_cell_of_ne (hl : x ≠ s.last h) (ha : x ≠ .next a) :
  (s.insertTail h a).cell x = s.cell x
  := by
  simp [insertTail, Function.update_of_ne hl, Function.update_of_ne ha]

@[simp]
theorem insertTail_cell_last (s : Store H α) (h : H) (a : α) :
  (s.insertTail h a).cell (s.last h) = some a
  := by
  simp [insertTail]

@[simp]
theorem insertTail_prev (s : Store H α) (h : H) (a : α) :
  (s.insertTail h a).prev = Function.update s.prev a (s.last h)
  := rfl

@[simp]
theorem insertTail_last (s : Store H α) (h : H) (a : α) :
  (s.insertTail h a).last = Function.update s.last h (.next a)
  := rfl

@[simp]
theorem remove_cell (s : Store H α) (h : H) (a : α) :
  (s.remove h a).cell = Function.update s.cell (s.prev a) (s.cell (.next a))
  := by
  rw [remove]
  cases hn : s.cell (.next a) with
  | none => simp [hn]
  | some b =>
      by_cases hb : a = b
      · subst hb
        simp [hn]
      · simp [hn, Function.update_of_ne hb]

theorem remove_prev_of_ne {c : α} (hc : s.cell (.next a) ≠ some c) :
  (s.remove h a).prev c = s.prev c
  := by
  rw [remove]
  cases hn : s.cell (.next a) with
  | none => rfl
  | some b =>
      apply Function.update_of_ne
      rintro rfl
      apply hc hn

theorem remove_prev_next {b : α} (hb : s.cell (.next a) = some b) :
  (s.remove h a).prev b = s.prev a
  := by
  simp [remove, hb]

theorem remove_last_of_ne {h' : H} (hh : h' ≠ h) :
  (s.remove h a).last h' = s.last h'
  := by
  rw [remove]
  cases hn : s.cell (.next a) with
  | none => simp [Function.update_of_ne hh]
  | some b => rfl

/-- The end of the queue after a removal. -/
theorem remove_last :
  (s.remove h a).last h = if s.cell (.next a) = none then s.prev a else s.last h
  := by
  rw [remove]
  cases hn : s.cell (.next a) with
  | none => simp
  | some b => simp

end Store

namespace Holds

variable {s : Store H α} {q : H → List α} {h : H} {a : α}

variable (hs : Holds s q)

include hs

/-- Inserting an element that is in no queue keeps the segments of all queues: it only
overwrites the last cell of the queue it is inserted into. -/
theorem insertTail_seg (ha : ∀ h, a ∉ q h) (h h' : H) :
  Seg (s.insertTail h a) (.first h') (q h') (s.last h')
  := by
  apply Seg.frame (hs.queue h').1
  · intro x hx
    apply Store.insertTail_cell_of_ne
    · by_cases hh : h = h'
      · subst hh
        rintro rfl
        apply hs.last_notMem_cells h hx
      · apply hs.last_ne hh (mem_cells hx)
    · apply cell_ne_next ha (mem_cells hx)
  · intro b hb
    rw [Store.insertTail_prev, Function.update_of_ne]
    rintro rfl
    apply ha h' hb

/-- Inserting an element that is in no queue appends it to the queue it is inserted
into. -/
theorem insertTail (ha : ∀ h, a ∉ q h) (h : H) :
  Holds (s.insertTail h a) (Function.update q h (q h ++ [a]))
  := by
  have hend := fun h' => Seg.end_mem (hs.queue h').1
  constructor
  · intro h'
    by_cases hh : h' = h
    · subst hh
      rw [Function.update_self]
      constructor
      · apply Seg.append.mpr
        use s.last h', hs.insertTail_seg ha h' h'
        simp [Seg]
      · have hne := cell_ne_next ha (hend h')
        simp [Store.insertTail, Function.update_of_ne hne.symm]
    · rw [Function.update_of_ne hh, IsQueue, Store.insertTail_last, Function.update_of_ne hh]
      use hs.insertTail_seg ha h h'
      rw [Store.insertTail_cell_of_ne (hs.last_ne (Ne.symm hh) (hend h'))
        (cell_ne_next ha (hend h'))]
      apply (hs.queue h').2
  · intro h'
    by_cases hh : h' = h
    · subst hh
      rw [Function.update_self]
      apply List.Nodup.append (hs.nodup h') (List.nodup_singleton a)
      simpa using ha h'
    · rw [Function.update_of_ne hh]
      apply hs.nodup h'
  · intro h₁ h₂ b hb₁ hb₂
    have key : ∀ {h' : H}, b ∈ Function.update q h (q h ++ [a]) h' →
        b ∈ q h' ∨ (b = a ∧ h' = h) := by
      intro h' hb
      by_cases hh : h' = h
      · subst hh
        simpa using hb
      · rw [Function.update_of_ne hh] at hb
        exact .inl hb
    rcases key hb₁ with hq₁ | ⟨e₁, rfl⟩
    · rcases key hb₂ with hq₂ | ⟨e₂, rfl⟩
      · apply hs.disjoint hq₁ hq₂
      · rw [e₂] at hq₁
        apply absurd hq₁ (ha h₁)
    · rcases key hb₂ with hq₂ | ⟨-, rfl⟩
      · rw [e₁] at hq₂
        apply absurd hq₂ (ha h₂)
      · rfl

/-- Removing an element keeps the segment of its queue before it. -/
theorem remove_front (hq : q h = l ++ a :: l') :
  Seg (s.remove h a) (.first h) l (s.prev a)
  := by
  obtain ⟨hl, -, -⟩ := hs.split hq
  obtain ⟨hnl, -, hdisj⟩ := List.nodup_append'.mp (hq ▸ hs.nodup h)
  apply Seg.frame hl
  · intro x hx
    rw [Store.remove_cell, Function.update_of_ne]
    rintro rfl
    apply Seg.end_notMem_cells hl hnl _ hx
    rintro c _ hc
    cases hc
  · intro c hc
    apply Store.remove_prev_of_ne
    rw [hs.cell_next hq]
    intro hm
    apply hdisj hc (List.mem_cons_of_mem a (List.mem_of_mem_head? hm))

/-- Removing an element links its queue around it. -/
theorem remove_queue (hq : q h = l ++ a :: l') :
  IsQueue (s.remove h a) h (l ++ l')
  := by
  have hfront := hs.remove_front hq
  obtain ⟨hl, hprev, hl'⟩ := hs.split hq
  have hnext := hs.cell_next hq
  obtain ⟨-, hnl', hdisj⟩ := List.nodup_append'.mp (hq ▸ hs.nodup h)
  cases l' with
  | nil =>
      rw [IsQueue, Store.remove_last, hnext, if_pos List.head?_nil, List.append_nil]
      use hfront
      rw [Store.remove_cell, Function.update_self, hnext, List.head?_nil]
  | cons b l' =>
      obtain ⟨hb, hpb, hseg⟩ := hl'
      obtain ⟨hbl, -⟩ := List.nodup_cons.mp (List.nodup_cons.mp hnl').2
      have hrest : ∀ {x : Cell H α}, (x = .next b ∨ ∃ c ∈ l', x = .next c) →
          x ≠ s.prev a := by
        rintro x hx rfl
        obtain ⟨c, hc, he⟩ : ∃ c ∈ b :: l', s.prev a = .next c := by
          rcases hx with hx | ⟨c, hc, hx⟩
          · use b, List.mem_cons_self
          · use c, List.mem_cons_of_mem b hc
        rcases Seg.end_mem hl with he' | ⟨d, hd, he'⟩
        · cases he.symm.trans he'
        · cases he.symm.trans he'
          apply hdisj hd (List.mem_cons_of_mem a hc)
      rw [IsQueue, Store.remove_last, hb, if_neg (Option.some_ne_none b), Store.remove_cell,
        Function.update_of_ne (hrest (Seg.end_mem hseg))]
      constructor
      · apply Seg.append.mpr
        use s.prev a, hfront
        and_intros
        · rw [Store.remove_cell, Function.update_self, hb]
        · apply Store.remove_prev_next hb
        · apply Seg.frame hseg
          · intro x hx
            rw [Store.remove_cell, Function.update_of_ne (hrest (mem_cells hx))]
          · intro c hc
            apply Store.remove_prev_of_ne
            rw [hb]
            rintro hm
            cases Option.some.inj hm
            apply hbl hc
      · apply (hs.queue h).2

/-- Removing an element keeps the other queues. -/
theorem remove_other (ha : a ∈ q h) {h' : H} (hh : h' ≠ h) :
  IsQueue (s.remove h a) h' (q h')
  := by
  obtain ⟨l, l', hq⟩ := List.append_of_mem ha
  obtain ⟨hseg, hnone⟩ := hs.queue h'
  rw [IsQueue, Store.remove_last_of_ne hh, Store.remove_cell,
    Function.update_of_ne (hs.prev_ne ha hh (Seg.end_mem hseg))]
  constructor
  · apply Seg.frame hseg
    · intro x hx
      rw [Store.remove_cell, Function.update_of_ne (hs.prev_ne ha hh (mem_cells hx))]
    · intro c hc
      apply Store.remove_prev_of_ne
      rw [hs.cell_next hq]
      intro hm
      apply hh (hs.disjoint hc _)
      rw [hq]
      apply List.mem_append_right
      apply List.mem_cons_of_mem a (List.mem_of_mem_head? hm)
  · apply hnone

/-- Removing an element of a queue erases it from the queue. -/
theorem remove (ha : a ∈ q h) :
  Holds (s.remove h a) (Function.update q h ((q h).erase a))
  := by
  constructor
  · intro h'
    by_cases hh : h' = h
    · subst hh
      obtain ⟨l, l', hal, hq, herase⟩ := List.exists_erase_eq ha
      rw [Function.update_self, herase]
      apply hs.remove_queue hq
    · rw [Function.update_of_ne hh]
      apply hs.remove_other ha hh
  · intro h'
    by_cases hh : h' = h
    · subst hh
      rw [Function.update_self]
      apply (hs.nodup h').erase a
    · rw [Function.update_of_ne hh]
      apply hs.nodup h'
  · intro h₁ h₂ b hb₁ hb₂
    have key : ∀ {h' : H}, b ∈ Function.update q h ((q h).erase a) h' → b ∈ q h' := by
      intro h' hb
      by_cases hh : h' = h
      · subst hh
        rw [Function.update_self] at hb
        apply List.mem_of_mem_erase hb
      · rwa [Function.update_of_ne hh] at hb
    apply hs.disjoint (key hb₁) (key hb₂)

end Holds

/-! ### Moving an element -/

/-- The queues after the element `a` of the queue at `h` is moved to the end of the queue
at `h'`. -/
def move (q : H → List α) (h h' : H) (a : α) : H → List α :=
  Function.update (Function.update q h ((q h).erase a)) h' (q h' ++ [a])

/-- Moving an element moves no other element. -/
theorem mem_move_of_ne (q : H → List α) {h h' k : H} {a b : α} (hb : b ≠ a) :
  b ∈ move q h h' a k ↔ b ∈ q k
  := by
  rw [move]
  by_cases hk' : k = h'
  · subst hk'
    simp [hb]
  · rw [Function.update_of_ne hk']
    by_cases hk : k = h
    · subst hk
      rw [Function.update_self, List.mem_erase_of_ne hb]
    · rw [Function.update_of_ne hk]

namespace Holds

variable {s : Store H α} {q : H → List α} {h h' : H} {a : α}

/-- Removing an element from its queue leaves it in no queue. -/
theorem notMem_erase (hs : Holds s q) (ha : a ∈ q h) (k : H) :
  a ∉ Function.update q h ((q h).erase a) k
  := by
  by_cases hk : k = h
  · subst hk
    rw [Function.update_self]
    apply (hs.nodup k).not_mem_erase
  · rw [Function.update_of_ne hk]
    intro hak
    apply hk (hs.disjoint hak ha)

/-- A moved element is in the queue it is moved to, and in no other. -/
theorem mem_move_self (hs : Holds s q) (ha : a ∈ q h) (k : H) :
  a ∈ move q h h' a k ↔ k = h'
  := by
  by_cases hk : k = h'
  · subst hk
    simp [move]
  · have hnot := hs.notMem_erase ha k
    rw [move, Function.update_of_ne hk]
    simp [hnot, hk]

/-- Removing an element and inserting it at the tail of another queue moves it. -/
theorem move (hs : Holds s q) (ha : a ∈ q h) (hh : h' ≠ h) :
  Holds ((s.remove h a).insertTail h' a) (move q h h' a)
  := by
  have h₁ := (hs.remove ha).insertTail (hs.notMem_erase ha) h'
  rw [Function.update_of_ne hh] at h₁
  apply h₁

end Holds

end TailQueue
