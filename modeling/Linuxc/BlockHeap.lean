-- A heap of blocks that are allocated, written and freed whole. A block is
-- known by the number of blocks allocated before it, so no block is ever
-- handed out twice, and the heap remembers what it freed.
import Mathlib.Data.List.Nodup
import Mathlib.Data.List.Count
import Mathlib.Data.List.Perm.Basic

namespace block_heap

variable {α : Type}

/-! ## The heap -/

/-- The blocks by number, with what each holds; a freed block holds nothing. `freed` lists the
blocks that were freed, last first, and each at most once. -/
structure Heap (α : Type) where
  cells : List (Option α)
  freed : List Nat
  once : freed.Nodup
  gone : ∀ p, p ∈ freed ↔ cells[p]? = some none

namespace Heap

def empty : Heap α := ⟨[], [], List.nodup_nil, by simp⟩

/-- The blocks allocated so far, and so the number of the next one. -/
def size (h : Heap α) : Nat := h.cells.length

def get (h : Heap α) (p : Nat) : Option α := h.cells[p]?.join

def alloc (h : Heap α) (a : α) : Nat × Heap α :=
  (h.size, {
    cells := h.cells ++ [some a]
    freed := h.freed
    once := h.once
    gone := by
      intro p
      rw [h.gone, List.getElem?_append]
      split
      · rfl
      · rename_i hp
        rw [List.getElem?_eq_none (Nat.le_of_not_lt hp)]
        rcases Nat.lt_or_ge (p - h.cells.length) 1 with hq | hq
        · simp [Nat.lt_one_iff.mp hq]
        · rw [List.getElem?_eq_none (by simpa using hq)] })

/-- A block is written only while it is live. -/
def put (h : Heap α) (p : Nat) (a : α) : Option (Heap α) :=
  if hp : (h.get p).isSome then some {
    cells := h.cells.set p (some a)
    freed := h.freed
    once := h.once
    gone := by
      intro q
      rw [h.gone, List.getElem?_set]
      split
      · rename_i heq
        subst heq
        unfold get at hp
        rcases hc : h.cells[p]? with _ | _ | c
        · simp [hc] at hp
        · simp [hc] at hp
        · simp
      · rfl }
  else none

/-- A block is freed only while it is live. -/
def free (h : Heap α) (p : Nat) : Option (Heap α) :=
  if hp : (h.get p).isSome then some {
    cells := h.cells.set p none
    freed := p :: h.freed
    once := by
      refine List.nodup_cons.mpr ⟨?_, h.once⟩
      rw [h.gone]
      intro hgone
      simp [get, hgone] at hp
    gone := by
      intro q
      rw [List.mem_cons, h.gone, List.getElem?_set]
      split
      · rename_i heq
        subst heq
        unfold get at hp
        have hlt : p < h.cells.length := by
          by_contra hge
          simp [List.getElem?_eq_none (Nat.le_of_not_lt hge)] at hp
        simp [hlt]
      · rename_i hne
        simp [Ne.symm hne] }
  else none

/-! ## What the operations do -/

@[simp] theorem get_empty (p : Nat) : (empty : Heap α).get p = none := rfl

@[simp] theorem freed_empty : (empty : Heap α).freed = [] := rfl

@[simp] theorem size_empty : (empty : Heap α).size = 0 := rfl

theorem lt_size_of_get {h : Heap α} {p : Nat} {a : α} (hp : h.get p = some a) : p < h.size := by
  unfold get at hp
  by_contra hge
  rw [List.getElem?_eq_none (Nat.le_of_not_lt hge)] at hp
  cases hp

theorem get_eq_none_of_size_le {h : Heap α} {p : Nat} (hp : h.size ≤ p) : h.get p = none := by
  unfold get
  rw [List.getElem?_eq_none hp]
  rfl

/-- A block is freed when it was allocated and holds nothing any more. -/
theorem mem_freed_iff {h : Heap α} {p : Nat} : p ∈ h.freed ↔ p < h.size ∧ h.get p = none := by
  rw [h.gone, get, size]
  constructor
  · intro hgone
    refine ⟨?_, by rw [hgone]; rfl⟩
    by_contra hge
    rw [List.getElem?_eq_none (Nat.le_of_not_lt hge)] at hgone
    cases hgone
  · rintro ⟨hlt, hnone⟩
    rw [List.getElem?_eq_getElem hlt] at hnone ⊢
    exact congrArg some hnone

@[simp] theorem alloc_fst (h : Heap α) (a : α) : (h.alloc a).1 = h.size := rfl

@[simp] theorem freed_alloc (h : Heap α) (a : α) : (h.alloc a).2.freed = h.freed := rfl

@[simp] theorem size_alloc (h : Heap α) (a : α) : (h.alloc a).2.size = h.size + 1 := by
  simp [alloc, size]

theorem get_alloc (h : Heap α) (a : α) (p : Nat) :
    (h.alloc a).2.get p = if p = h.size then some a else h.get p := by
  by_cases hp : p = h.size
  · subst hp
    simp [alloc, get, size]
  · rw [if_neg hp]
    simp only [alloc, get, List.getElem?_append]
    split
    · rfl
    · rename_i hge
      have hlen : h.cells.length = h.size := rfl
      rw [List.getElem?_eq_none (Nat.le_of_not_lt hge), List.getElem?_eq_none (by simp; omega)]

/-- A live block can be written, and only it changes. -/
theorem put_spec {h : Heap α} {p : Nat} {a : α} (b : α) (hp : h.get p = some a) :
    ∃ h', h.put p b = some h' ∧ h'.size = h.size ∧ h'.freed = h.freed ∧
      ∀ q, h'.get q = if q = p then some b else h.get q := by
  have hsome : (h.get p).isSome := by simp [hp]
  have hlt := lt_size_of_get hp
  refine ⟨_, dif_pos hsome, by simp [size], rfl, fun q => ?_⟩
  simp only [get, List.getElem?_set]
  by_cases hq : q = p
  · subst hq
    have : q < h.cells.length := hlt
    simp [this]
  · rw [if_neg (Ne.symm hq), if_neg hq]

/-- A live block can be freed, and only it changes. -/
theorem free_spec {h : Heap α} {p : Nat} {a : α} (hp : h.get p = some a) :
    ∃ h', h.free p = some h' ∧ h'.size = h.size ∧ h'.freed = p :: h.freed ∧
      ∀ q, h'.get q = if q = p then none else h.get q := by
  have hsome : (h.get p).isSome := by simp [hp]
  have hlt := lt_size_of_get hp
  refine ⟨_, dif_pos hsome, by simp [size], rfl, fun q => ?_⟩
  simp only [get, List.getElem?_set]
  by_cases hq : q = p
  · subst hq
    have : q < h.cells.length := hlt
    simp [this]
  · rw [if_neg (Ne.symm hq), if_neg hq]

/-! ## How often a block was freed -/

theorem count_freed_of_get {h : Heap α} {p : Nat} {a : α} (hp : h.get p = some a) :
    h.freed.count p = 0 := by
  rw [List.count_eq_zero, mem_freed_iff]
  simp [hp]

end Heap

/-! ## The ledger -/

/-- The owners of the blocks: each live block stands in the list once, and no other does. -/
def Owns (h : Heap α) (ps : List Nat) : Prop :=
  ∀ p, ps.count p = if (h.get p).isSome then 1 else 0

theorem owns_empty : Owns (Heap.empty : Heap α) [] := by
  intro p
  simp

theorem Owns.perm {h : Heap α} {ps qs : List Nat} (ho : Owns h ps) (hp : ps.Perm qs) : Owns h qs :=
  fun p => (hp.count_eq p).symm.trans (ho p)

theorem Owns.mem_iff {h : Heap α} {ps : List Nat} (ho : Owns h ps) {p : Nat} :
    p ∈ ps ↔ (h.get p).isSome := by
  rw [← List.count_pos_iff, ho p]
  split <;> simp [*]

theorem Owns.nodup {h : Heap α} {ps : List Nat} (ho : Owns h ps) : ps.Nodup := by
  rw [List.nodup_iff_count_le_one]
  intro p
  rw [ho p]
  split <;> omega

/-! ## Changes -/

/-- What a piece of a program does to the heap as a whole: the blocks in `gone` are freed, those
in `new` are allocated and kept, and every other block that was there is as before. -/
structure Change (h h' : Heap α) (gone new : List Nat) : Prop where
  size_le : h.size ≤ h'.size
  old : ∀ p, p < h.size → h'.get p = if p ∈ gone then none else h.get p
  young : ∀ p, h.size ≤ p → ((h'.get p).isSome ↔ p ∈ new)
  fresh : ∀ p ∈ new, h.size ≤ p
  nodup : new.Nodup

namespace Change

variable {h h' : Heap α} {gone new ps : List Nat} {p : Nat} {a : α}

theorem refl (h : Heap α) : Change h h [] [] where
  size_le := Nat.le_refl _
  old := by simp
  young := by
    intro p hp
    simp [Heap.get_eq_none_of_size_le hp]
  fresh := by simp
  nodup := List.nodup_nil

theorem alloc (h : Heap α) (a : α) : Change h (h.alloc a).2 [] [h.size] where
  size_le := by simp
  old := by
    intro p hp
    rw [Heap.get_alloc, if_neg (Nat.ne_of_lt hp)]
    simp
  young := by
    intro p hp
    rw [Heap.get_alloc]
    split
    · simp [*]
    · simp [Heap.get_eq_none_of_size_le hp, *]
  fresh := by simp
  nodup := List.nodup_singleton _

/-- A new block may be written, as often as wanted. -/
theorem put {h'' : Heap α} (hc : Change h h' gone new) (hp : p ∈ new)
    (hsize : h''.size = h'.size) (hget : ∀ q, h''.get q = if q = p then some a else h'.get q) :
    Change h h'' gone new where
  size_le := by
    rw [hsize]
    exact hc.size_le
  old := by
    intro q hq
    have hne : q ≠ p := by
      rintro rfl
      exact absurd (hc.fresh q hp) (Nat.not_le_of_lt hq)
    rw [hget, if_neg hne, hc.old q hq]
  young := by
    intro q hq
    rw [hget]
    split
    · simp [*]
    · exact hc.young q hq
  fresh := hc.fresh
  nodup := hc.nodup

/-- A new block that is freed is as if it had never been. -/
theorem free_new {h'' : Heap α} (hc : Change h h' gone new) (hp : p ∈ new)
    (hsize : h''.size = h'.size) (hget : ∀ q, h''.get q = if q = p then none else h'.get q) :
    Change h h'' gone (new.erase p) where
  size_le := by
    rw [hsize]
    exact hc.size_le
  old := by
    intro q hq
    have hne : q ≠ p := by
      rintro rfl
      exact absurd (hc.fresh q hp) (Nat.not_le_of_lt hq)
    rw [hget, if_neg hne, hc.old q hq]
  young := by
    intro q hq
    rw [hget, hc.nodup.mem_erase_iff]
    by_cases heq : q = p
    · simp [heq]
    · simp [heq, hc.young q hq]
  fresh := fun q hq => hc.fresh q (List.mem_of_mem_erase hq)
  nodup := hc.nodup.erase p

/-- An old block that is freed is gone. -/
theorem free_old {h'' : Heap α} (hc : Change h h' gone new) (hp : p < h.size)
    (hsize : h''.size = h'.size) (hget : ∀ q, h''.get q = if q = p then none else h'.get q) :
    Change h h'' (p :: gone) new where
  size_le := by
    rw [hsize]
    exact hc.size_le
  old := by
    intro q hq
    rw [hget, hc.old q hq]
    by_cases heq : q = p <;> simp [heq]
  young := by
    intro q hq
    have hne : q ≠ p := by
      rintro rfl
      exact absurd hp (Nat.not_lt_of_le hq)
    rw [hget, if_neg hne, hc.young q hq]
  fresh := hc.fresh
  nodup := hc.nodup

theorem trans {h'' : Heap α} {gone' new' : List Nat} (hc : Change h h' gone new)
    (hc' : Change h' h'' gone' new') (hgone : ∀ p ∈ gone', p < h.size) :
    Change h h'' (gone' ++ gone) (new' ++ new) where
  size_le := Nat.le_trans hc.size_le hc'.size_le
  old := by
    intro p hp
    rw [hc'.old p (Nat.lt_of_lt_of_le hp hc.size_le), hc.old p hp]
    by_cases h1 : p ∈ gone' <;> by_cases h2 : p ∈ gone <;> simp [h1, h2]
  young := by
    intro p hp
    rw [List.mem_append]
    rcases Nat.lt_or_ge p h'.size with hlt | hge
    · have hnew' : p ∉ new' := fun hmem => absurd (hc'.fresh p hmem) (Nat.not_le_of_lt hlt)
      have hgone' : p ∉ gone' := fun hmem => absurd (hgone p hmem) (Nat.not_lt_of_le hp)
      rw [hc'.old p hlt, if_neg hgone', hc.young p hp]
      simp [hnew']
    · rw [hc'.young p hge]
      refine ⟨Or.inl, ?_⟩
      rintro (hmem | hmem)
      · exact hmem
      · have := (hc.young p hp).mpr hmem
        rw [Heap.get_eq_none_of_size_le hge] at this
        cases this
  fresh := by
    intro p hp
    rcases List.mem_append.mp hp with hmem | hmem
    · exact Nat.le_trans hc.size_le (hc'.fresh p hmem)
    · exact hc.fresh p hmem
  nodup := by
    refine List.nodup_append.mpr ⟨hc'.nodup, hc.nodup, ?_⟩
    rintro p hp q hq rfl
    have hsome := (hc.young p (hc.fresh p hq)).mpr hq
    rw [Heap.get_eq_none_of_size_le (hc'.fresh p hp)] at hsome
    cases hsome

/-- A block that is not given up keeps what it holds. -/
theorem get_of_not_mem (hc : Change h h' gone new) (hp : h.get p = some a) (hgone : p ∉ gone) :
    h'.get p = some a := by
  rw [hc.old p (Heap.lt_size_of_get hp), if_neg hgone, hp]

theorem mem_freed_iff (hc : Change h h' gone new) (hp : p < h.size) :
    p ∈ h'.freed ↔ p ∈ h.freed ∨ p ∈ gone := by
  rw [Heap.mem_freed_iff, Heap.mem_freed_iff, hc.old p hp]
  have := Nat.lt_of_lt_of_le hp hc.size_le
  by_cases hgone : p ∈ gone <;> simp [hgone, hp, this]

/-- The owners give up the blocks that go and take the new ones. -/
theorem owns (hc : Change h h' gone new) (ho : Owns h (gone ++ ps)) : Owns h' (new ++ ps) := by
  intro p
  have hp := ho p
  rw [List.count_append] at hp ⊢
  rcases Nat.lt_or_ge p h.size with hlt | hge
  · have hnew : p ∉ new := fun hmem => absurd (hc.fresh p hmem) (Nat.not_le_of_lt hlt)
    rw [List.count_eq_zero.mpr hnew, Nat.zero_add, hc.old p hlt]
    by_cases hgone : p ∈ gone
    · have hpos := List.count_pos_iff.mpr hgone
      rw [if_pos hgone]
      split at hp
      · simp
        omega
      · omega
    · rw [List.count_eq_zero.mpr hgone, Nat.zero_add] at hp
      rw [if_neg hgone, hp]
  · rw [Heap.get_eq_none_of_size_le hge] at hp
    have hzero : ps.count p = 0 := by
      simp only [Option.isSome_none, Bool.false_eq_true, if_false] at hp
      omega
    rw [hzero, hc.nodup.count]
    simp only [hc.young p hge, Nat.add_zero]

end Change

end block_heap
