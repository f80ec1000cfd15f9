-- A row of slots, each with a value: what the change of one slot does to how
-- many have a property. Threads, workers and the like are kept in such a row.
import Mathlib.Data.List.Basic
import Linuxc.Runs

namespace slots

variable {α : Type} {row : List α} {t : Nat} {a b : α} {f g g' : α → Bool}

theorem get_set_self (h : row[t]? = some a) : (row.set t b)[t]? = some b := by
  obtain ⟨ht, -⟩ := List.getElem?_eq_some_iff.mp h
  simp [ht]

/-- The change of a slot from `a` to `b`, as an equation without subtraction. -/
theorem countP_set (f : α → Bool) (h : row[t]? = some a) :
    (row.set t b).countP f + (f a).toNat = row.countP f + (f b).toNat := by
  obtain ⟨ht, ha⟩ := List.getElem?_eq_some_iff.mp h
  have hmem : a ∈ row := List.mem_of_getElem? h
  rw [List.countP_set ht, ha]
  cases hfa : f a with
  | false => cases f b <;> simp
  | true =>
    have : 0 < row.countP f := List.countP_pos_iff.mpr ⟨a, hmem, hfa⟩
    cases f b <;> simp <;> omega

theorem countP_pos (h : row[t]? = some a) (hf : f a = true) : 0 < row.countP f :=
  List.countP_pos_iff.mpr ⟨a, List.mem_of_getElem? h, hf⟩

theorem countP_eq_zero : row.countP f = 0 ↔ ∀ a ∈ row, f a = false := by
  simp

/-- What is counted once by `f` is counted once by `g` or by `g'`. -/
theorem countP_add (h : ∀ a, (f a).toNat = (g a).toNat + (g' a).toNat) :
    row.countP f = row.countP g + row.countP g' := by
  induction row with
  | nil => rfl
  | cons a row ih =>
    have ha := h a
    rw [List.countP_cons, List.countP_cons, List.countP_cons, ih]
    cases hf : f a <;> cases hg : g a <;> cases hg' : g' a <;>
      simp [hf, hg, hg'] at ha ⊢ <;> omega

section tally

open event_runs

variable {n : α → Nat}

theorem tally_set (h : row[t]? = some a) : tally n (row.set t b) + n a = tally n row + n b := by
  induction row generalizing t with
  | nil => simp at h
  | cons c row ih =>
    cases t with
    | zero =>
      have hc : c = a := by simpa using h
      subst hc
      simp only [List.set_cons_zero, tally_cons]
      omega
    | succ t =>
      have := ih (t := t) (by simpa using h)
      simp only [List.set_cons_succ, tally_cons]
      omega

theorem tally_le_tally {m : α → Nat} (h : ∀ a, n a ≤ m a) : tally n row ≤ tally m row := by
  induction row with
  | nil => exact Nat.le_refl _
  | cons a row ih =>
    have := h a
    simp only [tally_cons]
    omega

end tally

end slots
