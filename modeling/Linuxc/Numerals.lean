-- Numbers as rows of digits, the greatest first: searching a table of digits
-- is the inverse of writing a digit, and folding the digits of a number gives
-- the number back.
import Mathlib.Data.List.Basic

namespace numerals

/-! ## Tables of digits -/

/-- The first `b` digits. -/
def table (b : Nat) : List Char := (List.range b).map Nat.digitChar

variable {b d e n : Nat} {c : Char}

theorem digitChar_injective (hd : d < 16) (he : e < 16) (h : d.digitChar = e.digitChar) : d = e := by
  have hall : ∀ d < 16, ∀ e < 16, d.digitChar = e.digitChar → d = e := by decide
  exact hall d hd e he h

/-- What is found in a table is the digit at its place. -/
theorem digit_of_found (h : (table b).idxOf? c = some d) : d < b ∧ c = d.digitChar := by
  obtain ⟨hlt, hc, -⟩ := List.idxOf?_eq_some_iff.mp h
  constructor
  · simpa [table] using hlt
  · simpa [table] using hc.symm

/-- Each digit of a table is found at its place. -/
theorem found_digit (hb : b ≤ 16) (hd : d < b) : (table b).idxOf? d.digitChar = some d := by
  refine List.idxOf?_eq_some_iff.mpr ⟨by simpa [table] using hd, by simp [table], ?_⟩
  intro e he heq
  have hchar : e.digitChar = d.digitChar := by simpa [table] using heq
  have := digitChar_injective (by omega) (by omega) hchar
  omega

/-! ## The digits of a number -/

/-- The number after one more digit. -/
theorem toDigits_snoc (hb : 1 < b) (hn : 0 < n) (hd : d < b) :
    Nat.toDigits b (n * b + d) = Nat.toDigits b n ++ [d.digitChar] := by
  rw [Nat.mul_comm, ← Nat.toDigits_append_toDigits hb hn hd, Nat.toDigits_of_lt_base hd]

/-- Induction on the digits of a number. -/
theorem digits_induction {P : Nat → List Char → Prop} (hb : 1 < b)
    (single : ∀ d, d < b → P d [d.digitChar])
    (digit : ∀ n d, 0 < n → d < b → P n (Nat.toDigits b n) →
      P (n * b + d) (Nat.toDigits b n ++ [d.digitChar])) (n : Nat) :
    P n (Nat.toDigits b n) := by
  induction n using Nat.base_induction b hb with
  | single m hm =>
    rw [Nat.toDigits_of_lt_base hm]
    exact single m hm
  | digit m k hk hm ih =>
    rw [Nat.mul_comm, toDigits_snoc hb hm hk]
    exact digit m k hm hk ih

theorem forall_toDigits {P : Char → Prop} (hb : 1 < b) (h : ∀ d < b, P d.digitChar) (n : Nat) :
    ∀ c ∈ Nat.toDigits b n, P c := by
  refine digits_induction (P := fun _ text => ∀ c ∈ text, P c) hb ?_ ?_ n
  · intro d hd c hc
    rw [List.mem_singleton.mp hc]
    exact h d hd
  · intro n d _ hd ih c hc
    rcases List.mem_append.mp hc with hc | hc
    · exact ih c hc
    · rw [List.mem_singleton.mp hc]
      exact h d hd

/-- The number that a row of digits stands for. -/
def value (digit : Char → Nat) (b : Nat) (text : List Char) : Nat :=
  text.foldl (fun n c => n * b + digit c) 0

section value

variable {digit : Char → Nat} {text : List Char}

@[simp] theorem value_nil : value digit b [] = 0 := rfl

@[simp] theorem value_snoc : value digit b (text ++ [c]) = value digit b text * b + digit c := by
  simp [value]

theorem value_toDigits (hb : 1 < b) (h : ∀ d < b, digit d.digitChar = d) (n : Nat) :
    value digit b (Nat.toDigits b n) = n := by
  refine digits_induction (P := fun n text => value digit b text = n) hb ?_ ?_ n
  · intro d hd
    simp [value, h d hd]
  · intro n d _ hd ih
    rw [value_snoc, ih, h d hd]

end value

end numerals
