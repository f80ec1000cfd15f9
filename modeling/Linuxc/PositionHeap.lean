-- Binary heaps by position: the item at position i is above those at 2 * i and
-- 2 * i + 1, and the least is at position 1. An item that is out of order rises
-- or sinks by one exchange at a time; what each exchange keeps is stated here.
import Mathlib.Order.Lattice
import Mathlib.Logic.Function.Basic

namespace position_heap

variable {α κ : Type} [LinearOrder κ] {key : α → κ} {a : Nat → α} {n i j : Nat}

/-! ## Items -/

/-- The items at two positions change places. -/
def exchange (a : Nat → α) (i j : Nat) : Nat → α := fun k =>
  if k = i then a j else if k = j then a i else a k

omit [LinearOrder κ] in
@[simp] theorem exchange_left : exchange a i j i = a j := if_pos rfl

omit [LinearOrder κ] in
@[simp] theorem exchange_right : exchange a i j j = a i := by
  unfold exchange
  split
  · rename_i h
    rw [h]
  · exact if_pos rfl

omit [LinearOrder κ] in
theorem exchange_other {k : Nat} (hi : k ≠ i) (hj : k ≠ j) : exchange a i j k = a k := by
  unfold exchange
  rw [if_neg hi, if_neg hj]

/-- The item is at one of the first `n` positions. -/
def Has (a : Nat → α) (n : Nat) (x : α) : Prop := ∃ k, 1 ≤ k ∧ k ≤ n ∧ a k = x

/-- No item is at two positions. -/
def Distinct (a : Nat → α) (n : Nat) : Prop :=
  ∀ k l, 1 ≤ k → k ≤ n → 1 ≤ l → l ≤ n → a k = a l → k = l

omit [LinearOrder κ] in
theorem Distinct.eq_iff {k l : Nat} (ha : Distinct a n) (hk : 1 ≤ k) (hkn : k ≤ n) (hl : 1 ≤ l)
    (hln : l ≤ n) : a k = a l ↔ k = l := by
  constructor
  · exact ha k l hk hkn hl hln
  · intro h
    rw [h]

omit [LinearOrder κ] in
theorem has_exchange {x : α} (hi : 1 ≤ i) (hin : i ≤ n) (hj : 1 ≤ j) (hjn : j ≤ n) :
    Has (exchange a i j) n x ↔ Has a n x := by
  have hone : ∀ {b : Nat → α}, Has (exchange b i j) n x → Has b n x := by
    intro b h
    obtain ⟨k, hk, hkn, rfl⟩ := h
    by_cases hki : k = i
    · subst hki
      exact ⟨j, hj, hjn, exchange_left.symm⟩
    · by_cases hkj : k = j
      · subst hkj
        exact ⟨i, hi, hin, exchange_right.symm⟩
      · exact ⟨k, hk, hkn, (exchange_other hki hkj).symm⟩
  constructor
  · exact hone
  · intro h
    have htwice : exchange (exchange a i j) i j = a := by
      funext k
      by_cases hki : k = i
      · subst hki
        simp
      · by_cases hkj : k = j
        · subst hkj
          simp
        · rw [exchange_other hki hkj, exchange_other hki hkj]
    apply hone
    rwa [htwice]

omit [LinearOrder κ] in
theorem distinct_exchange (ha : Distinct a n) (hi : 1 ≤ i) (hin : i ≤ n) (hj : 1 ≤ j) (hjn : j ≤ n) :
    Distinct (exchange a i j) n := by
  intro k l hk hkn hl hln h
  have hplace : ∀ {m}, 1 ≤ m → m ≤ n → ∃ m', 1 ≤ m' ∧ m' ≤ n ∧ exchange a i j m = a m' ∧
      (m = i ∧ m' = j ∨ m = j ∧ m' = i ∨ m ≠ i ∧ m ≠ j ∧ m' = m) := by
    intro m hm hmn
    by_cases hmi : m = i
    · subst hmi
      exact ⟨j, hj, hjn, exchange_left, .inl ⟨rfl, rfl⟩⟩
    · by_cases hmj : m = j
      · subst hmj
        exact ⟨i, hi, hin, exchange_right, .inr (.inl ⟨rfl, rfl⟩)⟩
      · exact ⟨m, hm, hmn, exchange_other hmi hmj, .inr (.inr ⟨hmi, hmj, rfl⟩)⟩
  obtain ⟨k', hk', hkn', hka, hkk⟩ := hplace hk hkn
  obtain ⟨l', hl', hln', hla, hll⟩ := hplace hl hln
  have hsame : k' = l' := ha k' l' hk' hkn' hl' hln' (by rw [← hka, ← hla, h])
  omega

/-! ## Order -/

/-- No item is before the one above it. -/
def Ordered (key : α → κ) (a : Nat → α) (n : Nat) : Prop :=
  ∀ k, 2 ≤ k → k ≤ n → key (a (k / 2)) ≤ key (a k)

/-- The item at the top is the least. -/
theorem Ordered.least (h : Ordered key a n) {k : Nat} (hk : 1 ≤ k) (hkn : k ≤ n) :
    key (a 1) ≤ key (a k) := by
  induction k using Nat.strongRecOn with
  | ind k ih =>
    by_cases hone : k = 1
    · rw [hone]
    · have hup := ih (k / 2) (by omega) (by omega) (by omega)
      exact le_trans hup (h k (by omega) hkn)

/-- All is in order, except that the item at position `i` may be out of it. -/
structure Loose (key : α → κ) (a : Nat → α) (n i : Nat) : Prop where
  off : ∀ k, 2 ≤ k → k ≤ n → k ≠ i → k / 2 ≠ i → key (a (k / 2)) ≤ key (a k)
  around : 2 ≤ i → ∀ k, 2 ≤ k → k ≤ n → k / 2 = i → key (a (i / 2)) ≤ key (a k)

/-- The item at position `i` is in order with those below it. -/
structure Rising (key : α → κ) (a : Nat → α) (n i : Nat) : Prop extends Loose key a n i where
  below : ∀ k, 2 ≤ k → k ≤ n → k / 2 = i → key (a i) ≤ key (a k)

theorem Ordered.loose (h : Ordered key a n) (hin : i ≤ n) : Loose key a n i where
  off := fun k hk hkn _ _ => h k hk hkn
  around := by
    intro hi k hk hkn hki
    have hup := h k hk hkn
    rw [hki] at hup
    exact le_trans (h i hi hin) hup

theorem Rising.ordered (h : Rising key a n i) (htop : 2 ≤ i → i ≤ n → key (a (i / 2)) ≤ key (a i)) :
    Ordered key a n := by
  intro k hk hkn
  by_cases hki : k = i
  · subst hki
    exact htop hk hkn
  · by_cases hup : k / 2 = i
    · rw [hup]
      exact h.below k hk hkn hup
    · exact h.off k hk hkn hki hup

/-- An item that is before the one above it changes places with it. -/
theorem Rising.rise (h : Rising key a n i) (hi : 2 ≤ i) (hin : i ≤ n)
    (hlt : key (a i) < key (a (i / 2))) : Rising key (exchange a (i / 2) i) n (i / 2) where
  off := by
    intro k hk hkn hne hup
    have hki : k ≠ i := by
      rintro rfl
      exact hup rfl
    rw [exchange_other hne hki]
    by_cases hupi : k / 2 = i
    · rw [hupi, exchange_right]
      exact h.around hi k hk hkn hupi
    · rw [exchange_other hup hupi]
      exact h.off k hk hkn hki hupi
  around := by
    intro hi2 k hk hkn hup
    rw [exchange_other (k := i / 2 / 2) (by omega) (by omega)]
    have htop : key (a (i / 2 / 2)) ≤ key (a (i / 2)) :=
      h.off (i / 2) hi2 (by omega) (by omega) (by omega)
    by_cases hki : k = i
    · subst hki
      rw [exchange_right]
      exact htop
    · rw [exchange_other (by omega) hki]
      have hside := h.off k hk hkn hki (by omega)
      rw [hup] at hside
      exact le_trans htop hside
  below := by
    intro k hk hkn hup
    rw [exchange_left]
    by_cases hki : k = i
    · subst hki
      rw [exchange_right]
      exact le_of_lt hlt
    · rw [exchange_other (by omega) hki]
      have hside := h.off k hk hkn hki (by omega)
      rw [hup] at hside
      exact le_trans (le_of_lt hlt) hside

/-- An item changes places with the least of those below it, which is before it. -/
theorem Loose.sink (h : Loose key a n i) (hi : 1 ≤ i) (hj : 2 ≤ j) (hjn : j ≤ n) (hji : j / 2 = i)
    (hlt : key (a j) < key (a i)) (hleast : ∀ k, 2 ≤ k → k ≤ n → k / 2 = i → key (a j) ≤ key (a k)) :
    Loose key (exchange a i j) n j where
  off := by
    intro k hk hkn hkj hup
    by_cases hki : k = i
    · subst hki
      rw [exchange_left, exchange_other (by omega) hup]
      exact h.around hk j hj hjn hji
    · rw [exchange_other hki hkj]
      by_cases hupi : k / 2 = i
      · rw [hupi, exchange_left]
        exact hleast k hk hkn hupi
      · rw [exchange_other hupi hup]
        exact h.off k hk hkn hki hupi
  around := by
    intro _ k hk hkn hup
    have hbelow := h.off k hk hkn (by omega) (by omega)
    rw [hup] at hbelow
    rw [hji, exchange_left, exchange_other (by omega) (by omega)]
    exact hbelow

theorem Loose.rising (h : Loose key a n i)
    (hleast : ∀ k, 2 ≤ k → k ≤ n → k / 2 = i → key (a i) ≤ key (a k)) : Rising key a n i :=
  { h with below := hleast }

/-! ## An item more, an item less -/

theorem Ordered.shorter (h : Ordered key a (n + 1)) : Ordered key a n :=
  fun k hk hkn => h k hk (Nat.le_succ_of_le hkn)

/-- A new item behind all others is in order with those below it: there are none. -/
theorem Ordered.append {x : α} (h : Ordered key a n) :
    Rising key (Function.update a (n + 1) x) (n + 1) (n + 1) where
  off := by
    intro k hk hkn hne hup
    rw [Function.update_of_ne hne, Function.update_of_ne hup]
    exact h k hk (by omega)
  around := by
    intro _ k _ hkn hup
    omega
  below := by
    intro k _ hkn hup
    omega

/-- When another item takes a place, all is in order but this one. -/
theorem Ordered.replace {x : α} (h : Ordered key a n) (hin : i ≤ n) :
    Loose key (Function.update a i x) n i where
  off := by
    intro k hk hkn hne hup
    rw [Function.update_of_ne hne, Function.update_of_ne hup]
    exact h k hk hkn
  around := by
    intro hi k hk hkn hup
    rw [Function.update_of_ne (by omega), Function.update_of_ne (by omega)]
    exact (h.loose hin).around hi k hk hkn hup

omit [LinearOrder κ] in
theorem has_append {x y : α} :
    Has (Function.update a (n + 1) x) (n + 1) y ↔ y = x ∨ Has a n y := by
  constructor
  · rintro ⟨k, hk, hkn, hy⟩
    by_cases hlast : k = n + 1
    · rw [hlast, Function.update_self] at hy
      exact .inl hy.symm
    · rw [Function.update_of_ne hlast] at hy
      exact .inr ⟨k, hk, by omega, hy⟩
  · rintro (hy | ⟨k, hk, hkn, hy⟩)
    · refine ⟨n + 1, by omega, Nat.le_refl _, ?_⟩
      rw [Function.update_self, hy]
    · refine ⟨k, hk, by omega, ?_⟩
      rw [Function.update_of_ne (by omega), hy]

omit [LinearOrder κ] in
/-- The last item takes the place of another, or is the one that goes. -/
theorem has_replace {y : α} (ha : Distinct a (n + 1)) (hi : 1 ≤ i) (hin : i ≤ n + 1) :
    Has (Function.update a i (a (n + 1))) n y ↔ Has a (n + 1) y ∧ y ≠ a i := by
  constructor
  · rintro ⟨k, hk, hkn, rfl⟩
    by_cases hki : k = i
    · rw [hki, Function.update_self]
      refine ⟨⟨n + 1, by omega, Nat.le_refl _, rfl⟩, ?_⟩
      intro h
      have := ha _ _ (by omega) (Nat.le_refl _) hi hin h
      omega
    · rw [Function.update_of_ne hki]
      refine ⟨⟨k, hk, by omega, rfl⟩, ?_⟩
      intro h
      exact hki (ha k i hk (by omega) hi hin h)
  · rintro ⟨⟨k, hk, hkn, rfl⟩, hne⟩
    have hki : k ≠ i := by
      rintro rfl
      exact hne rfl
    by_cases hlast : k = n + 1
    · subst hlast
      exact ⟨i, hi, by omega, Function.update_self _ _ _⟩
    · exact ⟨k, hk, by omega, Function.update_of_ne hki _ _⟩

end position_heap
