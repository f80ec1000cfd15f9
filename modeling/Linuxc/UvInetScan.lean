-- The second loop of `inet_ntop6`: it looks for the run of zero words that `::`
-- stands for, and finds the first of the longest.
import Linuxc.UvInet

namespace linuxc.inet

/-! ## The run that `::` stands for -/

/-- The words from `b` on are `k` zeros, at least one. -/
def IsRun (words : List Nat) (b k : Nat) : Prop :=
  1 ≤ k ∧ ∀ j, b ≤ j → j < b + k → words[j]? = some 0

/-- The first of the longest runs of zeros; the base is -1 when there is none. -/
structure Best (words : List Nat) (r : Zeros) : Prop where
  none : r.base = -1 → ∀ b k, ¬ IsRun words b k
  some : r.base ≠ -1 → ∃ b : Nat, r.base = b ∧ IsRun words b r.len ∧
    ∀ b' k, IsRun words b' k → k ≤ r.len ∧ (k = r.len → b ≤ b')

/-- The words so far: `best` is right for those before `stop`, and from `stop` on there are zeros, which
are in `cur`. -/
structure Scanned (words : List Nat) (best cur : Zeros) (stop : Nat) : Prop where
  best : Best (words.take stop) best
  stop_le : stop ≤ words.length
  zeros : ∀ j, stop ≤ j → j < words.length → words[j]? = some 0
  before : ∀ j, j + 1 = stop → words[j]? ≠ some 0
  closed : stop = words.length → cur.base = -1
  opened : stop < words.length → cur = ⟨stop, words.length - stop⟩

variable {words : List Nat} {best cur r : Zeros} {stop b k : Nat}

theorem isRun_le (h : IsRun words b k) : b + k ≤ words.length := by
  have hlast := h.2 (b + k - 1) (by have := h.1; omega) (by have := h.1; omega)
  have := (List.getElem?_eq_some_iff.mp hlast).1
  have := h.1
  omega

theorem isRun_snoc {word : Nat} (hword : word ≠ 0) : IsRun (words ++ [word]) b k ↔ IsRun words b k := by
  constructor
  · intro h
    refine ⟨h.1, fun j hb hk => ?_⟩
    have hj := h.2 j hb hk
    by_cases hlt : j < words.length
    · rwa [List.getElem?_append_left hlt] at hj
    · rw [List.getElem?_append_right (by omega)] at hj
      obtain ⟨hjlt, hzero⟩ := List.getElem?_eq_some_iff.mp hj
      have : j - words.length = 0 := by simpa using hjlt
      simp [this] at hzero
      exact absurd hzero hword
  · intro h
    refine ⟨h.1, fun j hb hk => ?_⟩
    have hle := isRun_le h
    rw [List.getElem?_append_left (by omega)]
    exact h.2 j hb hk

theorem best_snoc {word : Nat} (hword : word ≠ 0) (h : Best words r) : Best (words ++ [word]) r where
  none := fun hr b k hrun => h.none hr b k ((isRun_snoc hword).mp hrun)
  some := by
    intro hr
    obtain ⟨b, hb, hrun, hall⟩ := h.some hr
    exact ⟨b, hb, (isRun_snoc hword).mpr hrun, fun b' k hk => hall b' k ((isRun_snoc hword).mp hk)⟩

/-- A run is on one side of a word that is not zero. -/
theorem isRun_split (h : Scanned words best cur stop) (hrun : IsRun words b k) :
    IsRun (words.take stop) b k ∨ stop ≤ b := by
  by_cases hb : stop ≤ b
  · exact .inr hb
  · left
    have hend : b + k ≤ stop := by
      by_contra hlong
      exact h.before (stop - 1) (by omega) (hrun.2 (stop - 1) (by omega) (by omega))
    refine ⟨hrun.1, fun j hj hk => ?_⟩
    rw [List.getElem?_take_of_lt (by omega)]
    exact hrun.2 j hj hk

theorem isRun_of_take (h : IsRun (words.take stop) b k) : IsRun words b k := by
  have hle := isRun_le h
  rw [List.length_take] at hle
  refine ⟨h.1, fun j hj hk => ?_⟩
  have := h.2 j hj hk
  rwa [List.getElem?_take_of_lt (by omega)] at this

/-- The end of the run in `cur`. -/
theorem best_orLonger (h : Scanned words best cur stop) (hstop : stop < words.length) :
    Best words (best.orLonger cur) := by
  have hcur := h.opened hstop
  have hrun : IsRun words stop (words.length - stop) :=
    ⟨by omega, fun j hj hk => h.zeros j hj (by omega)⟩
  unfold Zeros.orLonger
  split
  · next hlonger =>
    rw [hcur] at hlonger ⊢
    refine ⟨fun hno => by simp at hno, fun _ => ⟨stop, rfl, hrun, fun b k hk => ?_⟩⟩
    have hle := isRun_le hk
    -- A run before `stop` is no longer than `best`, and one after it is part of `cur`.
    rcases isRun_split h hk with hold | hnew
    · by_cases hnone : best.base = -1
      · exact absurd hold (h.best.none hnone b k)
      · obtain ⟨_, _, _, hall⟩ := h.best.some hnone
        have := (hall b k hold).1
        rcases hlonger with hlonger | hlonger
        · exact absurd hlonger hnone
        · simp only at hlonger ⊢
          omega
    · simp only
      omega
  · next hshorter =>
    have hsome : best.base ≠ -1 := fun hno => hshorter (.inl hno)
    have hlen : words.length - stop ≤ best.len := by
      rw [hcur] at hshorter
      exact Nat.not_lt.mp fun hlt => hshorter (.inr hlt)
    obtain ⟨b, hb, hold, hall⟩ := h.best.some hsome
    refine ⟨fun hno => absurd hno hsome, fun _ => ⟨b, hb, isRun_of_take hold, fun b' k hk => ?_⟩⟩
    have hle := isRun_le hk
    rcases isRun_split h hk with hin | hnew
    · exact hall b' k hin
    · have hbefore := isRun_le hold
      rw [List.length_take] at hbefore
      have := hold.1
      omega

theorem best_closed (h : Scanned words best cur stop) (hstop : stop = words.length) :
    Best words best := by
  have hbest := h.best
  rwa [hstop, List.take_length] at hbest

theorem scanned_start : Scanned [] ⟨-1, 0⟩ ⟨-1, 0⟩ 0 where
  best := ⟨fun _ b k h => by have := isRun_le h; have := h.1; simp at *; omega, fun h => by simp at h⟩
  stop_le := by simp
  zeros := by simp
  before := by simp
  closed := by simp
  opened := by simp

/-- A word that is zero. -/
theorem scanned_zero (h : Scanned words best cur stop) :
    Scanned (words ++ [0]) best
      (if cur.base = -1 then ⟨words.length, 1⟩ else { cur with len := cur.len + 1 }) stop where
  best := by
    rw [List.take_append_of_le_length h.stop_le]
    exact h.best
  stop_le := by
    have := h.stop_le
    rw [List.length_append]
    omega
  zeros := by
    intro j hj hlt
    by_cases hold : j < words.length
    · rw [List.getElem?_append_left hold]
      exact h.zeros j hj hold
    · have hj' : j = words.length := by simp at hlt; omega
      simp [hj']
  before := by
    intro j hj
    have := h.stop_le
    rw [List.getElem?_append_left (by omega)]
    exact h.before j hj
  closed := by
    intro hstop
    have := h.stop_le
    simp at hstop
    omega
  opened := by
    intro _
    have hle := h.stop_le
    rcases Nat.lt_or_ge stop words.length with hlt | hge
    · have hcur := h.opened hlt
      rw [hcur, if_neg (by simp only; omega)]
      simp only [List.length_append, List.length_singleton, Zeros.mk.injEq, true_and]
      omega
    · have hstop : stop = words.length := by omega
      rw [if_pos (h.closed hstop), hstop]
      simp

/-- A word that is not zero: all runs have ended. -/
theorem scanned_word {word : Nat} (hword : word ≠ 0) (h : Best words best) (hcur : cur.base = -1) :
    Scanned (words ++ [word]) best cur (words.length + 1) where
  best := by
    rw [List.take_of_length_le (by simp)]
    exact best_snoc hword h
  stop_le := by simp
  zeros := by
    intro j hj hlt
    simp at hlt
    omega
  before := by
    intro j hj
    have : j = words.length := by omega
    simp [this, hword]
  closed := fun _ => hcur
  opened := by
    intro hlt
    simp at hlt

/-- The scan of the words that are left. -/
theorem scan.spec (rest : List Nat) (h : Scanned words best cur stop) :
    ∃ stop, Scanned (words ++ rest) (scan best cur words.length rest).1
      (scan best cur words.length rest).2 stop := by
  induction rest generalizing words best cur stop with
  | nil =>
    rw [List.append_nil]
    exact ⟨stop, h⟩
  | cons word rest ih =>
    have hsplit : words ++ word :: rest = (words ++ [word]) ++ rest := by simp
    have hlen : words.length + 1 = (words ++ [word]).length := by simp
    have hle := h.stop_le
    rw [scan, hsplit, hlen]
    split
    · next hzero =>
      subst hzero
      exact ih (scanned_zero h)
    · next hword =>
      split
      · next hopen =>
        have hlt : stop < words.length := by
          by_contra hge
          exact hopen (h.closed (by omega))
        exact ih (scanned_word hword (best_orLonger h hlt) rfl)
      · next hclosed =>
        rw [Decidable.not_not] at hclosed
        have hstop : stop = words.length := by
          by_contra hne
          have hcur := h.opened (by omega)
          rw [hcur] at hclosed
          simp at hclosed
        exact ih (scanned_word hword (best_closed h hstop) hclosed)

/-- What `::` stands for: the first of the longest runs of zero words, if that has at least two words. -/
inductive Chosen (words : List Nat) (r : Zeros) : Prop
  | none (hr : r.base = -1) (hall : ∀ b k, IsRun words b k → k < 2)
  | some (b : Nat) (hr : r.base = b) (hlen : 2 ≤ r.len) (hrun : IsRun words b r.len)
      (hall : ∀ b' k, IsRun words b' k → k ≤ r.len ∧ (k = r.len → b ≤ b'))

/-- The last run ends with the words. -/
theorem best_end (h : Scanned words best cur stop) :
    Best words (if cur.base ≠ -1 then best.orLonger cur else best) := by
  have hle := h.stop_le
  split
  · next hopen =>
    have hlt : stop < words.length := by
      by_contra hge
      exact hopen (h.closed (by omega))
    exact best_orLonger h hlt
  · next hclosed =>
    rw [Decidable.not_not] at hclosed
    have hstop : stop = words.length := by
      by_contra hne
      have hcur := h.opened (by omega)
      rw [hcur] at hclosed
      simp at hclosed
    exact best_closed h hstop

/-- A run of one word is none. -/
theorem chosen_of_best (h : Best words r) :
    Chosen words (if r.base ≠ -1 ∧ r.len < 2 then { r with base := -1 } else r) := by
  split
  · next hshort =>
    obtain ⟨b, _, _, hall⟩ := h.some hshort.1
    refine .none rfl fun b' k hk => ?_
    have := (hall b' k hk).1
    omega
  · next hlong =>
    by_cases hnone : r.base = -1
    · exact .none hnone fun b k hk => absurd hk (h.none hnone b k)
    · obtain ⟨b, hb, hrun, hall⟩ := h.some hnone
      have hlen : 2 ≤ r.len := by
        by_contra hlt
        exact hlong ⟨hnone, by omega⟩
      exact .some b hb hlen hrun hall

theorem bestRun.spec (words : List Nat) : Chosen words (bestRun words) := by
  obtain ⟨stop, h⟩ := scan.spec words scanned_start
  rw [List.nil_append] at h
  exact chosen_of_best (best_end h)

end linuxc.inet
