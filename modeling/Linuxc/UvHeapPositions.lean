-- The pointers of a heap of libuv and the positions of `position_heap`: what
-- each function does to the pointers is a change of positions. So the heap is
-- in order after every insertion and removal, and it holds the right nodes.
import Mathlib.Data.Set.Insert
import Linuxc.PositionHeap
import Linuxc.UvHeap

namespace linuxc.heap_inl

open position_heap

/-! ## The positions -/

/-- The node at a position, if there is one. -/
def here (a : Nat → Nat) (n k : Nat) : Option Nat := if 1 ≤ k ∧ k ≤ n then some (a k) else none

/-- The pointers of the heap say that `a` are the nodes at the first `n` positions. -/
structure Represents (h : Heap) (a : Nat → Nat) (n : Nat) : Prop where
  nelts : h.nelts = n
  min : h.min = here a n 1
  distinct : Distinct a n
  node : ∀ k, 1 ≤ k → k ≤ n → h.nodes (a k) = ⟨here a n (2 * k), here a n (2 * k + 1), here a n (k / 2)⟩

section positions

variable {h : Heap} {a : Nat → Nat} {n i j k m : Nat}

theorem here_in (hk : 1 ≤ k) (hkn : k ≤ n) : here a n k = some (a k) := if_pos ⟨hk, hkn⟩

theorem here_out (hk : k = 0 ∨ n < k) : here a n k = none := if_neg (by omega)

theorem here_eq_some (ha : Distinct a n) (hk : 1 ≤ k) (hkn : k ≤ n) :
    here a n m = some (a k) ↔ m = k := by
  unfold here
  constructor
  · intro hm
    split at hm
    · rename_i hin
      exact ha m k hin.1 hin.2 hk hkn (Option.some.inj hm)
    · cases hm
  · rintro rfl
    exact if_pos ⟨hk, hkn⟩

theorem here_exchange (hi : 1 ≤ i) (hin : i ≤ n) (hj : 1 ≤ j) (hjn : j ≤ n) :
    here (exchange a i j) n m = if m = i then some (a j) else if m = j then some (a i) else here a n m := by
  unfold here
  by_cases hmi : m = i
  · subst hmi
    simp [hi, hin]
  · by_cases hmj : m = j
    · subst hmj
      simp [hj, hjn, hmi]
    · simp [hmi, hmj, exchange_other]

/-- The nodes that are not in the heap do not matter. -/
theorem Represents.of_nodes {h' : Heap} (hr : Represents h a n) (hnelts : h'.nelts = h.nelts)
    (hmin : h'.min = h.min) (hnodes : ∀ k, 1 ≤ k → k ≤ n → h'.nodes (a k) = h.nodes (a k)) :
    Represents h' a n where
  nelts := hnelts.trans hr.nelts
  min := hmin.trans hr.min
  distinct := hr.distinct
  node := by
    intro k hk hkn
    rw [hnodes k hk hkn]
    exact hr.node k hk hkn

end positions

/-! ## Swaps -/

section swaps

variable {h : Heap} {a : Nat → Nat} {n j : Nat}

/-- What `swap` makes of the pointers, when no node is below itself. -/
theorem swap_nodes {p c y : Nat} {pl pr pp cl cr cp : Option Nat} (hp : h.nodes p = ⟨pl, pr, pp⟩)
    (hc : h.nodes c = ⟨cl, cr, cp⟩) (hne : p ≠ c) (hpl : pl = some c → pr ≠ some c)
    (hpp : pp ≠ some p ∧ pp ≠ some c) (hcl : cl ≠ some c) (hcr : cr ≠ some c) :
    (h.swap p c).nodes y =
      ⟨if y = c then (if pl = some c then some p else pl) else if y = p then cl
        else if pp = some y ∧ (h.nodes y).left = some p then some c else (h.nodes y).left,
       if y = c then (if pl = some c then pr else some p) else if y = p then cr
        else if pp = some y ∧ (h.nodes y).left ≠ some p then some c else (h.nodes y).right,
       if cr = some y ∨ cl = some y then some p
        else if pl = some c ∧ pr = some y ∨ pl ≠ some c ∧ pl = some y then some c
        else if y = p then some c else if y = c then pp else (h.nodes y).parent⟩ := by
  unfold Heap.swap
  by_cases hl : pl = some c
  · have hpr := hpl hl
    simp only [setParent_nodes, setNode_nodes, hp, hc, hl, if_true]
    simp only [relink_nodes, adopt_nodes, setParent_nodes, setLeft_nodes, setNode_nodes, hp, hc, hl,
      hne, hne.symm, if_true, if_false, hcl, hcr, hpr]
    by_cases hyc : y = c
    · subst hyc
      simp [hpp, hne.symm, hcl, hcr]
    · by_cases hyp : y = p
      · subst hyp
        simp [hpp, hne]
        grind
      · simp [hyc, hyp]
        grind
  · simp only [setParent_nodes, setNode_nodes, hp, hc, hl, if_true, if_false]
    simp only [relink_nodes, adopt_nodes, setParent_nodes, setRight_nodes, setNode_nodes, hp, hc, hl,
      hne, hne.symm, if_true, if_false, hcl, hcr]
    by_cases hyc : y = c
    · subst hyc
      simp [hpp, hne.symm, hcl, hcr, hl]
    · by_cases hyp : y = p
      · subst hyp
        simp [hpp, hne]
        grind
      · simp [hyc, hyp]
        grind

theorem swap_min {p c : Nat} {pl pr pp cl cr cp : Option Nat} (hp : h.nodes p = ⟨pl, pr, pp⟩)
    (hc : h.nodes c = ⟨cl, cr, cp⟩) (hne : p ≠ c) (hpl : pl = some c → pr ≠ some c)
    (hcl : cl ≠ some c) (hcr : cr ≠ some c) :
    (h.swap p c).min = if pp = none then some c else h.min := by
  unfold Heap.swap
  by_cases hl : pl = some c
  · have hpr := hpl hl
    simp only [setParent_nodes, setNode_nodes, hp, hc, hl, if_true]
    simp only [relink_min, adopt_nodes, setParent_nodes, setLeft_nodes, setNode_nodes, hp, hc, hl, hne,
      hne.symm, if_true, if_false, hcl, hcr, hpr, adopt_min]
    rfl
  · simp only [setParent_nodes, setNode_nodes, hp, hc, hl, if_true, if_false]
    simp only [relink_min, adopt_nodes, setParent_nodes, setRight_nodes, setNode_nodes, hp, hc, hl, hne,
      hne.symm, if_true, if_false, hcl, hcr, adopt_min]
    rfl

theorem swap_nelts {p c : Nat} : (h.swap p c).nelts = h.nelts := by
  unfold Heap.swap
  simp only [relink_nelts, adopt_nelts]
  split <;> simp only [adopt_nelts] <;> rfl

theorem swap_represents (hr : Represents h a n) (hj : 2 ≤ j) (hjn : j ≤ n) :
    Represents (h.swap (a (j / 2)) (a j)) (exchange a (j / 2) j) n := by
  obtain ⟨i, hi⟩ : ∃ i, i = j / 2 := ⟨_, rfl⟩
  rw [← hi]
  have hd := hr.distinct
  have hp := hr.node i (by omega) (by omega)
  have hc := hr.node j (by omega) (by omega)
  have hne : a i ≠ a j := by
    intro h
    have := hd i j (by omega) (by omega) (by omega) (by omega) h
    omega
  have hpl : here a n (2 * i) = some (a j) → here a n (2 * i + 1) ≠ some (a j) := by
    simp (disch := omega) only [ne_eq, here_eq_some hd]
    omega
  have hpp : here a n (i / 2) ≠ some (a i) ∧ here a n (i / 2) ≠ some (a j) := by
    simp (disch := omega) only [ne_eq, here_eq_some hd]
    omega
  have hcl : here a n (2 * j) ≠ some (a j) := by
    simp (disch := omega) only [ne_eq, here_eq_some hd]
    omega
  have hcr : here a n (2 * j + 1) ≠ some (a j) := by
    simp (disch := omega) only [ne_eq, here_eq_some hd]
    omega
  refine ⟨swap_nelts.trans hr.nelts, ?_, distinct_exchange hd (by omega) (by omega) (by omega) hjn, ?_⟩
  · rw [swap_min hp hc hne hpl hcl hcr, here_exchange (by omega) (by omega) (by omega) hjn, hr.min]
    by_cases hone : i = 1
    · simp [hone, here_out]
    · rw [here_in (by omega) (by omega), if_neg (by simp), if_neg (by omega), if_neg (by omega)]
  · intro k hk hkn
    rw [swap_nodes hp hc hne hpl hpp hcl hcr]
    by_cases hki : k = i
    · subst hki
      simp (disch := omega) only [exchange_left, here_exchange, here_eq_some hd, hne.symm, if_true,
        if_false, Node.mk.injEq, ne_eq]
      refine ⟨?_, ?_, ?_⟩ <;> split_ifs <;> first | rfl | omega
    · by_cases hkj : k = j
      · subst hkj
        simp (disch := omega) only [exchange_right, here_exchange, here_eq_some hd, hne, if_true,
          if_false, Node.mk.injEq, ne_eq]
        refine ⟨?_, ?_, ?_⟩ <;> split_ifs <;> first | rfl | omega
      · simp (disch := omega) only [exchange_other hki hkj, hr.node k hk hkn, here_exchange,
          here_eq_some hd, hd.eq_iff, hki, hkj, if_false, Node.mk.injEq, ne_eq]
        refine ⟨?_, ?_, ?_⟩ <;> split_ifs <;> first | rfl | omega
end swaps

/-! ## Paths -/

section paths

variable {h : Heap} {a : Nat → Nat} {n m : Nat}

/-- Where the pointer to the node at position `m` is. -/
def slot (a : Nat → Nat) (m : Nat) : Slot :=
  if m ≤ 1 then .min else if m % 2 = 1 then .right (a (m / 2)) else .left (a (m / 2))

/-- Where the pointer to the node above that is. -/
def slotAbove (a : Nat → Nat) (m : Nat) : Slot := if m ≤ 1 then .min else slot a (m / 2)

theorem read_slot (hr : Represents h a n) (hm : 1 ≤ m) (hmn : m / 2 ≤ n) :
    h.read (slot a m) = here a n m := by
  unfold slot
  split
  · rw [show m = 1 by omega]
    exact hr.min
  · have hnode := hr.node (m / 2) (by omega) hmn
    split
    · simp only [Heap.read, hnode]
      congr 1
      omega
    · simp only [Heap.read, hnode]
      congr 1
      omega

theorem read_slotAbove (hr : Represents h a n) (hm : 1 ≤ m) (hmn : m / 2 ≤ n) (hmin : m = 1 → n = 0) :
    h.read (slotAbove a m) = here a n (m / 2) := by
  unfold slotAbove
  split
  · rename_i hle
    have hone : m = 1 := by omega
    rw [Heap.read, hr.min, hmin hone, here_out (by omega), here_out (by omega)]
  · exact read_slot hr (by omega) (by omega)

/-- The bits of a position lead to it from the root, before those that `path` has already. -/
theorem walk_path (hr : Represents h a n) {fuel k path : Nat} (hm : 1 ≤ m) (hmn : m / 2 ≤ n)
    (hfuel : m < fuel) :
    (do let (k, path) ← pathLoop fuel m k path
        h.walk k path .min .min) = h.walk k path (slotAbove a m) (slot a m) := by
  induction fuel generalizing m k path with
  | zero => omega
  | succ fuel ih =>
    unfold pathLoop
    split
    · rename_i htwo
      rw [ih (by omega) (by omega) (by omega), Heap.walk, read_slot hr (by omega) (by omega),
        here_in (by omega) hmn]
      have hbit : (2 * path + m % 2) % 2 = m % 2 := by omega
      have hrest : (2 * path + m % 2) / 2 = path := by omega
      have habove : slotAbove a m = slot a (m / 2) := if_neg (by omega)
      have hslot : slot a m = if m % 2 = 1 then .right (a (m / 2)) else .left (a (m / 2)) :=
        if_neg (by omega)
      simp only [hbit, hrest, habove, hslot, Option.bind_eq_bind, Option.bind_some]
    · have hone : m = 1 := by omega
      subst hone
      rfl

theorem find_eq (hr : Represents h a n) (hm : 1 ≤ m) (hmn : m / 2 ≤ n) :
    h.find m = some (slotAbove a m, slot a m) := walk_path hr hm hmn (by omega)

end paths

/-! ## A node more, a node less, another node -/

section changes

variable {h : Heap} {a : Nat → Nat} {n i k m x : Nat} {v : Option Nat}

theorem write_nodes {s : Slot} {y : Nat} :
    (h.write s v).nodes y = ⟨if s = .left y then v else (h.nodes y).left,
      if s = .right y then v else (h.nodes y).right, (h.nodes y).parent⟩ := by
  cases s with
  | min => simp [Heap.write]
  | left z => simp [Heap.write, setLeft_nodes, eq_comm]
  | right z => simp [Heap.write, setRight_nodes, eq_comm]

theorem write_min {s : Slot} : (h.write s v).min = if s = .min then v else h.min := by
  cases s <;> rfl

theorem write_nelts {s : Slot} : (h.write s v).nelts = h.nelts := by
  cases s <;> rfl

theorem slot_eq_left (ha : Distinct a n) (hk : 1 ≤ k) (hkn : k ≤ n) (hm : m / 2 ≤ n) :
    slot a m = .left (a k) ↔ m = 2 * k := by
  unfold slot
  split_ifs with hone hodd
  · simp; omega
  · simp; omega
  · rw [Slot.left.injEq, ha.eq_iff (by omega) hm hk hkn]
    omega

theorem slot_eq_right (ha : Distinct a n) (hk : 1 ≤ k) (hkn : k ≤ n) (hm : m / 2 ≤ n) :
    slot a m = .right (a k) ↔ m = 2 * k + 1 := by
  unfold slot
  split_ifs with hone hodd
  · simp; omega
  · rw [Slot.right.injEq, ha.eq_iff (by omega) hm hk hkn]
    omega
  · simp; omega

theorem slot_eq_min : slot a m = .min ↔ m ≤ 1 := by
  unfold slot
  split_ifs <;> simp [*]

theorem here_update (hi : 1 ≤ i) (hin : i ≤ n) :
    here (Function.update a i x) n m = if m = i then some x else here a n m := by
  unfold here
  by_cases hmi : m = i
  · subst hmi
    simp [hi, hin]
  · simp [hmi]

theorem distinct_update (ha : Distinct a n) (hx : ∀ k, 1 ≤ k → k ≤ n → k ≠ i → a k ≠ x) :
    Distinct (Function.update a i x) n := by
  intro k l hk hkn hl hln h
  by_cases hki : k = i
  · by_cases hli : l = i
    · omega
    · rw [hki, Function.update_self, Function.update_of_ne hli] at h
      exact absurd h.symm (hx l hl hln hli)
  · by_cases hli : l = i
    · rw [hli, Function.update_self, Function.update_of_ne hki] at h
      exact absurd h (hx k hk hkn hki)
    · rw [Function.update_of_ne hki, Function.update_of_ne hli] at h
      exact ha k l hk hkn hl hln h

theorem here_succ (hm : m ≠ n + 1) : here a (n + 1) m = here a n m := by
  unfold here
  split_ifs <;> first | rfl | omega

theorem here_append : here (Function.update a (n + 1) x) (n + 1) m = if m = n + 1 then some x else here a n m := by
  rw [here_update (by omega) (Nat.le_refl _)]
  split_ifs with hm
  · rfl
  · exact here_succ hm

theorem append_represents (hr : Represents h a n) (hx : ∀ k, 1 ≤ k → k ≤ n → a k ≠ x)
    (hnode : h.nodes x = ⟨none, none, here a n ((n + 1) / 2)⟩) :
    Represents { h.write (slot a (n + 1)) (some x) with nelts := n + 1 } (Function.update a (n + 1) x)
      (n + 1) := by
  have hd : Distinct a n := hr.distinct
  refine ⟨rfl, ?_, ?_, ?_⟩
  · simp only [write_min, slot_eq_min, here_append, hr.min]
    split_ifs <;> first | rfl | omega
  · intro k l hk hkn hl hln h
    by_cases hkn1 : k = n + 1
    · by_cases hln1 : l = n + 1
      · omega
      · rw [hkn1, Function.update_self, Function.update_of_ne hln1] at h
        exact absurd h.symm (hx l hl (by omega))
    · by_cases hln1 : l = n + 1
      · rw [hln1, Function.update_self, Function.update_of_ne hkn1] at h
        exact absurd h (hx k hk (by omega))
      · rw [Function.update_of_ne hkn1, Function.update_of_ne hln1] at h
        exact hd k l hk (by omega) hl (by omega) h
  · intro k hk hkn
    simp only [write_nodes, here_append]
    by_cases hkn1 : k = n + 1
    · subst hkn1
      have hleft : slot a (n + 1) ≠ .left x := by
        unfold slot
        split_ifs <;> simp
        exact hx _ (by omega) (by omega)
      have hright : slot a (n + 1) ≠ .right x := by
        unfold slot
        split_ifs <;> simp
        exact hx _ (by omega) (by omega)
      rw [Function.update_self, if_neg hleft, if_neg hright, hnode]
      simp only [Node.mk.injEq]
      refine ⟨?_, ?_, ?_⟩
      · rw [if_neg (by omega), here_out (by omega)]
      · rw [if_neg (by omega), here_out (by omega)]
      · rw [if_neg (by omega)]
    · rw [Function.update_of_ne hkn1, hr.node k hk (by omega)]
      simp (disch := omega) only [slot_eq_left hd, slot_eq_right hd, Node.mk.injEq]
      refine ⟨?_, ?_, ?_⟩
      · split_ifs <;> first | rfl | omega
      · split_ifs <;> first | rfl | omega
      · rw [if_neg (by omega)]

theorem chop_represents (hr : Represents h a (n + 1)) :
    Represents ({ h with nelts := n }.write (slot a (n + 1)) none) a n := by
  have hd : Distinct a (n + 1) := hr.distinct
  refine ⟨write_nelts, ?_, fun k l hk hkn hl hln => hd k l hk (by omega) hl (by omega), ?_⟩
  · simp only [write_min, slot_eq_min, hr.min]
    split_ifs
    · exact (here_out (by omega)).symm
    · exact here_succ (by omega)
  · intro k hk hkn
    have hnode := hr.node k hk (by omega)
    simp (disch := omega) only [write_nodes, slot_eq_left hd, slot_eq_right hd, hnode, Node.mk.injEq]
    refine ⟨?_, ?_, ?_⟩
    · split_ifs
      · exact (here_out (by omega)).symm
      · exact here_succ (by omega)
    · split_ifs
      · exact (here_out (by omega)).symm
      · exact here_succ (by omega)
    · exact here_succ (by omega)

theorem replace_nodes {y c : Nat} {l r p : Option Nat} (hx : h.nodes x = ⟨l, r, p⟩) (hne : x ≠ c)
    (hl : l ≠ some x ∧ l ≠ some c) (hr : r ≠ some x ∧ r ≠ some c) (hp : p ≠ some x ∧ p ≠ some c) :
    (h.replace x c).nodes y =
      ⟨if y = c then l else if p = some y ∧ (h.nodes y).left = some x then some c else (h.nodes y).left,
       if y = c then r else if p = some y ∧ (h.nodes y).left ≠ some x then some c else (h.nodes y).right,
       if l = some y ∨ r = some y then some c else if y = c then p else (h.nodes y).parent⟩ := by
  unfold Heap.replace
  simp only [relink_nodes, adopt_nodes, setParent_nodes, setRight_nodes, setLeft_nodes, hx, hne, hl.1, hr.1,
    if_true, if_false]
  by_cases hyc : y = c
  · subst hyc
    simp [hl, hr, hp]
  · simp [hyc]
    grind

theorem replace_min {c : Nat} (hne : x ≠ c)
    (hl : (h.nodes x).left ≠ some x) (hr : (h.nodes x).right ≠ some x) :
    (h.replace x c).min = if (h.nodes x).parent = none then some c else h.min := by
  unfold Heap.replace
  simp only [relink_min, adopt_nodes, setParent_nodes, setRight_nodes, setLeft_nodes, hne, hl, hr,
    if_true, if_false, adopt_min]
  rfl

theorem replace_nelts {c : Nat} : (h.replace x c).nelts = h.nelts := by
  unfold Heap.replace
  simp only [relink_nelts, adopt_nelts]
  rfl

theorem replace_represents {c : Nat} (hr : Represents h a n) (hi : 1 ≤ i) (hin : i ≤ n)
    (hc : ∀ k, 1 ≤ k → k ≤ n → a k ≠ c) :
    Represents (h.replace (a i) c) (Function.update a i c) n := by
  have hd : Distinct a n := hr.distinct
  have hnode := hr.node i hi hin
  have hself : ∀ m, m ≠ i → here a n m ≠ some (a i) ∧ here a n m ≠ some c := by
    intro m hm
    constructor
    · simpa only [ne_eq, here_eq_some hd hi hin] using hm
    · unfold here
      split_ifs with hin
      · simpa using hc m hin.1 hin.2
      · simp
  have hl := hself (2 * i) (by omega)
  have hrt := hself (2 * i + 1) (by omega)
  have hp := hself (i / 2) (by omega)
  refine ⟨replace_nelts.trans hr.nelts, ?_, distinct_update hd fun k hk hkn _ => hc k hk hkn, ?_⟩
  · rw [replace_min (hc i hi hin) (by rw [hnode]; exact hl.1) (by rw [hnode]; exact hrt.1), hnode,
      here_update hi hin, hr.min]
    by_cases hone : i = 1
    · rw [if_pos (here_out (by omega)), if_pos hone.symm]
    · rw [here_in (k := i / 2) (by omega) (by omega), if_neg (by simp), if_neg (Ne.symm hone)]
  · intro k hk hkn
    rw [replace_nodes hnode (hc i hi hin) hl hrt hp]
    by_cases hki : k = i
    · subst hki
      simp (disch := omega) only [Function.update_self, here_update hi hin, hl.2, hrt.2, or_self,
        if_true, if_false, Node.mk.injEq]
      refine ⟨?_, ?_, ?_⟩ <;> split_ifs <;> first | rfl | omega
    · simp (disch := omega) only [Function.update_of_ne hki, here_update hi hin, hr.node k hk hkn,
        here_eq_some hd, hc k hk hkn, if_false, Node.mk.injEq, ne_eq]
      refine ⟨?_, ?_, ?_⟩ <;> split_ifs <;> first | rfl | omega
end changes
/-! ## The loops -/

section loops

variable {κ : Type} [LinearOrder κ] {key : Nat → κ} {less_than : Nat → Nat → Bool} {h : Heap}
  {a : Nat → Nat} {n i fuel : Nat}

/-- The function that a heap is given compares the keys of the nodes. -/
def Compares (less_than : Nat → Nat → Bool) (key : Nat → κ) : Prop :=
  ∀ x y, less_than x y = true ↔ key x < key y

/-- A node that is in order with those below it rises until it is in order. -/
theorem up_spec (hc : Compares less_than key) (hr : Represents h a n) (ho : Rising key a n i)
    (hi : 1 ≤ i) (hin : i ≤ n) (hfuel : i ≤ fuel) :
    ∃ h' b, Heap.up less_than fuel h (a i) = some h' ∧ Represents h' b n ∧ Ordered key b n ∧
      ∀ x, Has b n x ↔ Has a n x := by
  induction fuel generalizing h a i with
  | zero => omega
  | succ fuel ih =>
    unfold Heap.up
    simp only [hr.node i hi hin]
    by_cases hone : i = 1
    · rw [here_out (k := i / 2) (by omega)]
      exact ⟨h, a, rfl, hr, ho.ordered (by omega), fun _ => Iff.rfl⟩
    · rw [here_in (k := i / 2) (by omega) (by omega)]
      by_cases hless : less_than (a i) (a (i / 2)) = true
      · have hrise := ho.rise (by omega) hin ((hc _ _).mp hless)
        obtain ⟨h', b, hup, hb, hob, hhas⟩ := ih (swap_represents hr (by omega) hin) hrise (by omega)
          (by omega) (by omega)
        rw [exchange_left] at hup
        refine ⟨h', b, ?_, hb, hob, fun x => ?_⟩
        · simpa only [hless, if_true] using hup
        · rw [hhas, has_exchange (by omega) (by omega) hi hin]
      · refine ⟨h, a, ?_, hr, ho.ordered fun _ _ => ?_, fun _ => Iff.rfl⟩
        · simp only [hless]
          rfl
        · rw [hc] at hless
          exact not_lt.mp hless

/-- What `smallest` is: the node itself, when none below it is before it, and else the first of those
below. -/
theorem smallest_spec (hc : Compares less_than key) (hr : Represents h a n) (hi : 1 ≤ i) (hin : i ≤ n) :
    (h.smallest less_than (a i) = a i ∧ ∀ k, 2 ≤ k → k ≤ n → k / 2 = i → key (a i) ≤ key (a k)) ∨
    ∃ j, 2 ≤ j ∧ j ≤ n ∧ j / 2 = i ∧ h.smallest less_than (a i) = a j ∧ key (a j) < key (a i) ∧
      ∀ k, 2 ≤ k → k ≤ n → k / 2 = i → key (a j) ≤ key (a k) := by
  have hless : ∀ x y, (less_than x y = true) = (key x < key y) := fun x y => propext (hc x y)
  have hbelow : ∀ {x}, (2 * i ≤ n → key (a x) ≤ key (a (2 * i))) →
      (2 * i + 1 ≤ n → key (a x) ≤ key (a (2 * i + 1))) →
      ∀ k, 2 ≤ k → k ≤ n → k / 2 = i → key (a x) ≤ key (a k) := by
    intro x hl hrt k hk hkn hki
    by_cases hleft : k = 2 * i
    · rw [hleft]
      exact hl (by omega)
    · rw [show k = 2 * i + 1 by omega]
      exact hrt (by omega)
  unfold Heap.smallest
  simp only [hr.node i hi hin]
  by_cases hl : 2 * i ≤ n
  · rw [here_in (k := 2 * i) (by omega) hl]
    by_cases hrt : 2 * i + 1 ≤ n
    · rw [here_in (k := 2 * i + 1) (by omega) hrt]
      simp only [hless]
      by_cases hlt : key (a (2 * i)) < key (a i)
      · rw [if_pos hlt]
        by_cases hrlt : key (a (2 * i + 1)) < key (a (2 * i))
        · rw [if_pos hrlt]
          exact .inr ⟨2 * i + 1, by omega, hrt, by omega, rfl, lt_trans hrlt hlt,
            hbelow (fun _ => le_of_lt hrlt) fun _ => le_rfl⟩
        · rw [if_neg hrlt]
          exact .inr ⟨2 * i, by omega, hl, by omega, rfl, hlt,
            hbelow (fun _ => le_rfl) fun _ => not_lt.mp hrlt⟩
      · rw [if_neg hlt]
        by_cases hrlt : key (a (2 * i + 1)) < key (a i)
        · rw [if_pos hrlt]
          exact .inr ⟨2 * i + 1, by omega, hrt, by omega, rfl, hrlt,
            hbelow (fun _ => le_trans (le_of_lt hrlt) (not_lt.mp hlt)) fun _ => le_rfl⟩
        · rw [if_neg hrlt]
          exact .inl ⟨rfl, hbelow (fun _ => not_lt.mp hlt) fun _ => not_lt.mp hrlt⟩
    · rw [here_out (k := 2 * i + 1) (by omega)]
      simp only [hless]
      by_cases hlt : key (a (2 * i)) < key (a i)
      · rw [if_pos hlt]
        exact .inr ⟨2 * i, by omega, hl, by omega, rfl, hlt, hbelow (fun _ => le_rfl) (by omega)⟩
      · rw [if_neg hlt]
        exact .inl ⟨rfl, hbelow (fun _ => not_lt.mp hlt) (by omega)⟩
  · rw [here_out (k := 2 * i) (by omega), here_out (k := 2 * i + 1) (by omega)]
    exact .inl ⟨rfl, hbelow (by omega) (by omega)⟩

/-- A node that may be out of order sinks until it is in order with those below it. -/
theorem down_spec (hc : Compares less_than key) (hr : Represents h a n) (ho : Loose key a n i)
    (hi : 1 ≤ i) (hin : i ≤ n) (hfuel : n - i < fuel) :
    ∃ h' b j, Heap.down less_than fuel h (a i) = some h' ∧ Represents h' b n ∧ Rising key b n j ∧
      1 ≤ j ∧ j ≤ n ∧ b j = a i ∧ ∀ x, Has b n x ↔ Has a n x := by
  induction fuel generalizing h a i with
  | zero => omega
  | succ fuel ih =>
    unfold Heap.down
    simp only
    rcases smallest_spec hc hr hi hin with ⟨heq, hleast⟩ | ⟨j, hj, hjn, hji, heq, hlt, hleast⟩
    · rw [if_pos heq]
      exact ⟨h, a, i, rfl, hr, ho.rising hleast, hi, hin, rfl, fun _ => Iff.rfl⟩
    · have hne : h.smallest less_than (a i) ≠ a i := by
        rw [heq]
        intro h
        rw [h] at hlt
        exact lt_irrefl _ hlt
      rw [if_neg hne, heq]
      have hsink := ho.sink hi hj hjn hji hlt hleast
      have hswap := swap_represents hr hj hjn
      rw [hji] at hswap
      obtain ⟨h', b, l, hdown, hb, hob, hl, hln, hbl, hhas⟩ := ih hswap hsink (by omega) hjn (by omega)
      rw [exchange_right] at hdown hbl
      refine ⟨h', b, l, hdown, hb, hob, hl, hln, hbl, fun x => ?_⟩
      rw [hhas, has_exchange hi hin (by omega) hjn]

end loops

/-! ## The heap of a set of nodes -/

section sets

variable {κ : Type} [LinearOrder κ] {key : Nat → κ} {less_than : Nat → Nat → Bool} {h : Heap}
  {s : Set Nat} {x : Nat}

/-- The heap is complete and in order, and the nodes in it are those of `s`. -/
def Holds (key : Nat → κ) (h : Heap) (s : Set Nat) : Prop :=
  ∃ a n, Represents h a n ∧ Ordered key a n ∧ ∀ x, Has a n x ↔ x ∈ s

/-- The keys of other nodes do not matter. -/
theorem Holds.of_keys {key' : Nat → κ} (hh : Holds key h s) (hkey : ∀ x ∈ s, key' x = key x) :
    Holds key' h s := by
  obtain ⟨a, n, hr, ho, hs⟩ := hh
  have hat : ∀ k, 1 ≤ k → k ≤ n → key' (a k) = key (a k) := fun k hk hkn =>
    hkey _ ((hs _).mp ⟨k, hk, hkn, rfl⟩)
  refine ⟨a, n, hr, fun k hk hkn => ?_, hs⟩
  rw [hat _ (by omega) (by omega), hat _ (by omega) hkn]
  exact ho k hk hkn

theorem init_holds : Holds key h.init ∅ := by
  refine ⟨id, 0, ⟨rfl, rfl, fun k l hk hkn => ?_, fun k hk hkn => ?_⟩, fun k hk hkn => ?_, fun x => ?_⟩
  · omega
  · omega
  · omega
  · constructor
    · rintro ⟨k, hk, hkn, -⟩
      omega
    · intro hx
      exact absurd hx (Set.notMem_empty x)

/-- `min` is the first of the nodes, and NULL when there is none. -/
theorem min_spec (hh : Holds key h s) :
    (h.min = none ∧ s = ∅ ∧ h.nelts = 0) ∨
      ∃ x ∈ s, h.min = some x ∧ (∀ y ∈ s, key x ≤ key y) ∧ 1 ≤ h.nelts := by
  obtain ⟨a, n, hr, ho, hs⟩ := hh
  by_cases hn : n = 0
  · refine .inl ⟨hr.min.trans (here_out (by omega)), ?_, hr.nelts.trans hn⟩
    ext x
    rw [← hs]
    constructor
    · rintro ⟨k, hk, hkn, -⟩
      omega
    · intro hx
      exact absurd hx (Set.notMem_empty x)
  · refine .inr ⟨a 1, (hs _).mp ⟨1, le_rfl, by omega, rfl⟩, hr.min.trans (here_in le_rfl (by omega)),
      ?_, ?_⟩
    · intro y hy
      obtain ⟨k, hk, hkn, rfl⟩ := (hs y).mpr hy
      exact ho.least hk hkn
    · rw [hr.nelts]
      omega

theorem insert_spec (hc : Compares less_than key) (hh : Holds key h s) (hx : x ∉ s) :
    ∃ h', h.insert less_than x = some h' ∧ Holds key h' (insert x s) ∧ h'.nelts = h.nelts + 1 := by
  obtain ⟨a, n, hr, ho, hs⟩ := hh
  have hfresh : ∀ k, 1 ≤ k → k ≤ n → a k ≠ x := by
    rintro k hk hkn rfl
    exact hx ((hs _).mp ⟨k, hk, hkn, rfl⟩)
  have hclear : Represents (h.setNode x ⟨none, none, none⟩) a n :=
    hr.of_nodes rfl rfl fun k hk hkn => by rw [setNode_nodes, if_neg (hfresh k hk hkn)]
  have hfind := find_eq hclear (m := 1 + n) (by omega) (by omega)
  have habove : (h.setNode x ⟨none, none, none⟩).read (slotAbove a (1 + n)) = here a n ((n + 1) / 2) := by
    rw [read_slotAbove hclear (by omega) (by omega) (by omega), Nat.add_comm]
  have hset : Represents ((h.setNode x ⟨none, none, none⟩).setParent x (here a n ((n + 1) / 2))) a n :=
    hclear.of_nodes rfl rfl fun k hk hkn => by
      simp only [setParent_nodes, if_neg (hfresh k hk hkn)]
  have happend := append_represents (x := x) hset hfresh (by simp [setParent_nodes])
  obtain ⟨h', b, hup, hb, hob, hhas⟩ := up_spec hc happend ho.append (by omega)
    (Nat.le_refl _) (Nat.le_refl (n + 1))
  rw [Function.update_self] at hup
  refine ⟨h', ?_, ⟨b, n + 1, hb, hob, fun y => ?_⟩, ?_⟩
  · unfold Heap.insert
    simp only [setNode_nelts, hr.nelts, hfind, Option.bind_eq_bind, Option.bind_some, habove, write_nelts,
      hset.nelts]
    rw [Nat.add_comm 1 n]
    exact hup
  · rw [hhas, has_append, hs]
    rfl
  · rw [hb.nelts, hr.nelts]

theorem remove_spec (hc : Compares less_than key) (hh : Holds key h s) (hx : x ∈ s) :
    ∃ h', h.remove less_than (some x) = some h' ∧ Holds key h' (s \ {x}) ∧ h'.nelts + 1 = h.nelts := by
  obtain ⟨a, n, hr, ho, hs⟩ := hh
  obtain ⟨i, hi, hin, rfl⟩ := (hs x).mpr hx
  obtain ⟨m, rfl⟩ : ∃ m, n = m + 1 := ⟨n - 1, by omega⟩
  have hd := hr.distinct
  have hfind := find_eq hr (m := m + 1) (by omega) (by omega)
  have hread : h.read (slot a (m + 1)) = some (a (m + 1)) := by
    rw [read_slot hr (by omega) (by omega), here_in (by omega) (Nat.le_refl _)]
  have hchop := chop_represents hr
  have hread' : ({ h with nelts := m } : Heap).read (slot a (m + 1)) = some (a (m + 1)) := by
    rw [← hread]
    cases slot a (m + 1) <;> rfl
  unfold Heap.remove
  simp only [hr.nelts, Nat.add_one_ne_zero, if_false, hfind, Option.bind_eq_bind, Option.bind_some,
    Nat.add_sub_cancel, hread']
  by_cases hlast : i = m + 1
  · -- The last node is the one that goes.
    subst hlast
    have hmin : some (a (m + 1)) ≠ (({ h with nelts := m } : Heap).write (slot a (m + 1)) none).min := by
      rw [hchop.min]
      unfold here
      split_ifs with hone
      · intro h
        have := hd _ _ (by omega) (by omega) (by omega) (by omega) (Option.some.inj h)
        omega
      · simp
    refine ⟨_, by simp only [if_neg hmin, if_true]; rfl, ⟨a, m, hchop, ho.shorter, fun y => ?_⟩, ?_⟩
    · have hhas := has_replace (y := y) hd hi hin
      rw [Function.update_eq_self] at hhas
      rw [hhas, hs]
      rfl
    · rw [hchop.nelts]
  · have hne : a (m + 1) ≠ a i := by
      intro h
      have := hd _ _ (by omega) (Nat.le_refl _) hi hin h
      omega
    have hother : ∀ k, 1 ≤ k → k ≤ m → a k ≠ a (m + 1) := by
      intro k hk hkm h
      have := hd _ _ hk (by omega) (by omega) (Nat.le_refl _) h
      omega
    have hrep := replace_represents hchop hi (by omega) hother
    obtain ⟨h', b, j, hdown, hb, hob, hj, hjm, hbj, hhas⟩ := down_spec hc hrep
      (ho.shorter.replace (by omega)) hi (by omega) (show m - i < m by omega)
    obtain ⟨h'', b', hup, hb', hob', hhas'⟩ := up_spec hc hb hob hj hjm hjm
    rw [Function.update_self] at hdown
    rw [hbj, Function.update_self] at hup
    refine ⟨h'', ?_, ⟨b', m, hb', hob', fun y => ?_⟩, ?_⟩
    · rw [if_neg (by simpa using hne)]
      simp only [hrep.nelts, hdown, Option.bind_some, hb.nelts, hup]
    · rw [hhas', hhas, has_replace hd hi hin, hs]
      rfl
    · rw [hb'.nelts]

end sets

end linuxc.heap_inl
