-- heap-inl.h of libuv: a binary heap whose nodes point at each other. Each
-- function is the source's own, pointer by pointer; a NULL that is followed,
-- and a loop that is not done in time, give `none`.
import Mathlib.Tactic.SplitIfs

namespace linuxc.heap_inl

/-! ## The nodes -/

/-- `struct heap_node`, where a node is named by a number and NULL is `none`. -/
structure Node where
  left : Option Nat
  right : Option Nat
  parent : Option Nat
  deriving DecidableEq, Repr

/-- `struct heap`, with the nodes of the program. -/
structure Heap where
  min : Option Nat
  nelts : Nat
  nodes : Nat → Node

/-- `heap_init`. -/
def Heap.init (h : Heap) : Heap := { h with min := none, nelts := 0 }

def Heap.setNode (h : Heap) (x : Nat) (node : Node) : Heap :=
  { h with nodes := fun y => if y = x then node else h.nodes y }

def Heap.setLeft (h : Heap) (x : Nat) (left : Option Nat) : Heap :=
  h.setNode x { h.nodes x with left }

def Heap.setRight (h : Heap) (x : Nat) (right : Option Nat) : Heap :=
  h.setNode x { h.nodes x with right }

def Heap.setParent (h : Heap) (x : Nat) (parent : Option Nat) : Heap :=
  h.setNode x { h.nodes x with parent }

/-- `if (x != NULL) x->parent = parent`. -/
def Heap.adopt (h : Heap) (x : Option Nat) (parent : Nat) : Heap :=
  match x with
  | some x => h.setParent x (some parent)
  | none => h

/-- `new` takes the place of `old` below `parent`, or at the root. -/
def Heap.relink (h : Heap) (parent : Option Nat) (old new : Nat) : Heap :=
  match parent with
  | none => { h with min := some new }
  | some p => if (h.nodes p).left = some old then h.setLeft p (some new) else h.setRight p (some new)

/-- `heap_node_swap`. -/
def Heap.swap (h : Heap) (parent child : Nat) : Heap :=
  let t := h.nodes parent
  let h := h.setNode parent (h.nodes child)
  let h := h.setNode child t
  let h := h.setParent parent (some child)
  let h :=
    if (h.nodes child).left = some child then
      let h := h.setLeft child (some parent)
      h.adopt (h.nodes child).right child
    else
      let h := h.setRight child (some parent)
      h.adopt (h.nodes child).left child
  let h := h.adopt (h.nodes parent).left parent
  let h := h.adopt (h.nodes parent).right parent
  h.relink (h.nodes child).parent parent child

/-! ## The path from the root -/

/-- A place that holds a pointer to a node. -/
inductive Slot
  | min
  | left (x : Nat)
  | right (x : Nat)
  deriving DecidableEq, Repr

def Heap.read (h : Heap) : Slot → Option Nat
  | .min => h.min
  | .left x => (h.nodes x).left
  | .right x => (h.nodes x).right

def Heap.write (h : Heap) (slot : Slot) (x : Option Nat) : Heap :=
  match slot with
  | .min => { h with min := x }
  | .left y => h.setLeft y x
  | .right y => h.setRight y x

/-- The loop that calculates `k` and `path` from `n`, which it halves as long as it is 2 at least. -/
def pathLoop : Nat → Nat → Nat → Nat → Option (Nat × Nat)
  | 0, _, _, _ => none
  | fuel + 1, n, k, path =>
    if 2 ≤ n then pathLoop fuel (n / 2) (k + 1) (2 * path + n % 2) else some (k, path)

/-- The loop that traverses the heap, with the slots `parent` and `child`. -/
def Heap.walk (h : Heap) : Nat → Nat → Slot → Slot → Option (Slot × Slot)
  | 0, _, parent, child => some (parent, child)
  | k + 1, path, _, child => do
    let x ← h.read child
    h.walk k (path / 2) child (if path % 2 = 1 then .right x else .left x)

/-- The two loops: where the pointer to the node at position `n` is, and the one above it. -/
def Heap.find (h : Heap) (n : Nat) : Option (Slot × Slot) := do
  let (k, path) ← pathLoop (n + 1) n 0 0
  h.walk k path .min .min

/-! ## The functions -/

/-- The loop that walks up the tree. -/
def Heap.up (less_than : Nat → Nat → Bool) : Nat → Heap → Nat → Option Heap
  | 0, _, _ => none
  | fuel + 1, h, x =>
    match (h.nodes x).parent with
    | some p => if less_than x p then Heap.up less_than fuel (h.swap p x) x else some h
    | none => some h

/-- What the loop that walks down takes for `smallest`. -/
def Heap.smallest (less_than : Nat → Nat → Bool) (h : Heap) (x : Nat) : Nat :=
  let smallest :=
    match (h.nodes x).left with
    | some l => if less_than l x then l else x
    | none => x
  match (h.nodes x).right with
  | some r => if less_than r smallest then r else smallest
  | none => smallest

/-- The loop that walks down the subtree. -/
def Heap.down (less_than : Nat → Nat → Bool) : Nat → Heap → Nat → Option Heap
  | 0, _, _ => none
  | fuel + 1, h, x =>
    let smallest := h.smallest less_than x
    if smallest = x then some h else Heap.down less_than fuel (h.swap x smallest) x

/-- `heap_insert`. -/
def Heap.insert (less_than : Nat → Nat → Bool) (h : Heap) (newnode : Nat) : Option Heap := do
  let h := h.setNode newnode ⟨none, none, none⟩
  let (parent, child) ← h.find (1 + h.nelts)
  let h := h.setParent newnode (h.read parent)
  let h := h.write child (some newnode)
  let h := { h with nelts := h.nelts + 1 }
  Heap.up less_than h.nelts h newnode

/-- What `heap_remove` does with the unlinked node: it takes the place of `node`. -/
def Heap.replace (h : Heap) (node child : Nat) : Heap :=
  let h := h.setLeft child (h.nodes node).left
  let h := h.setRight child (h.nodes node).right
  let h := h.setParent child (h.nodes node).parent
  let h := h.adopt (h.nodes child).left child
  let h := h.adopt (h.nodes child).right child
  h.relink (h.nodes node).parent node child

/-- `heap_remove`. -/
def Heap.remove (less_than : Nat → Nat → Bool) (h : Heap) (node : Option Nat) : Option Heap := do
  if h.nelts = 0 then return h
  let (_, max) ← h.find h.nelts
  let h := { h with nelts := h.nelts - 1 }
  let child := h.read max
  let h := h.write max none
  if child = node then return (if child = h.min then { h with min := none } else h)
  let child ← child
  let node ← node
  let h := h.replace node child
  let h ← Heap.down less_than h.nelts h child
  Heap.up less_than h.nelts h child

/-- `heap_dequeue`. -/
def Heap.dequeue (less_than : Nat → Nat → Bool) (h : Heap) : Option Heap :=
  h.remove less_than h.min

/-! ## What the functions change -/

section fields

variable {h : Heap} {x y old new p : Nat} {v q : Option Nat} {node : Node}

@[simp] theorem setNode_nodes : (h.setNode x node).nodes y = if y = x then node else h.nodes y := rfl

@[simp] theorem setNode_min : (h.setNode x node).min = h.min := rfl

@[simp] theorem setNode_nelts : (h.setNode x node).nelts = h.nelts := rfl

theorem setLeft_nodes :
    (h.setLeft x v).nodes y = ⟨if y = x then v else (h.nodes y).left, (h.nodes y).right,
      (h.nodes y).parent⟩ := by
  unfold Heap.setLeft
  by_cases hyx : y = x <;> simp [hyx]

theorem setRight_nodes :
    (h.setRight x v).nodes y = ⟨(h.nodes y).left, if y = x then v else (h.nodes y).right,
      (h.nodes y).parent⟩ := by
  unfold Heap.setRight
  by_cases hyx : y = x <;> simp [hyx]

theorem setParent_nodes :
    (h.setParent x v).nodes y = ⟨(h.nodes y).left, (h.nodes y).right,
      if y = x then v else (h.nodes y).parent⟩ := by
  unfold Heap.setParent
  by_cases hyx : y = x <;> simp [hyx]

theorem adopt_nodes :
    (h.adopt v p).nodes y = ⟨(h.nodes y).left, (h.nodes y).right,
      if v = some y then some p else (h.nodes y).parent⟩ := by
  cases v with
  | none => simp [Heap.adopt]
  | some x => simp [Heap.adopt, setParent_nodes, eq_comm]

theorem relink_nodes :
    (h.relink q old new).nodes y =
      ⟨if q = some y ∧ (h.nodes y).left = some old then some new else (h.nodes y).left,
        if q = some y ∧ (h.nodes y).left ≠ some old then some new else (h.nodes y).right,
        (h.nodes y).parent⟩ := by
  cases q with
  | none => simp [Heap.relink]
  | some x =>
    unfold Heap.relink
    by_cases hxy : x = y
    · subst hxy
      by_cases hl : (h.nodes x).left = some old <;> simp [hl, setLeft_nodes, setRight_nodes]
    · have hyx : y ≠ x := Ne.symm hxy
      by_cases hl : (h.nodes x).left = some old <;> simp [hl, hxy, hyx, setLeft_nodes, setRight_nodes]

@[simp] theorem adopt_min : (h.adopt v p).min = h.min := by
  cases v <;> rfl

@[simp] theorem adopt_nelts : (h.adopt v p).nelts = h.nelts := by
  cases v <;> rfl

theorem relink_min : (h.relink q old new).min = if q = none then some new else h.min := by
  cases q with
  | none => rfl
  | some x =>
    unfold Heap.relink
    by_cases hl : (h.nodes x).left = some old <;> simp [hl, Heap.setLeft, Heap.setRight]

@[simp] theorem relink_nelts : (h.relink q old new).nelts = h.nelts := by
  cases q with
  | none => rfl
  | some x =>
    unfold Heap.relink
    by_cases hl : (h.nodes x).left = some old <;> simp [hl, Heap.setLeft, Heap.setRight]

end fields

end linuxc.heap_inl
