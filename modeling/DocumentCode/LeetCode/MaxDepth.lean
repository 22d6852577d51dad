import DocumentCode.BinTree
import DocumentCode.Heap

/-!
# The depth of a binary tree

`DocumentCode.maxDepth` calls itself on both subtrees and adds one to the greater
of the two depths. It returns the depth of the tree as long as that is an `int`
(`DocumentCode.maxDepth_ends`): a tree that is deeper than 2147483647 makes the
addition overflow at the node where the depth gets there, on the way back from
the recursion (`DocumentCode.maxDepth_faults`).

The laws of the depth are those of `DocumentCode.BinTree`: how many nodes there
can be, that a tree with all of them is a full one, and how deep a complete tree
is (`DocumentCode.maxDepth_laws`).
-/

namespace DocumentCode

open Prog BinaryTree

/-! ### Trees in memory -/

/-- A node of a binary tree. -/
structure TreeNode where
  /-- The value. -/
  val : ℤ
  /-- The left child. -/
  left : Ptr
  /-- The right child. -/
  right : Ptr
  deriving DecidableEq, Repr

/-- The memory the nodes are in: the node at an address, if there is one. -/
abbrev TreeHeap : Type := Addr → Option TreeNode

/-- **The nodes reached from `p` are those of the tree.** -/
def IsTree (h : TreeHeap) : Ptr → BinaryTree ℤ → Prop
  | p, nil => p = NULL
  | p, node v l r => ∃ a pl pr, p = some a ∧ h a = some ⟨v, pl, pr⟩ ∧ IsTree h pl l ∧ IsTree h pr r

/-- The node a pointer points to. -/
def loadNode (p : Ptr) : C TreeHeap TreeNode := do
  match p with
  | none => Prog.fault .nullDeref
  | some a =>
    match (← Prog.get) a with
    | none => Prog.fault .wild
    | some n => return n

theorem loadNode_returns {h : TreeHeap} {a : Addr} {n : TreeNode} (ha : h a = some n) :
    (loadNode (some a)).Returns h n h := by
  refine .bind (Returns.get h) ?_
  rw [ha]
  exact Returns.pure n h

/-! ### The program -/

/-- The body of `maxDepth`. -/
def maxDepth.body (self : Ptr → C TreeHeap ℤ) (root : Ptr) : C TreeHeap ℤ := do
  if root = NULL then
    return 0
  else
    let i ← self (← loadNode root).left
    let j ← self (← loadNode root).right
    int (1 + if i > j then i else j)

def maxDepth (root : Ptr) : C TreeHeap ℤ := recurse maxDepth.body root

/-! ### The recursion -/

section Recursion

variable {h : TreeHeap} {p pl pr : Ptr} {a : Addr} {v : ℤ} {t l r : BinaryTree ℤ}

theorem maxDepth_null : RecEnds maxDepth.body NULL h (.ok (0, h)) :=
  .base fun _ _ => rfl

/-- **The call at a node** ends as the addition after the two calls does. -/
theorem maxDepth_node {i j : ℤ} {e : Except Fault (ℤ × TreeHeap)} (ha : h a = some ⟨v, pl, pr⟩)
    (hl : RecEnds maxDepth.body pl h (.ok (i, h))) (hr : RecEnds maxDepth.body pr h (.ok (j, h)))
    (he : (int (1 + if i > j then i else j) : C TreeHeap ℤ).Ends h e) :
    RecEnds maxDepth.body (some a) h e := by
  refine BodyEnds.recEnds ?_
  have hload := (loadNode_returns ha).body (F := maxDepth.body)
  exact hload.bind (hl.body.bind (hload.bind (hr.body.bind he.body)))

/-- One of the two calls faults. -/
theorem maxDepth_node_fault {e : Fault} (ha : h a = some ⟨v, pl, pr⟩)
    (hlr : RecEnds maxDepth.body pl h (.error e) ∨
      (∃ i, RecEnds maxDepth.body pl h (.ok (i, h))) ∧ RecEnds maxDepth.body pr h (.error e)) :
    RecEnds maxDepth.body (some a) h (.error e) := by
  refine BodyEnds.recEnds ?_
  have hload := (loadNode_returns ha).body (F := maxDepth.body)
  rcases hlr with hl | ⟨⟨i, hl⟩, hr⟩
  · exact hload.bind hl.body.bind_fault
  · exact hload.bind (hl.body.bind (hload.bind hr.body.bind_fault))

/-- The greater of two depths. -/
theorem ite_natCast (m n : ℕ) : (if (m : ℤ) > n then (m : ℤ) else n) = (max m n : ℕ) := by
  split <;> omega

/-- **The call returns the depth**, if it is an `int`. -/
theorem maxDepth_ends (ht : IsTree h p t) (hd : t.height < 2 ^ 31) :
    RecEnds maxDepth.body p h (.ok (t.height, h)) := by
  induction t generalizing p with
  | nil =>
    obtain rfl : p = NULL := ht
    exact maxDepth_null
  | node v l r ihl ihr =>
    obtain ⟨a, pl, pr, rfl, ha, hl, hr⟩ := ht
    rw [height] at hd
    refine maxDepth_node ha (ihl hl (by omega)) (ihr hr (by omega)) ?_
    rw [ite_natCast, height, add_comm]
    exact int_succ_returns hd h

/-- **The call faults** at a tree whose depth is no `int`. -/
theorem maxDepth_overflows (ht : IsTree h p t) (hd : 2 ^ 31 ≤ t.height) :
    RecEnds maxDepth.body p h (.error .overflow) := by
  induction t generalizing p with
  | nil => exact absurd hd (by decide)
  | node v l r ihl ihr =>
    obtain ⟨a, pl, pr, rfl, ha, hl, hr⟩ := ht
    rw [height] at hd
    rcases Nat.lt_or_ge l.height (2 ^ 31) with hlt | hge
    · rcases Nat.lt_or_ge r.height (2 ^ 31) with hrt | hrge
      · -- The depths of both subtrees are `int`s, and one more is none.
        refine maxDepth_node ha (maxDepth_ends hl hlt) (maxDepth_ends hr hrt) ?_
        rw [ite_natCast, int_of_not_inInt fun hin => by have := hin.2; omega]
        exact Faults.fault _ _
      · exact maxDepth_node_fault ha (Or.inr ⟨⟨_, maxDepth_ends hl hlt⟩, ihr hr hrge⟩)
    · exact maxDepth_node_fault ha (Or.inl (ihl hl hge))

theorem maxDepth_faults (ht : IsTree h p t) (hd : 2 ^ 31 ≤ t.height) :
    (maxDepth p).Faults h .overflow := (maxDepth_overflows ht hd).ends

/-- **The laws of the depth**, for a tree whose depth is an `int`: the greatest
number of nodes, that a tree with so many is full, and the depth of a complete
tree. -/
theorem maxDepth_laws (ht : IsTree h p t) (hd : t.height < 2 ^ 31) :
    ∃ d : ℕ, (maxDepth p).Returns h d h ∧ t.numNodes ≤ 2 ^ d - 1 ∧
      (t.numNodes = 2 ^ d - 1 ↔ BinTree.Full t) ∧
      (t ≠ nil → BinTree.Complete t → d = Nat.log 2 t.numNodes + 1) :=
  ⟨t.height, (maxDepth_ends ht hd).ends, BinTree.numNodes_le t, BinTree.numNodes_eq_iff t,
    fun hne hc => hc.height_eq hne⟩

end Recursion

/-! ### Trees that are paths -/

/-- A tree of `n` nodes without right children. -/
def leftPath : ℕ → BinaryTree ℤ
  | 0 => nil
  | n + 1 => node 0 (leftPath n) nil

/-- The root of a path of `n` nodes, which are at the addresses below `n`. -/
def pathRoot : ℕ → Ptr
  | 0 => NULL
  | n + 1 => some n

/-- The nodes of the path. -/
def pathHeap (n : ℕ) : TreeHeap := fun a => if a < n then some ⟨0, pathRoot a, NULL⟩ else none

theorem isTree_leftPath {k n : ℕ} (h : k ≤ n) : IsTree (pathHeap n) (pathRoot k) (leftPath k) := by
  induction k with
  | zero => rfl
  | succ k ih => exact ⟨k, pathRoot k, NULL, rfl, if_pos h, ih (Nat.le_of_succ_le h), rfl⟩

theorem height_leftPath (n : ℕ) : (leftPath n).height = n := by
  induction n with
  | zero => rfl
  | succ n ih =>
    rw [leftPath, height, ih, height]
    omega

/-- A path of two nodes. -/
theorem maxDepth_laws_two :
    ∃ d : ℕ, (maxDepth (pathRoot 2)).Returns (pathHeap 2) d (pathHeap 2) ∧
      (leftPath 2).numNodes ≤ 2 ^ d - 1 ∧
      ((leftPath 2).numNodes = 2 ^ d - 1 ↔ BinTree.Full (leftPath 2)) ∧
      (leftPath 2 ≠ nil → BinTree.Complete (leftPath 2) →
        d = Nat.log 2 (leftPath 2).numNodes + 1) :=
  maxDepth_laws (isTree_leftPath le_rfl) (by decide)

/-- A path of 2147483648 nodes. -/
theorem maxDepth_not_returns :
    ¬∃ (d : ℤ) (h : TreeHeap),
      (maxDepth (pathRoot 2147483648)).Returns (pathHeap 2147483648) d h := by
  rintro ⟨d, h, hret⟩
  have hd : 2 ^ 31 ≤ (leftPath 2147483648).height := by
    rw [height_leftPath]
    norm_num
  exact (maxDepth_faults (isTree_leftPath le_rfl) hd).not_returns hret

end DocumentCode
