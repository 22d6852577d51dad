import Mathlib.Algebra.Ring.Nat
import Mathlib.Data.Nat.Log
import Mathlib.Data.Set.Basic
import Mathlib.Data.Tree.Basic
import Mathlib.Order.Interval.Set.Defs

/-!
# How many nodes a binary tree of some depth has

A binary tree of depth `d` has at most `2 ^ d - 1` nodes
(`DocumentCode.BinTree.numNodes_le`), and exactly that many when it is *full*: no
node can be added to it without adding a level
(`DocumentCode.BinTree.numNodes_eq_iff`). The reason is the same for both, that
such a tree has `2 ^ d` places for a further node at most, so the counting is
done with `BinaryTree.numLeaves`.

Numbering the nodes level by level gives the root the number 1 and the children
of the node `i` the numbers `2 * i` and `2 * i + 1`. The numbers below the node
`i` on its level of depth `k` are those from `i * 2 ^ k` on, `2 ^ k` of them
(`DocumentCode.BinTree.lt_of_mem_labels`, `DocumentCode.BinTree.exists_mem_labels`).
So where the numbers are those from 1 to `n`, the tree is *complete*, the last of
them tells the depth (`DocumentCode.BinTree.Complete.height_eq`).
-/

namespace DocumentCode

namespace BinTree

open BinaryTree

variable {α : Type*} {t l r t' : BinaryTree α} {v : α} {i x : ℕ}

theorem height_pos_of_ne_nil (h : t ≠ nil) : 0 < t.height := by
  cases t with
  | nil => exact absurd rfl h
  | node v l r => exact Nat.succ_pos _

theorem ne_nil_of_height_pos (h : 0 < t.height) : t ≠ nil := by
  rintro rfl
  exact absurd h (Nat.lt_irrefl 0)

/-! ### The greatest number of nodes -/

theorem numLeaves_le (t : BinaryTree α) : t.numLeaves ≤ 2 ^ t.height := by
  induction t with
  | nil => exact le_rfl
  | node v l r hl hr =>
    have hl' : 2 ^ l.height ≤ 2 ^ max l.height r.height :=
      Nat.pow_le_pow_right Nat.zero_lt_two (le_max_left _ _)
    have hr' : 2 ^ r.height ≤ 2 ^ max l.height r.height :=
      Nat.pow_le_pow_right Nat.zero_lt_two (le_max_right _ _)
    rw [numLeaves, height, Nat.pow_succ]
    omega

/-- **A tree of depth `d` has at most `2 ^ d - 1` nodes.** -/
theorem numNodes_le (t : BinaryTree α) : t.numNodes ≤ 2 ^ t.height - 1 := by
  have h := numLeaves_le t
  rw [numLeaves_eq_numNodes_succ] at h
  omega

/-! ### Full trees -/

/-- `t'` is `t` with one more node. -/
inductive Adds : BinaryTree α → BinaryTree α → Prop
  /-- The new node is the root. -/
  | root (v : α) : Adds nil (node v nil nil)
  /-- It is on the left. -/
  | left {v : α} {l l' r : BinaryTree α} : Adds l l' → Adds (node v l r) (node v l' r)
  /-- It is on the right. -/
  | right {v : α} {l r r' : BinaryTree α} : Adds r r' → Adds (node v l r) (node v l r')

/-- **A full tree**: no node can be added without adding a level. -/
def Full (t : BinaryTree α) : Prop := ∀ t', Adds t t' → t.height < t'.height

theorem Adds.numNodes_eq (h : Adds t t') : t'.numNodes = t.numNodes + 1 := by
  induction h with
  | root v => rfl
  | left _ ih => rw [numNodes, numNodes, ih]; omega
  | right _ ih => rw [numNodes, numNodes, ih]; omega

/-- A node can be added somewhere, and adds one level at most. -/
theorem exists_adds [Inhabited α] (t : BinaryTree α) :
    ∃ t', Adds t t' ∧ t'.height ≤ t.height + 1 := by
  induction t with
  | nil => exact ⟨_, .root default, le_rfl⟩
  | node v l r hl _ =>
    obtain ⟨l', hadd, hle⟩ := hl
    refine ⟨_, .left hadd, ?_⟩
    rw [height, height]
    omega

/-- Both subtrees of a full tree are full, and of the same depth. -/
theorem Full.node [Inhabited α] (h : Full (node v l r)) :
    Full l ∧ Full r ∧ l.height = r.height := by
  have hleft (l' : BinaryTree α) (hadd : Adds l l') :
      max l.height r.height < max l'.height r.height := Nat.lt_of_succ_lt_succ (h _ (.left hadd))
  have hright (r' : BinaryTree α) (hadd : Adds r r') :
      max l.height r.height < max l.height r'.height := Nat.lt_of_succ_lt_succ (h _ (.right hadd))
  have hle : r.height ≤ l.height := by
    obtain ⟨l', hadd, hle⟩ := exists_adds l
    have := hleft l' hadd
    omega
  have hge : l.height ≤ r.height := by
    obtain ⟨r', hadd, hle⟩ := exists_adds r
    have := hright r' hadd
    omega
  refine ⟨fun l' hadd => ?_, fun r' hadd => ?_, Nat.le_antisymm hge hle⟩
  · have := hleft l' hadd
    omega
  · have := hright r' hadd
    omega

theorem Full.numLeaves_eq [Inhabited α] (h : Full t) : t.numLeaves = 2 ^ t.height := by
  induction t with
  | nil => rfl
  | node v l r hl hr =>
    obtain ⟨hfl, hfr, heq⟩ := h.node
    rw [numLeaves, hl hfl, hr hfr, height, heq, max_self, Nat.pow_succ, Nat.mul_two]

/-- **A tree of depth `d` has `2 ^ d - 1` nodes exactly when it is full.** -/
theorem numNodes_eq_iff [Inhabited α] (t : BinaryTree α) :
    t.numNodes = 2 ^ t.height - 1 ↔ Full t := by
  constructor
  · intro h t' hadd
    by_contra hle
    have hpos : 0 < 2 ^ t.height := Nat.two_pow_pos _
    have hpow : 2 ^ t'.height ≤ 2 ^ t.height :=
      Nat.pow_le_pow_right Nat.zero_lt_two (Nat.le_of_not_lt hle)
    have hmax := numNodes_le t'
    rw [hadd.numNodes_eq] at hmax
    omega
  · intro h
    have hleaves := h.numLeaves_eq
    rw [numLeaves_eq_numNodes_succ] at hleaves
    omega

/-! ### Complete trees -/

/-- The numbers of the nodes, level by level, the root having the number `i`. -/
def labels : ℕ → BinaryTree α → Set ℕ
  | _, nil => ∅
  | i, node _ l r => insert i (labels (2 * i) l ∪ labels (2 * i + 1) r)

/-- **A complete tree**: the numbers of its nodes are those from 1 on. -/
def Complete (t : BinaryTree α) : Prop := labels 1 t = Set.Icc 1 t.numNodes

theorem mem_labels_node :
    x ∈ labels i (node v l r) ↔ x = i ∨ x ∈ labels (2 * i) l ∨ x ∈ labels (2 * i + 1) r :=
  Iff.rfl

theorem height_pos_of_mem_labels (h : x ∈ labels i t) : 0 < t.height := by
  refine height_pos_of_ne_nil ?_
  rintro rfl
  exact absurd h (Set.notMem_empty x)

/-- The numbers below the node `i` on a level `k` are less than `(i + 1) * 2 ^ k`,
and so are those above that level. -/
theorem lt_of_mem_labels (h : x ∈ labels i t) : x < (i + 1) * 2 ^ (t.height - 1) := by
  induction t generalizing i with
  | nil => exact absurd h (Set.notMem_empty x)
  | node v l r hl hr =>
    -- A number below a child `j`, whose subtree has the depth `d`.
    have hchild {j d : ℕ} (hj : j + 1 ≤ 2 * (i + 1)) (hd : d ≤ max l.height r.height)
        (hpos : 0 < d) (hx : x < (j + 1) * 2 ^ (d - 1)) :
        x < (i + 1) * 2 ^ max l.height r.height := by
      calc x < (j + 1) * 2 ^ (d - 1) := hx
        _ ≤ 2 * (i + 1) * 2 ^ (d - 1) := Nat.mul_le_mul_right _ hj
        _ = (i + 1) * 2 ^ (d - 1 + 1) := by rw [Nat.pow_succ, Nat.mul_comm 2, Nat.mul_assoc,
            Nat.mul_comm 2]
        _ ≤ (i + 1) * 2 ^ max l.height r.height :=
            Nat.mul_le_mul_left _ (Nat.pow_le_pow_right Nat.zero_lt_two (by omega))
    rw [height, Nat.add_sub_cancel]
    rcases mem_labels_node.mp h with rfl | hx | hx
    · exact Nat.lt_of_lt_of_le (Nat.lt_succ_self x)
        (Nat.le_mul_of_pos_right _ (Nat.two_pow_pos _))
    · refine hchild (by omega) (le_max_left _ _) ?_ (hl hx)
      exact height_pos_of_mem_labels hx
    · refine hchild (by omega) (le_max_right _ _) ?_ (hr hx)
      exact height_pos_of_mem_labels hx

/-- On the last level there is a number, and it is at least `i * 2 ^ k`. -/
theorem exists_mem_labels (i : ℕ) (h : t ≠ nil) :
    ∃ x ∈ labels i t, i * 2 ^ (t.height - 1) ≤ x := by
  induction t generalizing i with
  | nil => exact absurd rfl h
  | node v l r hl hr =>
    -- A number below a child `j`, whose subtree is the deeper one.
    have hchild {j d x : ℕ} (hj : 2 * i ≤ j) (hd : d = max l.height r.height) (hpos : 0 < d)
        (hx : j * 2 ^ (d - 1) ≤ x) : i * 2 ^ max l.height r.height ≤ x := by
      obtain ⟨e, rfl⟩ : ∃ e, d = e + 1 := ⟨d - 1, by omega⟩
      calc i * 2 ^ max l.height r.height = 2 * i * 2 ^ e := by
            rw [← hd, Nat.pow_succ, Nat.mul_comm 2, Nat.mul_assoc, Nat.mul_comm 2]
        _ ≤ j * 2 ^ e := Nat.mul_le_mul_right _ hj
        _ ≤ x := hx
    rw [height, Nat.add_sub_cancel]
    rcases Nat.lt_or_ge l.height r.height with hlt | hge
    · have hr0 : 0 < r.height := by omega
      obtain ⟨x, hx, hle⟩ := hr (2 * i + 1) (ne_nil_of_height_pos hr0)
      exact ⟨x, Or.inr (Or.inr hx), hchild (by omega) (max_eq_right hlt.le).symm hr0 hle⟩
    · rcases Nat.eq_zero_or_pos l.height with hl0 | hl0
      · refine ⟨i, Or.inl rfl, ?_⟩
        rw [show max l.height r.height = 0 by omega, Nat.pow_zero, Nat.mul_one]
      · obtain ⟨x, hx, hle⟩ := hl (2 * i) (ne_nil_of_height_pos hl0)
        exact ⟨x, Or.inr (Or.inl hx), hchild le_rfl (max_eq_left hge).symm hl0 hle⟩

/-- **The depth of a complete tree with `n` nodes is `⌊log₂ n⌋ + 1`.** -/
theorem Complete.height_eq (h : Complete t) (hne : t ≠ nil) :
    t.height = Nat.log 2 t.numNodes + 1 := by
  obtain ⟨x, hx, hle⟩ := exists_mem_labels 1 hne
  rw [h] at hx
  have hpos := height_pos_of_ne_nil hne
  have hlast : t.numNodes ∈ labels 1 t := by
    rw [h]
    exact ⟨le_trans hx.1 hx.2, le_rfl⟩
  have hlt := lt_of_mem_labels hlast
  have hlog : Nat.log 2 t.numNodes = t.height - 1 := by
    refine Nat.log_eq_of_pow_le_of_lt_pow ?_ ?_
    · rw [Nat.one_mul] at hle
      exact le_trans hle hx.2
    · rw [Nat.pow_succ, Nat.mul_comm]
      exact hlt
  omega

end BinTree

end DocumentCode
