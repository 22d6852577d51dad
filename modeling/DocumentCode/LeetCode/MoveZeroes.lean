import DocumentCode.CArray
import DocumentCode.ForLoop

/-!
# Moving the zeros to the end

`DocumentCode.moveZeroes` goes through the array as often as it has elements, and
swaps a zero with its right neighbour wherever it meets one. A zero that was
swapped is met again one place further on, so a pass takes the first zero out of
the array and appends it at the end (`DocumentCode.moveZeroes.pass`); an array
without zeros, or with all its zeros at the end, it leaves alone.

After `i` passes there are `i` zeros at the end, or no zero before those at the
end (`DocumentCode.moveZeroes.Settled`). A pass keeps the others in their order
and is a permutation, so after as many passes as there are elements the array is
what it should be (`DocumentCode.moveZeroes_returns`).
-/

namespace DocumentCode

open Prog

/-! ### The program -/

/-- The body of the inner loop. -/
def moveZeroes.swap (j : ℤ) : C (List ℤ) Unit := do
  if (← load j) ≠ 0 then
    return ()
  else
    let temp ← load j
    store j (← load (← int (j + 1)))
    store (← int (j + 1)) temp

/-- `nums` is the state. -/
def moveZeroes (numsSize : ℤ) : C (List ℤ) Unit :=
  forAll 0 numsSize 1 (fun _ _ => do
    forAll 0 (← int (numsSize - 1)) 1 (fun j _ => moveZeroes.swap j) ()) ()

namespace moveZeroes

/-! ### A pass -/

/-- What a pass makes of the array: the first zero goes to the end. -/
def pass (l : List ℤ) : List ℤ := if 0 ∈ l then l.erase 0 ++ [0] else l

section Pass

variable {l p : List ℤ} {x : ℤ} {k : ℕ}

theorem pass_of_mem (h : 0 ∈ l) : pass l = l.erase 0 ++ [0] := if_pos h

theorem pass_of_notMem (h : 0 ∉ l) : pass l = l := if_neg h

theorem pass_perm : (pass l).Perm l := by
  by_cases h : 0 ∈ l
  · rw [pass_of_mem h]
    exact (List.perm_append_singleton 0 _).trans (List.perm_cons_erase h).symm
  · rw [pass_of_notMem h]

/-- **A pass keeps the order of the other elements.** -/
theorem filter_pass : (pass l).filter (· ≠ 0) = l.filter (· ≠ 0) := by
  by_cases h : 0 ∈ l
  · obtain ⟨as, bs, -, hl, he⟩ := List.exists_erase_eq h
    rw [pass_of_mem h, he, hl]
    simp
  · rw [pass_of_notMem h]

/-- The zero found so far is carried past a further element. -/
theorem pass_concat_of_mem (h : 0 ∈ l) : pass (l ++ [x]) = l.erase 0 ++ [x, 0] := by
  rw [pass_of_mem (List.mem_append_left _ h), List.erase_append_left _ h, List.append_assoc]
  rfl

/-- As long as no zero has been met there is nothing to carry. -/
theorem pass_concat_of_notMem (h : 0 ∉ l) : pass (l ++ [x]) = l ++ [x] := by
  rcases eq_or_ne x 0 with rfl | hx
  · rw [pass_of_mem List.mem_concat_self, List.erase_append_right _ h, List.erase_cons_head,
      List.append_nil]
  · refine pass_of_notMem fun hmem => ?_
    rcases List.mem_append.mp hmem with hl | hr
    · exact h hl
    · exact hx (List.mem_singleton.mp hr).symm

/-- **A pass on an array that ends in `k` zeros**: there is one more of them, or
no other was left. -/
theorem pass_append_replicate :
    pass (p ++ List.replicate k 0) =
      if 0 ∈ p then p.erase 0 ++ List.replicate (k + 1) 0 else p ++ List.replicate k 0 := by
  by_cases h : 0 ∈ p
  · rw [if_pos h, pass_of_mem (List.mem_append_left _ h), List.erase_append_left _ h,
      List.append_assoc, List.replicate_succ']
  · rw [if_neg h]
    cases k with
    | zero => rw [List.replicate_zero, List.append_nil, pass_of_notMem h]
    | succ k =>
      have hmem : (0 : ℤ) ∈ p ++ List.replicate (k + 1) 0 := by simp
      rw [pass_of_mem hmem, List.erase_append_right _ h, List.erase_replicate_self,
        Nat.add_sub_cancel, List.append_assoc, List.replicate_succ']

end Pass

/-! ### After some passes -/

/-- The array `l` after `i` passes over `nums`. -/
structure Settled (nums : List ℤ) (i : ℕ) (l : List ℤ) : Prop where
  /-- Nothing is lost. -/
  perm : l.Perm nums
  /-- The order is kept. -/
  order : l.filter (· ≠ 0) = nums.filter (· ≠ 0)
  /-- The zeros at the end, and how many of the others are still to go there. -/
  tail : ∃ p k, l = p ++ List.replicate k 0 ∧ (i ≤ k ∨ 0 ∉ p)

section Settled

variable {nums l : List ℤ} {i : ℕ}

theorem settled_zero : Settled nums 0 nums where
  perm := .refl _
  order := rfl
  tail := ⟨nums, 0, by rw [List.replicate_zero, List.append_nil], Or.inl le_rfl⟩

/-- **One more pass.** -/
theorem Settled.pass (h : Settled nums i l) : Settled nums (i + 1) (moveZeroes.pass l) where
  perm := pass_perm.trans h.perm
  order := filter_pass.trans h.order
  tail := by
    obtain ⟨p, k, rfl, hk⟩ := h.tail
    rw [pass_append_replicate]
    by_cases hp : 0 ∈ p
    · rw [if_pos hp]
      have hik : i ≤ k := hk.resolve_right (not_not.mpr hp)
      exact ⟨p.erase 0, k + 1, rfl, Or.inl (by omega)⟩
    · rw [if_neg hp]
      exact ⟨p, k, rfl, Or.inr hp⟩

/-- **As many passes as there are elements are enough.** -/
theorem Settled.eq (h : Settled nums nums.length l) :
    l = nums.filter (· ≠ 0) ++ List.replicate (nums.count 0) 0 := by
  obtain ⟨p, k, rfl, hk⟩ := h.tail
  have hp : 0 ∉ p := by
    rcases hk with hk | hk
    · have hlen := h.perm.length_eq
      rw [List.length_append, List.length_replicate] at hlen
      rw [List.length_eq_zero_iff.mp (by omega : p.length = 0)]
      exact List.not_mem_nil
    · exact hk
  have hfilter : (p ++ List.replicate k 0).filter (· ≠ 0) = p := by
    rw [List.filter_append, List.filter_replicate, List.filter_eq_self.mpr]
    · simp
    · intro x hx
      simpa using fun hx0 : x = 0 => hp (hx0 ▸ hx)
  have hcount : (p ++ List.replicate k 0).count 0 = k := by
    rw [List.count_append, List.count_eq_zero.mpr hp, List.count_replicate_self, zero_add]
  rw [← h.order, ← h.perm.count_eq, hfilter, hcount]

end Settled

/-! ### The loops -/

section Loops

variable {nums l : List ℤ}

/-- A zero and its right neighbour. -/
theorem swap_zero {as cs : List ℤ} {x : ℤ} (h : as.length + 1 < 2 ^ 31) :
    (swap as.length).Returns (as ++ 0 :: x :: cs) () (as ++ x :: 0 :: cs) := by
  have hnext : (load (as.length + 1 : ℕ)).Returns (as ++ 0 :: x :: cs) x (as ++ 0 :: x :: cs) :=
    load_returns (by simp)
  have hlast : (store (as.length + 1 : ℕ) (0 : ℤ)).Returns (as ++ x :: x :: cs) ()
      (as ++ x :: 0 :: cs) := by
    have hstore : (store (as ++ [x]).length (0 : ℤ)).Returns (as ++ [x] ++ x :: cs) ()
        (as ++ [x] ++ 0 :: cs) := store_append
    simpa using hstore
  refine .bind load_append ?_
  rw [if_neg (by simp)]
  refine .bind load_append (.bind (int_succ_returns h _) ?_)
  exact .bind hnext (.bind store_append (.bind (int_succ_returns h _) hlast))

theorem swap_of_ne_zero {as cs : List ℤ} {y : ℤ} (hy : y ≠ 0) :
    (swap as.length).Returns (as ++ y :: cs) () (as ++ y :: cs) := by
  refine .bind load_append ?_
  rw [if_pos hy]
  exact Returns.pure _ _

/-- A round of the inner loop: the pass gets to the next element. -/
theorem swap_returns {u cs : List ℤ} {x : ℤ} {j : ℕ} (hu : u.length = j + 1)
    (hj : j + 1 < 2 ^ 31) :
    (swap j).Returns (pass u ++ x :: cs) () (pass (u ++ [x]) ++ cs) := by
  by_cases h : 0 ∈ u
  · have hlen : (u.erase 0).length = j := by
      rw [List.length_erase_of_mem h]
      omega
    rw [pass_of_mem h, pass_concat_of_mem h, ← hlen, List.append_assoc, List.append_assoc]
    exact swap_zero (by omega)
  · obtain ⟨as, y, rfl⟩ := (List.eq_nil_or_concat' u).resolve_left (by rintro rfl; simp at hu)
    have hlen : as.length = j := by
      rw [List.length_append, List.length_singleton] at hu
      omega
    have hy : y ≠ 0 := fun hy => h (hy ▸ List.mem_concat_self)
    rw [pass_of_notMem h, pass_concat_of_notMem h, ← hlen]
    have hr : (swap as.length).Returns (as ++ y :: x :: cs) () (as ++ y :: x :: cs) :=
      swap_of_ne_zero hy
    simpa using hr

/-- **The inner loop makes a pass.** -/
theorem inner_returns (hl : l ≠ []) (h : l.length < 2 ^ 31) :
    (forAll 0 (l.length - 1 : ℕ) 1 (fun j _ => swap j) ()).Returns l () (pass l) := by
  have hpos : 0 < l.length := List.length_pos_of_ne_nil hl
  refine (forAll_range_ensures (I := fun j _ t => t = pass (l.take (j + 1)) ++ l.drop (j + 1))
    (by omega) ?_ ?_).returns ?_
  · rintro j ⟨⟩ t hj rfl
    have hlen : (l.take (j + 1)).length = j + 1 := List.length_take_of_le (by omega)
    have hdrop : l.drop (j + 1) = l[j + 1] :: l.drop (j + 1 + 1) := List.drop_eq_getElem_cons _
    have htake : l.take (j + 1 + 1) = l.take (j + 1) ++ [l[j + 1]] := by
      rw [List.take_add_one, List.getElem?_eq_getElem]
      rfl
    rw [hdrop]
    refine (swap_returns hlen (by omega)).ensures ?_
    rw [htake]
  · obtain ⟨y, ys, rfl⟩ := List.exists_cons_of_ne_nil hl
    have hy : pass [y] = [y] := pass_concat_of_notMem (l := []) List.not_mem_nil
    rw [zero_add, List.take_succ_cons, List.take_zero, hy]
    rfl
  · rintro ⟨⟩ t rfl
    rw [Nat.sub_add_cancel hpos, List.take_length, List.drop_length, List.append_nil]
    exact ⟨rfl, rfl⟩

end Loops

end moveZeroes

/-- **`moveZeroes` keeps the elements that are not zero, in their order, and puts
the zeros behind them**, and no access is out of bounds. -/
theorem moveZeroes_returns (nums : List ℤ) (h : nums.length < 2 ^ 31) :
    (moveZeroes nums.length).Returns nums ()
        (nums.filter (· ≠ 0) ++ List.replicate (nums.count 0) 0) ∧
      (nums.filter (· ≠ 0) ++ List.replicate (nums.count 0) 0).Perm nums ∧
      ∀ k e, (moveZeroes nums.length).run k nums ≠ some (.error e) := by
  have hrun : (moveZeroes nums.length).Ensures nums
      fun _ l => moveZeroes.Settled nums nums.length l := by
    refine forAll_range_ensures (I := fun i _ l => moveZeroes.Settled nums i l) h ?_
      moveZeroes.settled_zero
    rintro i ⟨⟩ l hi hl
    have hlen : l.length = nums.length := hl.perm.length_eq
    have hne : l ≠ [] := List.ne_nil_of_length_pos (by omega)
    have hint : (int (nums.length - 1 : ℤ)).Returns l ((l.length - 1 : ℕ) : ℤ) l := by
      rw [show (nums.length - 1 : ℤ) = ((l.length - 1 : ℕ) : ℤ) by omega]
      exact int_natCast_returns (by omega) l
    exact hint.bind_ensures ((moveZeroes.inner_returns hne (by omega)).ensures hl.pass)
  obtain ⟨⟨⟩, l, hret, hl⟩ := hrun
  rw [← hl.eq]
  exact ⟨hret, hl.perm, hret.not_faults⟩

/-- `[0, 1, 0, 3, 12]` -/
theorem moveZeroes_returns_main : (moveZeroes 5).Returns [0, 1, 0, 3, 12] () [1, 3, 12, 0, 0] :=
  (moveZeroes_returns [0, 1, 0, 3, 12] (by decide)).1

end DocumentCode
