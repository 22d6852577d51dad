import DocumentCode.CArray
import DocumentCode.ForLoop
import Mathlib.Algebra.Group.Nat.Even
import Mathlib.Algebra.Order.Ring.Canonical
import Mathlib.Data.Finset.Fold
import Mathlib.Data.List.Count

/-!
# The number without a partner

`DocumentCode.singleNumber` takes the XOR of an array. XOR cancels what comes
twice, so what is left is the XOR of the values that occur an odd number of
times, in whatever order they come (`DocumentCode.foldl_xor`). Of an array in
which all values but one are paired that is the one
(`DocumentCode.singleNumber_xor`).
-/

namespace DocumentCode

open Prog

/-! ### The program -/

def singleNumber {σ : Type} (nums : List (BitVec 32)) (numsSize : ℤ) : C σ (BitVec 32) :=
  forAll 0 numsSize 1 (fun i result => do return result ^^^ (← arrayAt nums i)) 0

/-! ### The XOR of a list -/

section Xor

variable {w : ℕ} {l l' : List (BitVec w)} {S : Finset (BitVec w)} {x v : BitVec w}

/-- The values that occur an odd number of times. -/
def oddValues (l : List (BitVec w)) : Finset (BitVec w) :=
  l.toFinset.filter fun v => Odd (l.count v)

/-- The XOR of a set of values. -/
def xorOf (S : Finset (BitVec w)) : BitVec w := S.fold (fun x y => x ^^^ y) 0 id

theorem mem_oddValues : v ∈ oddValues l ↔ Odd (l.count v) := by
  rw [oddValues, Finset.mem_filter, List.mem_toFinset, and_iff_right_iff_imp]
  intro h
  exact List.count_pos_iff.mp h.pos

theorem xorOf_insert (h : x ∉ S) : xorOf (insert x S) = xorOf S ^^^ x := by
  rw [xorOf, Finset.fold_insert h, BitVec.xor_comm]
  rfl

theorem xorOf_erase (h : x ∈ S) : xorOf (S.erase x) = xorOf S ^^^ x := by
  have hS : xorOf S = xorOf (S.erase x) ^^^ x := by
    rw [← xorOf_insert (Finset.notMem_erase x S), Finset.insert_erase h]
  rw [hS, BitVec.xor_assoc, BitVec.xor_self]
  exact BitVec.xor_zero.symm

theorem xorOf_singleton : xorOf {v} = v := by
  rw [xorOf, Finset.fold_singleton]
  exact BitVec.xor_zero

/-- A further element changes sides. -/
theorem mem_oddValues_concat : v ∈ oddValues (l ++ [x]) ↔ (v ∈ oddValues l ↔ v ≠ x) := by
  rw [mem_oddValues, mem_oddValues, List.count_append]
  rcases eq_or_ne v x with rfl | hne
  · rw [List.count_singleton_self, Nat.odd_add_one]
    simp
  · rw [List.count_singleton, if_neg (by simpa using hne.symm), add_zero]
    simp [hne]

/-- **The XOR of a list is that of the values it has an odd number of times.** -/
theorem foldl_xor (l : List (BitVec w)) :
    l.foldl (fun x y => x ^^^ y) 0 = xorOf (oddValues l) := by
  induction l using List.reverseRecOn with
  | nil => rfl
  | append_singleton l x ih =>
    rw [List.foldl_append, ih, List.foldl_cons, List.foldl_nil]
    by_cases hx : x ∈ oddValues l
    · rw [← xorOf_erase hx]
      congr 1
      ext v
      rw [mem_oddValues_concat, Finset.mem_erase]
      grind
    · rw [← xorOf_insert hx]
      congr 1
      ext v
      rw [mem_oddValues_concat, Finset.mem_insert]
      grind

theorem oddValues_perm (h : l.Perm l') : oddValues l = oddValues l' := by
  ext v
  rw [mem_oddValues, mem_oddValues, h.count_eq]

/-- One value without a partner. -/
theorem oddValues_single (hv : l.count v = 1) (hpair : ∀ u ∈ l, u ≠ v → l.count u = 2) :
    oddValues l = {v} := by
  ext u
  rw [mem_oddValues, Finset.mem_singleton]
  constructor
  · intro hodd
    by_contra hne
    rw [hpair u (List.count_pos_iff.mp hodd.pos) hne] at hodd
    exact absurd hodd (by decide)
  · rintro rfl
    rw [hv]
    exact odd_one

end Xor

/-! ### The loop -/

section Correctness

variable {σ : Type} {nums : List (BitVec 32)}

theorem singleNumber_returns (h : nums.length < 2 ^ 31) (s : σ) :
    (singleNumber nums nums.length).Returns s (xorOf (oddValues nums)) s := by
  rw [← foldl_xor]
  refine (forAll_range_ensures (I := fun i result t =>
    result = (nums.take i).foldl (fun x y => x ^^^ y) 0 ∧ t = s) h ?_ ⟨rfl, rfl⟩).returns ?_
  · rintro i result t hi ⟨rfl, rfl⟩
    rw [arrayAt_of_lt hi]
    refine .pure ⟨?_, rfl⟩
    rw [List.take_add_one, List.getElem?_eq_getElem hi, List.foldl_append]
    rfl
  · rintro result t ⟨rfl, rfl⟩
    exact ⟨by rw [List.take_length], rfl⟩

/-- **`singleNumber` is the XOR of the values that occur an odd number of
times.** So it is the one value without a partner, if the others come in pairs,
and the order of the array makes no difference. -/
theorem singleNumber_xor (h : nums.length < 2 ^ 31) (s : σ) :
    (singleNumber nums nums.length).Returns s (xorOf (oddValues nums)) s ∧
      (∀ v, nums.count v = 1 → (∀ u ∈ nums, u ≠ v → nums.count u = 2) →
        (singleNumber nums nums.length).Returns s v s) ∧
      ∀ nums', nums.Perm nums' →
        (singleNumber nums' nums'.length).Returns s (xorOf (oddValues nums)) s := by
  refine ⟨singleNumber_returns h s, ?_, ?_⟩
  · intro v hv hpair
    have hr := singleNumber_returns h s
    rwa [oddValues_single hv hpair, xorOf_singleton] at hr
  · intro nums' hperm
    rw [oddValues_perm hperm]
    exact singleNumber_returns (hperm.length_eq ▸ h) s

end Correctness

/-- `[4, 1, 2, 1, 2]` -/
theorem singleNumber_xor_five :
    (singleNumber [4, 1, 2, 1, 2] 5 : C Unit (BitVec 32)).Returns () 4 () := by
  have h := singleNumber_xor (by decide : [4, 1, 2, 1, 2#32].length < 2 ^ 31) ()
  exact h.2.1 4 rfl (by simp)

end DocumentCode
