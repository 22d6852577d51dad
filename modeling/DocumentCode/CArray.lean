import DocumentCode.CLang
import DocumentCode.Ensures
import Mathlib.Data.List.Basic
import Mathlib.Data.List.Range
import Mathlib.Logic.Function.Basic

/-!
# Arrays

An array of C is the list of its elements. A subscript is an `int`, and one that
is negative or at least the length faults: that every access of a program is in
bounds is again read off a run that returns. An array that is only read is a
parameter of the program (`DocumentCode.arrayAt`), one that is written too is its
state (`DocumentCode.load`, `DocumentCode.store`).

The subscripts of a program are met in two ways, and each access has a lemma for
both. Where the program works its way through the array the list is split at the
subscript; where the subscript is computed from what was read it is any number
below the length. An array that tallies something, one entry for each number
below its length, is a function of that number (`DocumentCode.table`).
-/

namespace DocumentCode

open Prog

variable {σ α : Type}

/-- `a[i]` -/
def arrayAt (a : List α) (i : ℤ) : C σ α :=
  if 0 ≤ i then
    match a[i.toNat]? with
    | some x => pure x
    | none => Prog.fault .outOfBounds
  else
    Prog.fault .outOfBounds

/-- The array after `a[i] = x`. -/
def arraySet (a : List α) (i : ℤ) (x : α) : C σ (List α) :=
  if 0 ≤ i ∧ i < a.length then pure (a.set i.toNat x) else Prog.fault .outOfBounds

/-- `a[i]`, the array being the state. -/
def load (i : ℤ) : C (List α) α := do arrayAt (← Prog.get) i

/-- `a[i] = x;`, the array being the state. -/
def store (i : ℤ) (x : α) : C (List α) Unit := do Prog.set (← arraySet (← Prog.get) i x)

/-- `a[i] += d;`, the array being the state. -/
def bump (i d : ℤ) : C (List ℤ) Unit := do store i (← int ((← load i) + d))

section Access

variable {a as cs : List α} {x y : α} {n : ℕ} {i : ℤ}

theorem arrayAt_of_getElem? (h : a[n]? = some x) : (arrayAt a n : C σ α) = pure x := by
  rw [arrayAt, if_pos (Int.natCast_nonneg n), Int.toNat_natCast, h]

theorem arrayAt_of_lt (h : n < a.length) : (arrayAt a n : C σ α) = pure a[n] :=
  arrayAt_of_getElem? (List.getElem?_eq_getElem h)

theorem arrayAt_append : (arrayAt (as ++ x :: cs) as.length : C σ α) = pure x :=
  arrayAt_of_getElem? (by rw [List.getElem?_append_right le_rfl, Nat.sub_self]; rfl)

theorem arraySet_of_lt (h : n < a.length) : (arraySet a n x : C σ (List α)) = pure (a.set n x) := by
  rw [arraySet, if_pos ⟨Int.natCast_nonneg n, by omega⟩, Int.toNat_natCast]

theorem arraySet_append : (arraySet (as ++ x :: cs) as.length y : C σ (List α)) =
    pure (as ++ y :: cs) := by
  rw [arraySet_of_lt (by simp), List.set_append_right _ _ le_rfl, Nat.sub_self, List.set_cons_zero]

theorem load_returns (h : a[n]? = some x) : (load n).Returns a x a := by
  refine .bind (Returns.get a) ?_
  rw [arrayAt_of_getElem? h]
  exact Returns.pure x a

theorem load_append : (load as.length).Returns (as ++ x :: cs) x (as ++ x :: cs) :=
  load_returns (by rw [List.getElem?_append_right le_rfl, Nat.sub_self]; rfl)

theorem store_returns (h : n < a.length) : (store n x).Returns a () (a.set n x) := by
  refine .bind (Returns.get a) ?_
  rw [arraySet_of_lt h]
  exact Returns.set a (a.set n x)

theorem store_append : (store as.length y).Returns (as ++ x :: cs) () (as ++ y :: cs) := by
  have h : (store as.length y).Returns (as ++ x :: cs) () ((as ++ x :: cs).set as.length y) :=
    store_returns (by simp)
  rwa [List.set_append_right _ _ le_rfl, Nat.sub_self, List.set_cons_zero] at h

end Access

/-! ### Tables -/

/-- An array that has `f k` at `k`. -/
def table (n : ℕ) (f : ℕ → α) : List α := (List.range n).map f

section Table

variable {n k : ℕ} {f : ℕ → α} {x : α}

@[simp] theorem length_table : (table n f).length = n := by
  rw [table, List.length_map, List.length_range]

theorem getElem?_table (h : k < n) : (table n f)[k]? = some (f k) := by
  rw [table, List.getElem?_map, List.getElem?_range h, Option.map_some]

theorem set_table : (table n f).set k x = table n (Function.update f k x) := by
  refine List.ext_getElem? fun j => ?_
  rcases lt_or_ge j n with hj | hj
  · rw [getElem?_table hj]
    rcases eq_or_ne k j with rfl | hne
    · rw [List.getElem?_set_self (by rw [length_table]; exact hj), Function.update_self]
    · rw [List.getElem?_set_ne hne, getElem?_table hj, Function.update_of_ne hne.symm]
  · rw [List.getElem?_eq_none (by simpa), List.getElem?_eq_none (by simpa)]

theorem load_table (h : k < n) : (load k).Returns (table n f) (f k) (table n f) :=
  load_returns (getElem?_table h)

theorem store_table (h : k < n) :
    (store k x).Returns (table n f) () (table n (Function.update f k x)) := by
  rw [← set_table]
  exact store_returns (by rw [length_table]; exact h)

/-- **An entry of a table is changed.** -/
theorem bump_table {g : ℕ → ℤ} {d : ℤ} (h : k < n) (hin : InInt (g k + d)) :
    (bump k d).Returns (table n g) () (table n (Function.update g k (g k + d))) := by
  refine .bind (load_table h) ?_
  rw [int_of_inInt hin]
  exact .bind (Returns.pure _ _) (store_table h)

end Table

end DocumentCode
