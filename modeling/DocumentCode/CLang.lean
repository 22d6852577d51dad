import DocumentCode.Prog
import Mathlib.Algebra.Ring.Int.Defs
import Mathlib.Algebra.Ring.Nat

/-!
# What the C programs share

The faults a C program can run into, and the type `int`. An `int` is an integer
here, and every arithmetic expression of the source is passed through
`DocumentCode.int`, which faults where the 32-bit signed type cannot hold the
value: signed overflow is undefined in C, so nothing can be said of a run that
comes to it.
-/

namespace DocumentCode

/-- What a C program can do wrong. -/
inductive Fault
  /-- The null pointer was dereferenced. -/
  | nullDeref
  /-- A pointer was dereferenced that points to no object. -/
  | wild
  /-- A signed integer expression overflowed. -/
  | overflow
  /-- An array or a string was accessed out of its bounds. -/
  | outOfBounds
  deriving DecidableEq, Repr

/-- A C program over the state `σ`. -/
abbrev C (σ β : Type) : Type := Prog Fault σ β

/-- The values of the type `int`. -/
def InInt (z : ℤ) : Prop := -2 ^ 31 ≤ z ∧ z < 2 ^ 31

instance (z : ℤ) : Decidable (InInt z) := inferInstanceAs (Decidable (_ ∧ _))

/-- The `int` a `size_t` is converted to: the conversion wraps around. -/
def toInt (n : ℕ) : ℤ := (n + 2 ^ 31) % 2 ^ 32 - 2 ^ 31

/-- The `size_t` an `int` is converted to: -1 becomes the greatest one. -/
def toSize (z : ℤ) : ℕ := (z % 2 ^ 64).toNat

/-- The value of an `int` expression. -/
def int {σ : Type} (z : ℤ) : C σ ℤ := if InInt z then pure z else Prog.fault .overflow

section Int

variable {σ : Type} {z : ℤ}

theorem int_of_inInt (h : InInt z) : (int z : C σ ℤ) = pure z := if_pos h

theorem int_of_not_inInt (h : ¬InInt z) : (int z : C σ ℤ) = Prog.fault .overflow := if_neg h

theorem int_of_nonneg (h0 : 0 ≤ z) (h : z < 2 ^ 31) : (int z : C σ ℤ) = pure z :=
  int_of_inInt ⟨by omega, h⟩

theorem int_natCast {n : ℕ} (h : n < 2 ^ 31) : (int (n : ℤ) : C σ ℤ) = pure (n : ℤ) :=
  int_of_nonneg (Int.natCast_nonneg n) (by omega)

theorem int_succ {n : ℕ} (h : n + 1 < 2 ^ 31) :
    (int ((n : ℤ) + 1) : C σ ℤ) = pure ((n + 1 : ℕ) : ℤ) :=
  int_natCast h

/-- The index after one more element. -/
theorem int_succ_length {α : Type} {as : List α} (h : as.length + 1 < 2 ^ 31) (a : α) :
    (int ((as.length : ℤ) + 1) : C σ ℤ) = pure ((as ++ [a]).length : ℤ) := by
  rw [int_succ h, List.length_append, List.length_singleton]

/-- An `int` expression that does not overflow. -/
theorem int_returns (s : σ) (h0 : 0 ≤ z) (h : z < 2 ^ 31) : (int z : C σ ℤ).Returns s z s := by
  rw [int_of_nonneg h0 h]
  exact Prog.Returns.pure z s

theorem int_natCast_returns {n : ℕ} (h : n < 2 ^ 31) (s : σ) :
    (int (n : ℤ) : C σ ℤ).Returns s n s := by
  rw [int_natCast h]
  exact Prog.Returns.pure _ s

/-- Counting up. -/
theorem int_succ_returns {n : ℕ} (h : n + 1 < 2 ^ 31) (s : σ) :
    (int ((n : ℤ) + 1) : C σ ℤ).Returns s ((n + 1 : ℕ) : ℤ) s :=
  int_natCast_returns h s

/-- Counting down, to -1 at the least. -/
theorem int_pred_returns {n : ℕ} (h : n < 2 ^ 31) (s : σ) :
    (int ((n : ℤ) - 1) : C σ ℤ).Returns s ((n : ℤ) - 1) s := by
  rw [int_of_inInt ⟨by omega, by omega⟩]
  exact Prog.Returns.pure _ s

theorem toInt_of_lt {n : ℕ} (h : n < 2 ^ 31) : toInt n = n := by
  rw [toInt, Int.emod_eq_of_lt (by omega) (by omega)]
  omega

theorem toSize_of_nonneg (h0 : 0 ≤ z) (h : z < 2 ^ 64) : toSize z = z.toNat := by
  rw [toSize, Int.emod_eq_of_lt h0 h]

theorem toSize_natCast {n : ℕ} (h : n < 2 ^ 64) : toSize n = n := by
  rw [toSize_of_nonneg (Int.natCast_nonneg n) (by omega), Int.toNat_natCast]

end Int

end DocumentCode
