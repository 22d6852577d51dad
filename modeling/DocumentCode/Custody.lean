import Mathlib.Data.List.Induction
import Mathlib.Order.Lattice

/-!
# Custody of an object

An object is handed from one holder to the next, and whoever is not its holder leaves it
alone. Some holders never hand it back. The code that works on it keeps a record beside
it, which has to be allocated before it is looked at and is freed once; and it acquires
locks, which it takes in a fixed order and gives back.

What code does to the object is a list of `DocumentCode.Custody.Act`. A
`DocumentCode.Custody.Ledger` says who has the object, whether the record is there and
which locks are held, and `DocumentCode.Custody.Ledger.run` keeps the books: it is
`none` as soon as one act is not allowed – the object is handed on or written to by code
that has given it away, the record is used or freed when it is not there, a lock is
taken out of order or given back without being held.

Where the books are in order, they balance: the object has come back from a holder as
often as it has gone there, but for where it is now
(`DocumentCode.Custody.Ledger.count_give`), so a holder who never hands it back has got it
at most once (`DocumentCode.Custody.Ledger.count_give_le_one`); and likewise for the record
(`DocumentCode.Custody.Ledger.count_allocate`) and for each lock
(`DocumentCode.Custody.Ledger.count_acquire`).
-/

namespace DocumentCode

namespace Custody

/-- Who may hold the object. -/
class Holders (η : Type) where
  /-- Such a holder does not hand it back. -/
  final : η → Bool

/-- One thing that is done to the object, its record or a lock. -/
inductive Act (η ρ : Type)
  /-- The object comes back from `h`. -/
  | take (h : η)
  /-- The object goes to `h`. -/
  | give (h : η)
  /-- The object is written to. -/
  | use
  | allocate
  | free
  /-- The record is read or written. -/
  | consult
  | acquire (r : ρ)
  | release (r : ρ)
  deriving DecidableEq, Repr

/-- The state of the books. -/
structure Ledger (η ρ : Type) where
  /-- Who has the object, if it is not the code at hand. -/
  holder : Option η
  /-- The record is there. -/
  record : Bool
  /-- The locks that are held, the last one first. -/
  held : List ρ
  deriving DecidableEq, Repr

namespace Ledger

variable {η ρ : Type} [DecidableEq η] [Holders η] [LinearOrder ρ]

/-- Enter one act. -/
@[simp] def step (ℓ : Ledger η ρ) : Act η ρ → Option (Ledger η ρ)
  | .take h =>
    if ℓ.holder = some h ∧ Holders.final h = false then some { ℓ with holder := none } else none
  | .give h => if ℓ.holder = none then some { ℓ with holder := some h } else none
  | .use => if ℓ.holder = none then some ℓ else none
  | .allocate => if ℓ.record = false then some { ℓ with record := true } else none
  | .free => if ℓ.record = true then some { ℓ with record := false } else none
  | .consult => if ℓ.record = true then some ℓ else none
  | .acquire r => if ∀ s ∈ ℓ.held, s < r then some { ℓ with held := r :: ℓ.held } else none
  | .release r => if r ∈ ℓ.held then some { ℓ with held := ℓ.held.erase r } else none

/-- Enter a list of acts. -/
def run (ℓ : Ledger η ρ) (as : List (Act η ρ)) : Option (Ledger η ρ) := as.foldlM step ℓ

variable {ℓ ℓ' : Ledger η ρ} {as bs : List (Act η ρ)} {a : Act η ρ} {h : η} {r : ρ}

@[simp] theorem run_nil : ℓ.run [] = some ℓ := rfl

theorem run_append : ℓ.run (as ++ bs) = (ℓ.run as).bind fun ℓ' => ℓ'.run bs :=
  List.foldlM_append

@[simp] theorem run_concat : ℓ.run (as ++ [a]) = (ℓ.run as).bind fun ℓ' => ℓ'.step a := by
  rw [run_append]
  refine congrArg _ (funext fun ℓ' => ?_)
  simp only [run, List.foldlM_cons, List.foldlM_nil]
  exact Option.bind_fun_some _

/-- **Induction over the acts of books that are in order.** -/
theorem run_induction {P : List (Act η ρ) → Ledger η ρ → Prop} (hrun : ℓ.run as = some ℓ')
    (hnil : P [] ℓ)
    (hstep : ∀ as ℓ₁ a ℓ₂, P as ℓ₁ → ℓ₁.step a = some ℓ₂ → P (as ++ [a]) ℓ₂) : P as ℓ' := by
  induction as using List.reverseRecOn generalizing ℓ' with
  | nil =>
    obtain rfl := Option.some.inj hrun
    exact hnil
  | append_singleton as a ih =>
    rw [run_concat] at hrun
    obtain ⟨ℓ₁, h₁, h₂⟩ := Option.bind_eq_some_iff.mp hrun
    exact hstep as ℓ₁ a ℓ' (ih h₁) h₂

/-- What an act asks for and what it leaves behind. -/
theorem step_cases (hs : ℓ.step a = some ℓ') :
    (∃ h, a = .take h ∧ (ℓ.holder = some h ∧ Holders.final h = false) ∧
      ℓ' = { ℓ with holder := none }) ∨
    (∃ h, a = .give h ∧ ℓ.holder = none ∧ ℓ' = { ℓ with holder := some h }) ∨
    (a = .allocate ∧ ℓ.record = false ∧ ℓ' = { ℓ with record := true }) ∨
    (a = .free ∧ ℓ.record = true ∧ ℓ' = { ℓ with record := false }) ∨
    (∃ r, a = .acquire r ∧ (∀ s ∈ ℓ.held, s < r) ∧ ℓ' = { ℓ with held := r :: ℓ.held }) ∨
    (∃ r, a = .release r ∧ r ∈ ℓ.held ∧ ℓ' = { ℓ with held := ℓ.held.erase r }) ∨
    ((a = .use ∨ a = .consult) ∧ ℓ' = ℓ) := by
  cases a <;> simp only [step, Option.ite_none_right_eq_some, Option.some.injEq] at hs <;>
  obtain ⟨hguard, rfl⟩ := hs <;> simp [hguard]
  exact hguard

/-- **The object has gone to a holder as often as it has come back from there**, and
once more if it is there now and was not at first. -/
theorem count_give (hrun : ℓ.run as = some ℓ') :
    as.count (.give h) + (if ℓ.holder = some h then 1 else 0) =
      as.count (.take h) + (if ℓ'.holder = some h then 1 else 0) := by
  refine run_induction
    (P := fun as ℓ' => as.count (.give h) + (if ℓ.holder = some h then 1 else 0) =
      as.count (.take h) + (if ℓ'.holder = some h then 1 else 0))
    hrun (by simp) fun as ℓ₁ a ℓ₂ ih hs => ?_
  simp only [List.count_append, List.count_singleton]
  obtain ⟨g, rfl, ⟨hg, -⟩, rfl⟩ | ⟨g, rfl, hg, rfl⟩ | ⟨rfl, -, rfl⟩ | ⟨rfl, -, rfl⟩ |
    ⟨r, rfl, -, rfl⟩ | ⟨r, rfl, -, rfl⟩ | ⟨rfl | rfl, rfl⟩ := step_cases hs
  case inl =>
    rw [hg] at ih
    by_cases hgh : g = h <;> simp_all
  case inr.inl =>
    rw [hg] at ih
    by_cases hgh : g = h
    · simp_all
      omega
    · simp_all
  all_goals simpa using ih

/-- Nobody takes the object from a holder who does not hand it back. -/
theorem count_take (hrun : ℓ.run as = some ℓ') (hh : Holders.final h = true) :
    as.count (.take h) = 0 := by
  refine run_induction (P := fun as _ => as.count (.take h) = 0) hrun rfl fun as ℓ₁ a ℓ₂ ih hs => ?_
  simp only [List.count_append, List.count_singleton, ih, Nat.zero_add]
  refine if_neg fun ha => ?_
  obtain rfl := eq_of_beq ha
  simp [hh] at hs

/-- **A holder who does not hand the object back gets it at most once.** -/
theorem count_give_le_one (hrun : ℓ.run as = some ℓ') (hh : Holders.final h = true) :
    as.count (.give h) ≤ 1 := by
  have hgive := count_give (h := h) hrun
  rw [count_take hrun hh] at hgive
  split at hgive <;> split at hgive <;> omega

/-- **The record has been freed as often as it has been allocated**, but for the one
that is there. -/
theorem count_allocate (hrun : ℓ.run as = some ℓ') :
    as.count .allocate + ℓ.record.toNat = as.count .free + ℓ'.record.toNat := by
  refine run_induction (P := fun as ℓ' => as.count .allocate + ℓ.record.toNat =
    as.count .free + ℓ'.record.toNat) hrun (by simp) fun as ℓ₁ a ℓ₂ ih hs => ?_
  simp only [List.count_append, List.count_singleton]
  obtain ⟨g, rfl, -, rfl⟩ | ⟨g, rfl, -, rfl⟩ | ⟨rfl, hr, rfl⟩ | ⟨rfl, hr, rfl⟩ | ⟨r, rfl, -, rfl⟩ |
    ⟨r, rfl, -, rfl⟩ | ⟨rfl | rfl, rfl⟩ := step_cases hs
  case inr.inr.inl =>
    simp_all
    omega
  case inr.inr.inr.inl =>
    simp_all
  all_goals simpa using ih

/-- **A lock has been released as often as it has been acquired**, but for those that
are held. -/
theorem count_acquire (hrun : ℓ.run as = some ℓ') :
    as.count (.acquire r) + ℓ.held.count r = as.count (.release r) + ℓ'.held.count r := by
  refine run_induction (P := fun as ℓ' => as.count (.acquire r) + ℓ.held.count r =
    as.count (.release r) + ℓ'.held.count r) hrun (by simp) fun as ℓ₁ a ℓ₂ ih hs => ?_
  simp only [List.count_append, List.count_singleton]
  obtain ⟨g, rfl, -, rfl⟩ | ⟨g, rfl, -, rfl⟩ | ⟨rfl, -, rfl⟩ | ⟨rfl, -, rfl⟩ | ⟨q, rfl, -, rfl⟩ |
    ⟨q, rfl, hq, rfl⟩ | ⟨rfl | rfl, rfl⟩ := step_cases hs
  case inr.inr.inr.inr.inl =>
    by_cases hqr : q = r
    · simp_all
      omega
    · simp_all
  case inr.inr.inr.inr.inr.inl =>
    by_cases hqr : q = r
    · subst hqr
      have := List.count_pos_iff.mpr hq
      simp [List.count_erase_self]
      omega
    · simp [List.count_erase_of_ne (Ne.symm hqr), hqr, ih]
  all_goals simpa using ih

end Ledger

end Custody

end DocumentCode
