import Mathlib.Tactic.Common

/-!
# Transition systems

States, events, and what an event does to a state where it can happen. A run is
a list of events; whatever is left open by a program and its surroundings – which
process takes the next step, what a system call returns – is settled by the
event, so a statement about all runs is one about all orders of steps and all
results.

`DocumentCode.System.ReachableVia` restricts the runs to those whose events all
satisfy a condition on the state they happen in; `DocumentCode.System.Reachable`
is the case without a condition. What holds of every state reached is proved by
`DocumentCode.System.ReachableVia.invariant`, one step at a time, and an explicit
run is evaluated by `DocumentCode.System.runVia`.
-/

namespace DocumentCode

/-- A transition system with states `σ` and events `ε`. -/
structure System (σ ε : Type) where
  /-- The states a run may start in. -/
  Init : σ → Prop
  /-- What an event does, where it can happen. -/
  step : σ → ε → Option σ

namespace System

variable {σ ε : Type} {S : System σ ε} {ok : σ → ε → Prop} {s s' : σ} {e : ε}

/-- A state of a run whose events all satisfy `ok` in the state they happen in. -/
inductive ReachableVia (S : System σ ε) (ok : σ → ε → Prop) : σ → Prop
  /-- A run starts. -/
  | init {s : σ} : S.Init s → ReachableVia S ok s
  /-- A run goes on. -/
  | step {s s' : σ} {e : ε} : ReachableVia S ok s → ok s e → S.step s e = some s' →
      ReachableVia S ok s'

/-- A state of a run. -/
abbrev Reachable (S : System σ ε) : σ → Prop := S.ReachableVia fun _ _ => True

/-- **What holds at the start and is kept by every step holds in every state of a
run.** -/
theorem ReachableVia.invariant {I : σ → Prop} (h : S.ReachableVia ok s)
    (hinit : ∀ s, S.Init s → I s)
    (hstep : ∀ s e s', I s → ok s e → S.step s e = some s' → I s') : I s := by
  induction h with
  | init h => exact hinit _ h
  | step _ hok hs ih => exact hstep _ _ _ ih hok hs

/-- **A run may be taken for one under another condition** where an invariant
makes its own condition imply that one. -/
theorem ReachableVia.mono {I : σ → Prop} {ok' : σ → ε → Prop} (h : S.ReachableVia ok s)
    (hinit : ∀ s, S.Init s → I s)
    (hstep : ∀ s e s', I s → ok s e → S.step s e = some s' → I s')
    (hok : ∀ s e, I s → ok s e → ok' s e) : S.ReachableVia ok' s := by
  induction h with
  | init h => exact .init h
  | step h he hs ih => exact .step ih (hok _ _ (h.invariant hinit hstep) he) hs

section Run

variable [∀ s e, Decidable (ok s e)] {es : List ε}

/-- The state a list of events leads to, if they all satisfy `ok`. -/
def runVia (S : System σ ε) (ok : σ → ε → Prop) [∀ s e, Decidable (ok s e)] :
    List ε → σ → Option σ
  | [], s => some s
  | e :: es, s => if ok s e then S.step s e >>= S.runVia ok es else none

/-- The state a list of events leads to. -/
def run (S : System σ ε) : List ε → σ → Option σ := S.runVia fun _ _ => True

/-- **Running on from a state of a run.** -/
theorem ReachableVia.runVia (h : S.ReachableVia ok s) (hs : S.runVia ok es s = some s') :
    S.ReachableVia ok s' := by
  induction es generalizing s with
  | nil =>
    obtain rfl : s = s' := Option.some.inj hs
    exact h
  | cons e es ih =>
    rw [System.runVia] at hs
    split at hs
    next hok =>
      obtain ⟨s₁, hs₁, hs⟩ := Option.bind_eq_some_iff.mp hs
      exact ih (.step h hok hs₁) hs
    next => cases hs

end Run

end System

end DocumentCode
