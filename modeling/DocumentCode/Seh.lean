import Mathlib.Tactic.Common

/-!
# Structured exceptions

Straight-line code with `try` blocks, as compilers for Windows have it: a block can
be left early (`goto` its end), an exception can be raised in it, a `finally` part
runs however the block comes to its end, and an `except` part takes an exception
up. Code may also stop for good – the machine goes down, or a loop is never left –
and then nothing runs after it.

A program of `DocumentCode.Seh` over the state `σ` is a function of that state; the
local variables that a `finally` part looks at are part of it, since they have to
survive an exception.

What is said of a program is said by `DocumentCode.Seh.wp`, its weakest
precondition: `c.wp Q s` holds where running `c` from `s` ends in a way and in a
state that `Q` holds of. The rules for the constructs are equations, one for each,
and they compute the precondition of any program of straight-line code.
-/

namespace DocumentCode

/-- How a piece of code comes to its end. -/
inductive Exit (ε β : Type)
  /-- At its last line, with a value. -/
  | done (b : β)
  /-- On the way to the end of the `try` block it is in. -/
  | leave
  /-- With an exception. -/
  | raised (e : ε)
  /-- Not at all. -/
  | stopped
  deriving DecidableEq, Repr

/-- A program over the state `σ` with exceptions in `ε` and values in `β`. -/
def Seh (ε σ β : Type) : Type := σ → Exit ε β × σ

namespace Seh

variable {ε σ τ α β γ : Type}

instance : Monad (Seh ε σ) where
  pure b s := (.done b, s)
  bind c f s := match c s with
    | (.done b, s') => f b s'
    | (.leave, s') => (.leave, s')
    | (.raised e, s') => (.raised e, s')
    | (.stopped, s') => (.stopped, s')

/-- Read the state. -/
def get : Seh ε σ σ := fun s => (.done s, s)

/-- Change the state. -/
def modify (f : σ → σ) : Seh ε σ Unit := fun s => (.done (), f s)

/-- `goto try_exit` -/
def leave : Seh ε σ β := fun s => (.leave, s)

/-- Raise an exception. -/
def raise (e : ε) : Seh ε σ β := fun s => (.raised e, s)

/-- Stop for good. -/
def stop : Seh ε σ β := fun s => (.stopped, s)

/-- `if (b) { c }` -/
def when (b : Bool) (c : Seh ε σ Unit) : Seh ε σ Unit := if b then c else pure ()

/-- `body; label: ...`, the label being that of `leave`. -/
def block (body : Seh ε σ Unit) : Seh ε σ Unit := fun s =>
  match body s with
  | (.leave, s') => (.done (), s')
  | r => r

/-- `try { body } finally { fin }`, the label of the block being the end of `body`. -/
def tryFinally (body : Seh ε σ Unit) (fin : Seh ε σ Unit) : Seh ε σ Unit := fun s =>
  match body s with
  | (.done _, s') => fin s'
  | (.leave, s') => fin s'
  | (.raised e, s') => match fin s' with
    | (.done _, s'') => (.raised e, s'')
    | r => r
  | (.stopped, s') => (.stopped, s')

/-- `try { body } except (...) { handler }`, the exception being taken up. -/
def tryExcept (body : Seh ε σ β) (handler : ε → Seh ε σ β) : Seh ε σ β := fun s =>
  match body s with
  | (.raised e, s') => handler e s'
  | r => r

/-- Run a function with local variables of its own, which start as `init`. -/
def locals (init : τ) (body : Seh ε (σ × τ) β) : Seh ε σ β := fun s =>
  ((body (s, init)).1, (body (s, init)).2.1)

/-- What does not know of local variables runs beside them. -/
instance : MonadLift (Seh ε σ) (Seh ε (σ × τ)) where
  monadLift c p := ((c p.1).1, (c p.1).2, p.2)

/-- Read the local variables. -/
def getVars : Seh ε (σ × τ) τ := fun p => (.done p.2, p)

/-- Assign to local variables. -/
def vars (f : τ → τ) : Seh ε (σ × τ) Unit := fun p => (.done (), p.1, f p.2)

/-! ### Weakest preconditions -/

/-- **Running the program from `s` ends as `Q` says.** -/
def wp (c : Seh ε σ β) (Q : Exit ε β → σ → Prop) (s : σ) : Prop := Q (c s).1 (c s).2

variable {c : Seh ε σ β} {f : β → Seh ε σ γ} {Q Q' : Exit ε β → σ → Prop} {s : σ}

/-- **Consequence.** -/
theorem wp.mono (h : c.wp Q s) (hQ : ∀ r s', Q r s' → Q' r s') : c.wp Q' s := hQ _ _ h

@[simp] theorem wp_pure (b : β) : (pure b : Seh ε σ β).wp Q s ↔ Q (.done b) s := Iff.rfl

/-- What follows a program is only reached from its last line. -/
def next (f : β → Seh ε σ γ) (R : Exit ε γ → σ → Prop) : Exit ε β → σ → Prop
  | .done b, s => (f b).wp R s
  | .leave, s => R .leave s
  | .raised e, s => R (.raised e) s
  | .stopped, s => R .stopped s

/-- **Sequencing.** -/
@[simp] theorem wp_bind {R : Exit ε γ → σ → Prop} :
    (c >>= f).wp R s ↔ c.wp (next f R) s := by
  simp only [wp, bind]
  rcases c s with ⟨_ | _ | _ | _, s'⟩ <;> rfl

@[simp] theorem wp_get {Q : Exit ε σ → σ → Prop} : (get : Seh ε σ σ).wp Q s ↔ Q (.done s) s :=
  Iff.rfl

@[simp] theorem wp_modify {Q : Exit ε Unit → σ → Prop} {g : σ → σ} :
    (modify g : Seh ε σ Unit).wp Q s ↔ Q (.done ()) (g s) := Iff.rfl

@[simp] theorem wp_leave : (leave : Seh ε σ β).wp Q s ↔ Q .leave s := Iff.rfl

@[simp] theorem wp_raise {e : ε} : (raise e : Seh ε σ β).wp Q s ↔ Q (.raised e) s := Iff.rfl

@[simp] theorem wp_stop : (stop : Seh ε σ β).wp Q s ↔ Q .stopped s := Iff.rfl

/-- **A choice.** -/
@[simp] theorem wp_ite {p : Prop} [Decidable p] {d : Seh ε σ β} :
    (if p then c else d).wp Q s ↔ (p → c.wp Q s) ∧ (¬p → d.wp Q s) := by
  split <;> simp_all

@[simp] theorem wp_when {b : Bool} {c : Seh ε σ Unit} {Q : Exit ε Unit → σ → Prop} :
    (when b c).wp Q s ↔ (b = true → c.wp Q s) ∧ (b = false → Q (.done ()) s) := by
  cases b <;> simp [when]

/-- What a label makes of the end of what stands before it. -/
def atLabel (Q : Exit ε Unit → σ → Prop) : Exit ε Unit → σ → Prop
  | .leave, s => Q (.done ()) s
  | r, s => Q r s

/-- **A label.** -/
@[simp] theorem wp_block {body : Seh ε σ Unit} {Q : Exit ε Unit → σ → Prop} :
    (block body).wp Q s ↔ body.wp (atLabel Q) s := by
  simp only [wp, block]
  rcases body s with ⟨_ | _ | _ | _, s'⟩ <;> rfl

/-- What a `finally` part makes of the end of its block. -/
def atFinally (fin : Seh ε σ Unit) (Q : Exit ε Unit → σ → Prop) : Exit ε Unit → σ → Prop
  | .done _, s => fin.wp Q s
  | .leave, s => fin.wp Q s
  | .raised e, s => fin.wp (fun | .done _, s' => Q (.raised e) s' | r, s' => Q r s') s
  | .stopped, s => Q .stopped s

/-- **A block with a `finally` part.** -/
@[simp] theorem wp_tryFinally {body fin : Seh ε σ Unit} {Q : Exit ε Unit → σ → Prop} :
    (tryFinally body fin).wp Q s ↔ body.wp (atFinally fin Q) s := by
  simp only [wp, tryFinally]
  rcases body s with ⟨_ | _ | e | _, s'⟩
  · rfl
  · rfl
  · simp only [atFinally, wp]
    rcases fin s' with ⟨_ | _ | _ | _, s''⟩ <;> rfl
  · rfl

/-- What an `except` part makes of the end of its block. -/
def atExcept (handler : ε → Seh ε σ β) (Q : Exit ε β → σ → Prop) : Exit ε β → σ → Prop
  | .raised e, s => (handler e).wp Q s
  | r, s => Q r s

/-- **A block with an `except` part.** -/
@[simp] theorem wp_tryExcept {handler : ε → Seh ε σ β} :
    (tryExcept c handler).wp Q s ↔ c.wp (atExcept handler Q) s := by
  simp only [wp, tryExcept]
  rcases c s with ⟨_ | _ | _ | _, s'⟩ <;> rfl

/-- **Local variables.** -/
@[simp] theorem wp_locals {init : τ} {body : Seh ε (σ × τ) β} :
    (locals init body).wp Q s ↔ body.wp (fun r p => Q r p.1) (s, init) := Iff.rfl

@[simp] theorem wp_liftM {Q : Exit ε β → σ × τ → Prop} {p : σ × τ} :
    (liftM c : Seh ε (σ × τ) β).wp Q p ↔ c.wp (fun r s => Q r (s, p.2)) p.1 := Iff.rfl

@[simp] theorem wp_getVars {Q : Exit ε τ → σ × τ → Prop} {p : σ × τ} :
    (getVars : Seh ε (σ × τ) τ).wp Q p ↔ Q (.done p.2) p := Iff.rfl

@[simp] theorem wp_vars {f : τ → τ} {Q : Exit ε Unit → σ × τ → Prop} {p : σ × τ} :
    (vars f : Seh ε (σ × τ) Unit).wp Q p ↔ Q (.done ()) (p.1, f p.2) := Iff.rfl

/-! ### Code in parts

Straight-line code with early exits is proved part by part: each part either comes to
its last line, where the next one takes it up, or is already where the whole is to
end. -/

/-- The last line is reached as `P` says, and every other end is one that `R` allows. -/
def upTo (P : β → σ → Prop) (R : Exit ε γ → σ → Prop) : Exit ε β → σ → Prop
  | .done b, s => P b s
  | .leave, s => R .leave s
  | .raised e, s => R (.raised e) s
  | .stopped, s => R .stopped s

theorem wp.weaken {P P' : β → σ → Prop} {R : Exit ε γ → σ → Prop} (hc : c.wp (upTo P R) s)
    (hP : ∀ b s', P b s' → P' b s') : c.wp (upTo P' R) s :=
  hc.mono fun r s' h => by
    rcases r with b | _ | _ | _
    exacts [hP b s' h, h, h, h]

/-- The last part. -/
theorem wp.last {P : β → σ → Prop} {R : Exit ε β → σ → Prop} (hc : c.wp (upTo P R) s)
    (hP : ∀ b s', P b s' → R (.done b) s') : c.wp R s :=
  hc.mono fun r s' h => by
    rcases r with b | _ | _ | _
    exacts [hP b s' h, h, h, h]

/-- A part of a part. -/
@[simp] theorem upTo_upTo {P : β → σ → Prop} {P' : α → σ → Prop} {R : Exit ε γ → σ → Prop} :
    upTo P (upTo P' R) = upTo P R := by
  funext r s
  rcases r with _ | _ | _ | _ <;> rfl

/-- **One part after another.** -/
theorem wp.seq {P : β → σ → Prop} {R : Exit ε γ → σ → Prop} (hc : c.wp (upTo P R) s)
    (hf : ∀ b s', P b s' → (f b).wp R s') : (c >>= f).wp R s := by
  rw [wp_bind]
  refine hc.mono fun r s' h => ?_
  rcases r with b | _ | e | _
  · exact hf b s' h
  · exact h
  · exact h
  · exact h

section Exits

variable {R : Exit ε γ → σ → Prop} {Q : Exit ε Unit → σ → Prop} {fin : Seh ε σ Unit}
  {handler : ε → Seh ε σ β} {S : Exit ε β → σ → Prop} {b : β} {e : ε}

@[simp] theorem next_done : next f R (.done b) s ↔ (f b).wp R s := Iff.rfl
@[simp] theorem next_leave : next f R .leave s ↔ R .leave s := Iff.rfl
@[simp] theorem next_raised : next f R (.raised e) s ↔ R (.raised e) s := Iff.rfl
@[simp] theorem next_stopped : next f R .stopped s ↔ R .stopped s := Iff.rfl

section UpTo

variable {P : β → σ → Prop}

@[simp] theorem upTo_done : upTo P R (.done b) s ↔ P b s := Iff.rfl
@[simp] theorem upTo_leave : upTo P R .leave s ↔ R .leave s := Iff.rfl
@[simp] theorem upTo_raised : upTo P R (.raised e) s ↔ R (.raised e) s := Iff.rfl
@[simp] theorem upTo_stopped : upTo P R .stopped s ↔ R .stopped s := Iff.rfl

end UpTo

@[simp] theorem atFinally_done {u : Unit} : atFinally fin Q (.done u) s ↔ fin.wp Q s := Iff.rfl
@[simp] theorem atFinally_leave : atFinally fin Q .leave s ↔ fin.wp Q s := Iff.rfl
@[simp] theorem atFinally_raised : atFinally fin Q (.raised e) s ↔
    fin.wp (fun | .done _, s' => Q (.raised e) s' | r, s' => Q r s') s := Iff.rfl
@[simp] theorem atFinally_stopped : atFinally fin Q .stopped s ↔ Q .stopped s := Iff.rfl

@[simp] theorem atLabel_done {u : Unit} : atLabel Q (.done u) s ↔ Q (.done u) s := Iff.rfl
@[simp] theorem atLabel_leave : atLabel Q .leave s ↔ Q (.done ()) s := Iff.rfl
@[simp] theorem atLabel_raised : atLabel Q (.raised e) s ↔ Q (.raised e) s := Iff.rfl
@[simp] theorem atLabel_stopped : atLabel Q .stopped s ↔ Q .stopped s := Iff.rfl

@[simp] theorem atExcept_done : atExcept handler S (.done b) s ↔ S (.done b) s := Iff.rfl
@[simp] theorem atExcept_leave : atExcept handler S .leave s ↔ S .leave s := Iff.rfl
@[simp] theorem atExcept_raised : atExcept handler S (.raised e) s ↔ (handler e).wp S s := Iff.rfl
@[simp] theorem atExcept_stopped : atExcept handler S .stopped s ↔ S .stopped s := Iff.rfl

end Exits

/-! ### What a program keeps

A statement about the state that no part of a program touches holds after it, however it
ends. -/

/-- **The program keeps `I`**, however it ends. -/
def Keeps (I : σ → Prop) (c : Seh ε σ β) : Prop := ∀ s, I s → c.wp (fun _ => I) s

section Keeps

variable {I : σ → Prop}

@[simp] theorem keeps_pure (b : β) : (pure b : Seh ε σ β).Keeps I := fun _ h => h

@[simp] theorem keeps_get : (get : Seh ε σ σ).Keeps I := fun _ h => h

@[simp] theorem keeps_bind (hc : c.Keeps I) (hf : ∀ b, (f b).Keeps I) : (c >>= f).Keeps I := by
  intro s hs
  rw [wp_bind]
  refine (hc s hs).mono fun r s' hs' => ?_
  rcases r with b | _ | _ | _
  exacts [hf b s' hs', hs', hs', hs']

@[simp] theorem keeps_ite {p : Prop} [Decidable p] {d : Seh ε σ β} (hc : c.Keeps I)
    (hd : d.Keeps I) : (if p then c else d).Keeps I := by
  split
  exacts [hc, hd]

@[simp] theorem keeps_when {b : Bool} {c : Seh ε σ Unit} (hc : c.Keeps I) : (when b c).Keeps I :=
  keeps_ite hc (keeps_pure ())

@[simp] theorem keeps_tryFinally {body fin : Seh ε σ Unit} (hb : body.Keeps I)
    (hf : fin.Keeps I) : (tryFinally body fin).Keeps I := by
  intro s hs
  rw [wp_tryFinally]
  refine (hb s hs).mono fun r s' hs' => ?_
  rcases r with _ | _ | _ | _
  · exact hf s' hs'
  · exact hf s' hs'
  · rw [atFinally_raised]
    refine (hf s' hs').mono fun r s'' hs'' => ?_
    rcases r with _ | _ | _ | _
    exacts [hs'', hs'', hs'', hs'']
  · exact hs'

@[simp] theorem keeps_tryExcept {handler : ε → Seh ε σ β} (hc : c.Keeps I)
    (hh : ∀ e, (handler e).Keeps I) : (tryExcept c handler).Keeps I := by
  intro s hs
  rw [wp_tryExcept]
  refine (hc s hs).mono fun r s' hs' => ?_
  rcases r with _ | _ | e | _
  exacts [hs', hs', hh e s' hs', hs']

/-- What is kept beside a statement `J` about the local variables. -/
theorem keeps_locals {J : τ → Prop} {init : τ} {body : Seh ε (σ × τ) β} (hinit : J init)
    (hb : body.Keeps fun p => I p.1 ∧ J p.2) : (locals init body).Keeps I :=
  fun s hs => (hb (s, init) ⟨hs, hinit⟩).mono fun _ _ h => h.1

@[simp] theorem keeps_liftM (hc : c.Keeps I) :
    (liftM c : Seh ε (σ × τ) β).Keeps fun p => I p.1 := fun p hp => hc p.1 hp

theorem keeps_liftM_beside {J : τ → Prop} (hc : c.Keeps I) :
    (liftM c : Seh ε (σ × τ) β).Keeps fun p => I p.1 ∧ J p.2 :=
  fun p hp => wp_liftM.mpr ((hc p.1 hp.1).mono fun _ _ h => ⟨h, hp.2⟩)

@[simp] theorem keeps_getVars {I : σ × τ → Prop} : (getVars : Seh ε (σ × τ) τ).Keeps I :=
  fun _ h => h

@[simp] theorem keeps_vars {g : τ → τ} :
    (vars g : Seh ε (σ × τ) Unit).Keeps fun p => I p.1 := fun _ h => h

end Keeps

end Seh

end DocumentCode
