import DocumentCode.Transition
import Mathlib.Algebra.Order.Group.Int
import Mathlib.Data.Int.Cast.Basic
import Mathlib.Data.List.Basic

/-!
# Threads over a shared state

A transition system made of threads: each has a state of its own, `Λ`, all share
a state `σ`, and one of them at a time takes a step. New threads may appear at
any moment. What a thread may do is `DocumentCode.Threads.next`; a choice `κ` that
comes with the step settles what is not up to the program, such as the answers of
the surroundings.

Nothing here names a program. The rules are about two things that are claimed of
threads everywhere and that no thread can claim alone:

* **mutual exclusion** (`DocumentCode.Threads.Exclusive`): a lock that names its
  holder is held by the thread whose own state says so, and by no other;
* **counting** (`DocumentCode.Threads.counted`): a counter each thread adjusts by
  its own entering and leaving is the number of the threads inside, as far as the
  values of the counter can tell numbers apart.

Both reduce a statement about all runs to one about a single step of a single
thread.
-/

namespace DocumentCode

/-- Threads with states in `Λ` over a shared state in `σ`, with choices in `κ`. -/
structure Threads (σ Λ κ : Type) where
  /-- The shared state a run starts in. -/
  start : σ
  /-- The threads there are at the start. -/
  initial : List Λ
  /-- The states a thread may appear in, the shared state being given. -/
  spawns : σ → Λ → Prop
  /-- The step of the thread with a given number. -/
  next : κ → ℕ → σ → Λ → Option (σ × Λ)

namespace Threads

variable {σ Λ κ : Type}

/-- The shared state and the threads. -/
structure State (σ Λ : Type) where
  shared : σ
  threads : List Λ
  deriving DecidableEq, Repr

/-- Thread `i` is in the state `l`. -/
abbrev State.At (s : State σ Λ) (i : ℕ) (l : Λ) : Prop := s.threads[i]? = some l

/-- What happens next. -/
inductive Event (Λ κ : Type)
  /-- A thread appears. -/
  | spawn (l : Λ)
  /-- Thread `i` takes a step. -/
  | go (i : ℕ) (c : κ)

variable (T : Threads σ Λ κ)

/-- The step of thread `i`. -/
def go (s : State σ Λ) (i : ℕ) (c : κ) : Option (State σ Λ) := do
  let l ← s.threads[i]?
  let (shared, l') ← T.next c i s.shared l
  return { shared, threads := s.threads.set i l' }

/-- The threads as a transition system. -/
def system [∀ x l, Decidable (T.spawns x l)] : System (State σ Λ) (Event Λ κ) where
  Init s := s = ⟨T.start, T.initial⟩
  step s
    | .spawn l =>
      if T.spawns s.shared l then some { s with threads := s.threads ++ [l] } else none
    | .go i c => T.go s i c

variable {T} {s s' : State σ Λ} {i j : ℕ} {l l' : Λ} {c : κ}

/-! ### One step -/

/-- **What a step of a thread can do**: it replaces the shared state and its own. -/
theorem go_cases (h : T.go s i c = some s') :
    ∃ l shared l', s.At i l ∧ T.next c i s.shared l = some (shared, l') ∧
      s' = ⟨shared, s.threads.set i l'⟩ := by
  obtain ⟨l, hl, h⟩ := Option.bind_eq_some_iff.mp h
  obtain ⟨⟨shared, l'⟩, hnext, h⟩ := Option.bind_eq_some_iff.mp h
  exact ⟨l, shared, l', hl, hnext, (Option.some.inj h).symm⟩

theorem lt_length_of_getElem? {ls : List Λ} (h : ls[i]? = some l) : i < ls.length :=
  (List.getElem?_eq_some_iff.mp h).1

theorem getElem?_set_of_ne {ls : List Λ} (h : j ≠ i) : (ls.set i l)[j]? = ls[j]? := by
  rw [List.getElem?_set_ne h.symm]

theorem getElem?_set_self {ls : List Λ} (h : ls[i]? = some l) : (ls.set i l')[i]? = some l' := by
  rw [List.getElem?_set_self (lt_length_of_getElem? h)]

/-- The threads after a step are the one that moved and the others. -/
theorem of_getElem?_set {ls : List Λ} {m : Λ} (h : ls[i]? = some l)
    (hm : (ls.set i l')[j]? = some m) : (j = i ∧ m = l') ∨ (j ≠ i ∧ ls[j]? = some m) := by
  rcases eq_or_ne j i with rfl | hne
  · rw [getElem?_set_self h] at hm
    exact Or.inl ⟨rfl, (Option.some.inj hm).symm⟩
  · rw [getElem?_set_of_ne hne] at hm
    exact Or.inr ⟨hne, hm⟩

/-- The threads after another one has appeared. -/
theorem of_getElem?_append {ls : List Λ} {m : Λ} (hm : (ls ++ [l])[j]? = some m) :
    ls[j]? = some m ∨ (j = ls.length ∧ m = l) := by
  rcases Nat.lt_or_ge j ls.length with hlt | hge
  · rw [List.getElem?_append_left hlt] at hm
    exact Or.inl hm
  · rw [List.getElem?_append_right hge, List.getElem?_singleton] at hm
    split at hm
    · exact Or.inr ⟨by omega, (Option.some.inj hm).symm⟩
    · cases hm

section Run

variable {x x' : σ} {ls : List Λ}

/-- Thread `i` takes a number of steps while the others rest. -/
def alone (T : Threads σ Λ κ) (i : ℕ) : List κ → σ → Λ → Option (σ × Λ)
  | [], x, l => some (x, l)
  | c :: cs, x, l => T.next c i x l >>= fun p => T.alone i cs p.1 p.2

/-- The step of the thread that came last. -/
theorem go_last (h : T.next c ls.length x l = some (x', l')) :
    T.go ⟨x, ls ++ [l]⟩ ls.length c = some ⟨x', ls ++ [l']⟩ := by
  have hl : (ls ++ [l])[ls.length]? = some l := by
    rw [List.getElem?_append_right le_rfl, Nat.sub_self, List.getElem?_cons_zero]
  have hset : (ls ++ [l]).set ls.length l' = ls ++ [l'] := by
    rw [List.set_append_right _ _ le_rfl, Nat.sub_self, List.set_cons_zero]
  simp only [go, hl, Option.bind_eq_bind, Option.bind_some, h, hset]
  rfl

variable [∀ x l, Decidable (T.spawns x l)]

theorem system_step_spawn {s : State σ Λ} (h : T.spawns s.shared l) :
    T.system.step s (.spawn l) = some { s with threads := s.threads ++ [l] } := if_pos h

/-- A thread appears. -/
theorem reachable_spawn (h : T.system.Reachable ⟨x, ls⟩) (hl : T.spawns x l) :
    T.system.Reachable ⟨x, ls ++ [l]⟩ :=
  h.step trivial (system_step_spawn hl)

/-- The thread that came last takes a number of steps. -/
theorem reachable_alone (h : T.system.Reachable ⟨x, ls ++ [l]⟩) (cs : List κ)
    (hrun : T.alone ls.length cs x l = some (x', l')) :
    T.system.Reachable ⟨x', ls ++ [l']⟩ := by
  induction cs generalizing x l with
  | nil =>
    obtain ⟨rfl, rfl⟩ := Prod.mk.inj (Option.some.inj hrun)
    exact h
  | cons c cs ih =>
    obtain ⟨⟨x₁, l₁⟩, hnext, hrun⟩ := Option.bind_eq_some_iff.mp hrun
    exact ih (h.step (e := .go ls.length c) trivial (go_last hnext)) hrun

/-- **What holds at the start and is kept by every appearance and by every step of a
thread holds in every state of a run.** -/
theorem invariant {ok : State σ Λ → Event Λ κ → Prop} {I : State σ Λ → Prop}
    (h : T.system.ReachableVia ok s) (hinit : I ⟨T.start, T.initial⟩)
    (hspawn : ∀ s l, I s → ok s (.spawn l) → T.spawns s.shared l →
      I { s with threads := s.threads ++ [l] })
    (hgo : ∀ s i c s', I s → ok s (.go i c) → T.go s i c = some s' → I s') : I s := by
  refine System.ReachableVia.invariant h (fun s hs => ?_) fun s e s' hI hok hstep => ?_
  · obtain rfl : s = ⟨T.start, T.initial⟩ := hs
    exact hinit
  · cases e with
    | spawn l =>
      simp only [system] at hstep
      split at hstep
      next hl => exact Option.some.inj hstep ▸ hspawn s l hI hok hl
      next => cases hstep
    | go i c => exact hgo s i c s' hI hok hstep

/-- A step takes no thread away. -/
theorem length_le_of_step {e : Event Λ κ} (h : T.system.step s e = some s') :
    s.threads.length ≤ s'.threads.length := by
  cases e with
  | spawn l =>
    simp only [system] at h
    split at h
    next =>
      obtain rfl := Option.some.inj h
      simp
    next => cases h
  | go i c =>
    obtain ⟨l, x, l', -, -, rfl⟩ := go_cases h
    rw [List.length_set]

end Run

/-! ### Local invariants -/

/-- What holds of every thread is kept by a step that keeps it for the one that
moves, and the others do not notice. -/
theorem forall_set {P : ℕ → Λ → Prop} {x : σ} (hl : s.At i l) (hself : P i l')
    (hother : ∀ j m, j ≠ i → s.At j m → P j m) :
    ∀ j m, State.At ⟨x, s.threads.set i l'⟩ j m → P j m := by
  intro j m hm
  rcases of_getElem?_set hl hm with ⟨rfl, rfl⟩ | ⟨hne, hm⟩
  · exact hself
  · exact hother j m hne hm

theorem forall_append {P : ℕ → Λ → Prop} {x : σ} (hold : ∀ j m, s.At j m → P j m)
    (hnew : P s.threads.length l) :
    ∀ j m, State.At ⟨x, s.threads ++ [l]⟩ j m → P j m := by
  intro j m hm
  rcases of_getElem?_append hm with hm | ⟨rfl, rfl⟩
  · exact hold j m hm
  · exact hnew

/-! ### Mutual exclusion -/

/-- The threads agree with the lock on who holds it. -/
def Exclusive (holder : σ → Option ℕ) (holds : Λ → Bool) (s : State σ Λ) : Prop :=
  (∀ i l, s.At i l → (holds l = true ↔ holder s.shared = some i)) ∧
    ∀ i, holder s.shared = some i → i < s.threads.length

/-- A step of thread `i` takes the lock where it is free, gives it back where it is
its own, or leaves it alone. The lock is held by `o` before the step and by `o'`
after it; that thread `i` holds it is `b` before and `b'` after. -/
def LockStep (i : ℕ) (o : Option ℕ) (b : Bool) (o' : Option ℕ) (b' : Bool) : Prop :=
  (o = none ∧ o' = some i ∧ b' = true) ∨ (o = some i ∧ o' = none ∧ b' = false) ∨
    (o' = o ∧ b' = b)

namespace LockStep

variable {o o' : Option ℕ} {b b' : Bool}

/-- The thread that moves still agrees with the lock. -/
theorem self (h : LockStep i o b o' b') (hb : b = true ↔ o = some i) :
    b' = true ↔ o' = some i := by
  rcases h with ⟨-, rfl, rfl⟩ | ⟨-, rfl, rfl⟩ | ⟨rfl, rfl⟩
  · simp
  · simp
  · exact hb

/-- To the others nothing has changed. -/
theorem other (h : LockStep i o b o' b') (hne : j ≠ i) : o' = some j ↔ o = some j := by
  rcases h with ⟨rfl, rfl, -⟩ | ⟨rfl, rfl, -⟩ | ⟨rfl, -⟩
  · simp [hne.symm]
  · simp [hne.symm]
  · rfl

end LockStep

variable {holder : σ → Option ℕ} {holds : Λ → Bool}

theorem Exclusive.go (h : Exclusive holder holds s)
    (hstep : ∀ l x l', (holds l = true ↔ holder s.shared = some i) →
      T.next c i s.shared l = some (x, l') →
      LockStep i (holder s.shared) (holds l) (holder x) (holds l'))
    (hs : T.go s i c = some s') : Exclusive holder holds s' := by
  obtain ⟨l, x, l', hl, hnext, rfl⟩ := go_cases hs
  have hlock := hstep l x l' (h.1 i l hl) hnext
  refine ⟨forall_set hl (hlock.self (h.1 i l hl)) fun j m hne hm => ?_, fun j hj => ?_⟩
  · exact (h.1 j m hm).trans (hlock.other hne).symm
  · rw [List.length_set]
    rcases eq_or_ne j i with rfl | hne
    · exact lt_length_of_getElem? hl
    · exact h.2 j ((hlock.other hne).mp hj)

theorem Exclusive.spawn (h : Exclusive holder holds s) (hl : holds l = false) :
    Exclusive holder holds { s with threads := s.threads ++ [l] } := by
  refine ⟨forall_append h.1 ?_, fun i hi => ?_⟩
  · have hne : holder s.shared ≠ some s.threads.length :=
      fun hi => Nat.lt_irrefl _ (h.2 _ hi)
    simp [hl, hne]
  · rw [List.length_append]
    exact Nat.lt_add_right _ (h.2 i hi)

/-- **Mutual exclusion**: two threads that hold the lock are one. -/
theorem Exclusive.unique (h : Exclusive holder holds s) {m : Λ} (hi : s.At i l)
    (hj : s.At j m) (hl : holds l = true) (hm : holds m = true) : i = j :=
  Option.some.inj (((h.1 i l hi).mp hl).symm.trans ((h.1 j m hj).mp hm))

/-! ### Counting -/

/-- One for a thread that is inside, nothing for one that is not. -/
def weight (inside : Λ → Bool) (l : Λ) : ℤ := if inside l then 1 else 0

/-- The number of the threads that are inside. -/
def inside (p : Λ → Bool) (s : State σ Λ) : ℤ := s.threads.countP p

variable {p : Λ → Bool}

/-- **A step changes the number of the threads inside as it changes the one that
moves.** -/
theorem inside_set (hl : s.At i l) {x : σ} :
    inside p ⟨x, s.threads.set i l'⟩ = inside p s - weight p l + weight p l' := by
  obtain ⟨hi, rfl⟩ := List.getElem?_eq_some_iff.mp hl
  have hle : (if p s.threads[i] then 1 else 0) ≤ s.threads.countP p :=
    List.boole_getElem_le_countP hi
  simp only [inside, weight, List.countP_set hi]
  generalize s.threads.countP p = n at hle ⊢
  generalize p s.threads[i] = b at hle ⊢
  cases b <;> cases p l' <;> simp at hle ⊢ <;> omega

theorem inside_append {x : σ} :
    inside p ⟨x, s.threads ++ [l]⟩ = inside p s + weight p l := by
  simp only [inside, weight, List.countP_append, List.countP_singleton]
  split <;> simp

/-- Nobody is inside exactly where the number is zero. -/
theorem inside_eq_zero :
    inside p s = 0 ↔ ∀ i l, s.At i l → p l = false := by
  rw [inside, Int.natCast_eq_zero, List.countP_eq_zero]
  refine ⟨fun h i l hl => ?_, fun h l hl => ?_⟩
  · exact Bool.eq_false_iff.mpr (h l (List.mem_of_getElem? hl))
  · obtain ⟨i, hi⟩ := List.getElem?_of_mem hl
    exact Bool.eq_false_iff.mp (h i l hi)

theorem inside_ne_zero :
    inside p s ≠ 0 ↔ ∃ i l, s.At i l ∧ p l = true := by
  rw [Ne, inside_eq_zero]
  push Not
  simp only [ne_eq, Bool.not_eq_false]

/-- **A counter that every thread adjusts by its own entering and leaving is the
number of the threads inside.** -/
theorem counted {G : Type} [AddGroupWithOne G] (counter : σ → G)
    (hcount : counter s.shared = (inside p s : ℤ)) (hl : s.At i l) {x : σ}
    (hstep : counter x = counter s.shared - (weight p l : ℤ) + (weight p l' : ℤ)) :
    counter x = (inside p ⟨x, s.threads.set i l'⟩ : ℤ) := by
  rw [inside_set hl, hstep, hcount, Int.cast_add, Int.cast_sub]

/-- **Never more threads are inside than there are at the end.** -/
theorem reachableVia_inside_lt [∀ x l, Decidable (T.spawns x l)] {n : ℕ}
    (h : T.system.Reachable s) (hn : s.threads.length < n) :
    T.system.ReachableVia (fun s _ => inside p s < n) s := by
  induction h with
  | init h => exact .init h
  | step _ _ hstep ih =>
    have hlt := (length_le_of_step hstep).trans_lt hn
    refine .step (ih hlt) ?_ hstep
    exact Int.ofNat_lt.mpr (List.countP_le_length.trans_lt hlt)

end Threads

end DocumentCode
