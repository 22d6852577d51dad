import Mathlib.Order.Lattice
import Mathlib.Tactic.Common

/-!
# Programs that may fault and may loop

A small language of imperative programs, shallowly embedded: a program of
`DocumentCode.Prog` reads and writes a state of type `σ`, may stop with a fault
of type `ε`, and returns a value. A loop need not end, so a program is run with
a bound on the number of rounds each of its loops may take, and answers `none`
when the bound was too small. Nothing here names a particular program or a
particular state.

The bound is a way of running a program, not a part of its meaning. The meaning
is `DocumentCode.Prog.Ends`: with enough rounds the program always gives the
same outcome, and with fewer it is only ever cut short. In particular a program
that ends by returning faults for *no* bound
(`DocumentCode.Prog.Returns.not_faults`), which is how “it never dereferences a
null pointer” is read off a run.

## The rules

| construct | rule |
|---|---|
| a straight-line program | `DocumentCode.Prog.Ends.of_forall` |
| sequencing | `DocumentCode.Prog.Ends.bind`, `DocumentCode.Prog.Ends.bind_fault` |
| a round of a loop that goes on | `DocumentCode.Prog.LoopEnds.next` |
| the last round of a loop | `DocumentCode.Prog.LoopEnds.leave`, `DocumentCode.Prog.LoopEnds.stop` |
| what holds whenever a loop comes round | `DocumentCode.Prog.LoopReaches.invariant` |
| a body that does the same wherever the loop comes round | `DocumentCode.Prog.loop_congr` |
| a recursive function | `DocumentCode.Prog.RecEnds.base`, `DocumentCode.Prog.RecEnds.call` |
| one that calls itself more than once | `DocumentCode.Prog.BodyEnds.bind`, `DocumentCode.Prog.BodyEnds.recEnds` |
-/

namespace DocumentCode

/-- A program over the state `σ` that may stop with a fault in `ε` and returns a
`β`: given a bound on the rounds of each loop and a state, either `none` – the
bound was too small – or an outcome. -/
structure Prog (ε σ β : Type) where
  /-- Run with a bound on the rounds of each loop. -/
  run : ℕ → σ → Option (Except ε (β × σ))

namespace Prog

variable {ε σ α β γ : Type}

instance : Monad (Prog ε σ) where
  pure b := ⟨fun _ s => some (.ok (b, s))⟩
  bind c f := ⟨fun k s => match c.run k s with
    | some (.ok (b, s')) => (f b).run k s'
    | some (.error e) => some (.error e)
    | none => none⟩

/-- Stop with a fault. -/
def fault (e : ε) : Prog ε σ β := ⟨fun _ _ => some (.error e)⟩

/-- Read the state. -/
def get : Prog ε σ σ := ⟨fun _ s => some (.ok (s, s))⟩

/-- Replace the state. -/
def set (s : σ) : Prog ε σ Unit := ⟨fun _ _ => some (.ok ((), s))⟩

variable {c : Prog ε σ β} {f : β → Prog ε σ γ} {k : ℕ} {s s' : σ} {b : β} {e : ε}
  {r : Except ε (β × σ)}

@[simp] theorem run_pure (b : β) (k : ℕ) (s : σ) :
    (pure b : Prog ε σ β).run k s = some (.ok (b, s)) := rfl

@[simp] theorem run_fault (e : ε) (k : ℕ) (s : σ) :
    (fault e : Prog ε σ β).run k s = some (.error e) := rfl

@[simp] theorem run_get (k : ℕ) (s : σ) :
    (get : Prog ε σ σ).run k s = some (.ok (s, s)) := rfl

@[simp] theorem run_set (s' : σ) (k : ℕ) (s : σ) :
    (set s' : Prog ε σ Unit).run k s = some (.ok ((), s')) := rfl

theorem run_bind (c : Prog ε σ β) (f : β → Prog ε σ γ) (k : ℕ) (s : σ) :
    (c >>= f).run k s = match c.run k s with
      | some (.ok (b, s')) => (f b).run k s'
      | some (.error e) => some (.error e)
      | none => none := rfl

theorem run_bind_of_ok (h : c.run k s = some (.ok (b, s'))) :
    (c >>= f).run k s = (f b).run k s' := by
  rw [run_bind, h]

theorem run_bind_of_fault (h : c.run k s = some (.error e)) :
    (c >>= f).run k s = some (.error e) := by
  rw [run_bind, h]

theorem run_bind_of_none (h : c.run k s = none) : (c >>= f).run k s = none := by
  rw [run_bind, h]

@[simp] theorem pure_bind (b : β) (f : β → Prog ε σ γ) : (pure b >>= f) = f b := rfl

@[simp] theorem fault_bind (e : ε) (f : β → Prog ε σ γ) :
    ((fault e : Prog ε σ β) >>= f) = fault e := rfl

/-! ### The outcome of a program -/

/-- **The program ends with outcome `r`**: it gives `r` whenever its loops are
allowed enough rounds, and with fewer rounds it is cut short and gives nothing
else. -/
structure Ends (c : Prog ε σ β) (s : σ) (r : Except ε (β × σ)) : Prop where
  /-- Enough rounds give the outcome. -/
  enough : ∃ N, ∀ k, N ≤ k → c.run k s = some r
  /-- No number of rounds gives another one. -/
  short : ∀ k, c.run k s = some r ∨ c.run k s = none

/-- The program returns `b` and leaves the state `s'`. -/
abbrev Returns (c : Prog ε σ β) (s : σ) (b : β) (s' : σ) : Prop := c.Ends s (.ok (b, s'))

/-- The program stops with the fault `e`. -/
abbrev Faults (c : Prog ε σ β) (s : σ) (e : ε) : Prop := c.Ends s (.error e)

/-- A program without loops ends as it runs. -/
theorem Ends.of_forall (h : ∀ k, c.run k s = some r) : c.Ends s r :=
  ⟨⟨0, fun k _ => h k⟩, fun k => Or.inl (h k)⟩

theorem Returns.pure (b : β) (s : σ) : (Pure.pure b : Prog ε σ β).Returns s b s :=
  Ends.of_forall fun _ => rfl

theorem Returns.get (s : σ) : (Prog.get : Prog ε σ σ).Returns s s s :=
  Ends.of_forall fun _ => rfl

theorem Returns.set (s s' : σ) : (Prog.set s' : Prog ε σ Unit).Returns s () s' :=
  Ends.of_forall fun _ => rfl

theorem Faults.fault (e : ε) (s : σ) : (Prog.fault e : Prog ε σ β).Faults s e :=
  Ends.of_forall fun _ => rfl

/-- **A program has one outcome.** -/
theorem Ends.unique {r' : Except ε (β × σ)} (h : c.Ends s r) (h' : c.Ends s r') : r = r' := by
  obtain ⟨N, hN⟩ := h.enough
  obtain ⟨N', hN'⟩ := h'.enough
  have h1 := hN (max N N') (by omega)
  have h2 := hN' (max N N') (by omega)
  exact Option.some.inj (h1.symm.trans h2)

/-- **A program that returns never faults**, however its rounds are bounded. -/
theorem Returns.not_faults (h : c.Returns s b s') (k : ℕ) (e : ε) :
    c.run k s ≠ some (.error e) := by
  intro hk
  rcases h.short k with h' | h' <;> rw [h'] at hk <;> simp at hk

theorem Faults.not_returns (h : c.Faults s e) : ¬c.Returns s b s' := fun h' => by
  simpa using h.unique h'

/-- **Sequencing.** -/
theorem Ends.bind {r : Except ε (γ × σ)} (h : c.Returns s b s') (h' : (f b).Ends s' r) :
    (c >>= f).Ends s r := by
  obtain ⟨N, hN⟩ := h.enough
  obtain ⟨N', hN'⟩ := h'.enough
  constructor
  · refine ⟨max N N', ?_⟩
    intro k hk
    rw [run_bind_of_ok (hN k (by omega))]
    exact hN' k (by omega)
  · intro k
    rcases h.short k with hk | hk
    · rw [run_bind_of_ok hk]
      exact h'.short k
    · exact Or.inr (run_bind_of_none hk)

/-- A fault skips what follows. -/
theorem Ends.bind_fault (h : c.Faults s e) : (c >>= f).Faults s e := by
  obtain ⟨N, hN⟩ := h.enough
  constructor
  · exact ⟨N, fun k hk => run_bind_of_fault (hN k hk)⟩
  · intro k
    rcases h.short k with hk | hk
    · exact Or.inl (run_bind_of_fault hk)
    · exact Or.inr (run_bind_of_none hk)

/-! ### Loops -/

/-- A loop given at most `n` rounds. A round of the body either goes on with new
loop variables or leaves with a value. -/
def loopFrom (body : α → Prog ε σ (α ⊕ β)) : ℕ → α → Prog ε σ β
  | 0, _ => ⟨fun _ _ => none⟩
  | n + 1, x => body x >>= fun
    | .inl x' => loopFrom body n x'
    | .inr b => pure b

/-- **A loop** on the loop variables `x`. -/
def loop (body : α → Prog ε σ (α ⊕ β)) (x : α) : Prog ε σ β :=
  ⟨fun k => (loopFrom body k x).run k⟩

/-- The loop ends with outcome `r`, the rounds of this loop being counted apart
from those of the loops inside its body. -/
structure LoopEnds (body : α → Prog ε σ (α ⊕ β)) (x : α) (s : σ)
    (r : Except ε (β × σ)) : Prop where
  /-- Enough rounds give the outcome. -/
  enough : ∃ N, ∀ n k, N ≤ n → N ≤ k → (loopFrom body n x).run k s = some r
  /-- No number of rounds gives another one. -/
  short : ∀ n k, (loopFrom body n x).run k s = some r ∨ (loopFrom body n x).run k s = none

section Loop

variable {body : α → Prog ε σ (α ⊕ β)} {x x' : α}

theorem loopFrom_succ (body : α → Prog ε σ (α ⊕ β)) (n : ℕ) (x : α) :
    loopFrom body (n + 1) x = body x >>= fun
      | .inl x' => loopFrom body n x'
      | .inr b => pure b := rfl

theorem LoopEnds.ends (h : LoopEnds body x s r) : (loop body x).Ends s r := by
  obtain ⟨N, hN⟩ := h.enough
  exact ⟨⟨N, fun k hk => hN k k hk hk⟩, fun k => h.short k k⟩

/-- What a first round that does not go on makes of the loop. -/
private theorem LoopEnds.of_last {r : Except ε (β × σ)} {r₁ : Except ε ((α ⊕ β) × σ)}
    (h : (body x).Ends s r₁)
    (hr : ∀ n k, (body x).run k s = some r₁ → (loopFrom body (n + 1) x).run k s = some r) :
    LoopEnds body x s r := by
  obtain ⟨N, hN⟩ := h.enough
  constructor
  · refine ⟨N + 1, ?_⟩
    intro n k hn hk
    obtain ⟨m, rfl⟩ : ∃ m, n = m + 1 := ⟨n - 1, by omega⟩
    exact hr m k (hN k (by omega))
  · intro n k
    cases n with
    | zero => exact Or.inr rfl
    | succ m =>
      rcases h.short k with hk | hk
      · exact Or.inl (hr m k hk)
      · rw [loopFrom_succ]
        exact Or.inr (run_bind_of_none hk)

/-- **The last round of a loop.** -/
theorem LoopEnds.leave (h : (body x).Returns s (.inr b) s') :
    LoopEnds body x s (.ok (b, s')) := by
  refine .of_last h fun n k hk => ?_
  rw [loopFrom_succ, run_bind_of_ok hk]
  rfl

/-- A round that faults. -/
theorem LoopEnds.stop (h : (body x).Faults s e) : LoopEnds body x s (.error e) :=
  .of_last h fun n k hk => by rw [loopFrom_succ, run_bind_of_fault hk]

/-- **One round of a loop that goes on.** -/
theorem LoopEnds.next (h : (body x).Returns s (.inl x') s') (h' : LoopEnds body x' s' r) :
    LoopEnds body x s r := by
  obtain ⟨N, hN⟩ := h.enough
  obtain ⟨N', hN'⟩ := h'.enough
  constructor
  · refine ⟨max N N' + 1, ?_⟩
    intro n k hn hk
    obtain ⟨m, rfl⟩ : ∃ m, n = m + 1 := ⟨n - 1, by omega⟩
    rw [loopFrom_succ, run_bind_of_ok (hN k (by omega))]
    exact hN' m k (by omega) (by omega)
  · intro n k
    cases n with
    | zero => exact Or.inr rfl
    | succ m =>
      rw [loopFrom_succ]
      rcases h.short k with hk | hk
      · rw [run_bind_of_ok hk]
        exact h'.short m k
      · exact Or.inr (run_bind_of_none hk)

/-- Loop variables on which the body does the same give the same loop. -/
theorem LoopEnds.congr (h : LoopEnds body x s r) (hx : body x' = body x) :
    LoopEnds body x' s r := by
  have heq : ∀ n, loopFrom body n x' = loopFrom body n x := by
    intro n
    cases n with
    | zero => rfl
    | succ n => rw [loopFrom_succ, loopFrom_succ, hx]
  exact ⟨by simpa only [heq] using h.enough, by simpa only [heq] using h.short⟩

/-- **Bodies that do the same are one loop**, if they do so on the loop variables that
meet a condition the rounds preserve. -/
theorem loop_congr {body' : α → Prog ε σ (α ⊕ β)} {I : α → Prop}
    (heq : ∀ x, I x → body x = body' x)
    (hI : ∀ x x' k s s', I x → (body x).run k s = some (.ok (.inl x', s')) → I x') (hx : I x) :
    loop body x = loop body' x := by
  have hfrom : ∀ n x, I x → ∀ k s, (loopFrom body n x).run k s = (loopFrom body' n x).run k s := by
    intro n
    induction n with
    | zero => exact fun _ _ _ _ => rfl
    | succ n ih =>
      intro x hx k s
      rw [loopFrom_succ, loopFrom_succ, ← heq x hx, run_bind, run_bind]
      cases hrun : (body x).run k s with
      | none => rfl
      | some r =>
        rcases r with e | ⟨x' | b, s'⟩
        · rfl
        · exact ih x' (hI x x' k s s' hx hrun) k s'
        · rfl
  rw [loop, loop, Prog.mk.injEq]
  funext k s
  exact hfrom k x hx k s

/-- **A state a loop comes through**: reached from `p` by rounds that go on. -/
inductive LoopReaches (body : α → Prog ε σ (α ⊕ β)) (p : α × σ) : α × σ → Prop
  /-- The loop starts there. -/
  | refl : LoopReaches body p p
  /-- One more round. -/
  | round {x x' : α} {s s' : σ} : LoopReaches body p (x, s) →
      (body x).Returns s (.inl x') s' → LoopReaches body p (x', s')

/-- **An invariant of the body holds whenever the loop comes round.** -/
theorem LoopReaches.invariant {I : α → σ → Prop} {p q : α × σ}
    (hround : ∀ x s x' s', I x s → (body x).Returns s (.inl x') s' → I x' s')
    (h : LoopReaches body p q) (hp : I p.1 p.2) : I q.1 q.2 := by
  induction h with
  | refl => exact hp
  | round _ hr ih => exact hround _ _ _ _ ih hr

end Loop

/-! ### Recursive functions -/

/-- A recursive function given at most `n` nested calls. -/
def recurseFrom (F : (α → Prog ε σ β) → α → Prog ε σ β) : ℕ → α → Prog ε σ β
  | 0, _ => ⟨fun _ _ => none⟩
  | n + 1, x => F (recurseFrom F n) x

/-- **A recursive function**: `F self x` is its body, which calls `self`. -/
def recurse (F : (α → Prog ε σ β) → α → Prog ε σ β) (x : α) : Prog ε σ β :=
  ⟨fun k => (recurseFrom F k x).run k⟩

/-- The call `x` ends with outcome `r`, the nested calls being counted apart from
the rounds of the loops inside the body. -/
structure RecEnds (F : (α → Prog ε σ β) → α → Prog ε σ β) (x : α) (s : σ)
    (r : Except ε (β × σ)) : Prop where
  /-- Enough nested calls give the outcome. -/
  enough : ∃ N, ∀ n k, N ≤ n → N ≤ k → (recurseFrom F n x).run k s = some r
  /-- No number of nested calls gives another one. -/
  short : ∀ n k, (recurseFrom F n x).run k s = some r ∨ (recurseFrom F n x).run k s = none

section Recursion

variable {F : (α → Prog ε σ β) → α → Prog ε σ β} {x y : α} {s₁ : σ}

theorem RecEnds.ends (h : RecEnds F x s r) : (recurse F x).Ends s r := by
  obtain ⟨N, hN⟩ := h.enough
  exact ⟨⟨N, fun k hk => hN k k hk hk⟩, fun k => h.short k k⟩

/-- **A call that does not recurse.** -/
theorem RecEnds.base (h : ∀ self k, (F self x).run k s = some r) : RecEnds F x s r := by
  constructor
  · refine ⟨1, ?_⟩
    intro n k hn _
    obtain ⟨m, rfl⟩ : ∃ m, n = m + 1 := ⟨n - 1, by omega⟩
    exact h _ k
  · intro n k
    cases n with
    | zero => exact Or.inr rfl
    | succ m => exact Or.inl (h _ k)

/-- **A call that recurses once**: from the state `s` the body behaves as the
call `self y` from the state `s₁`, followed by `g`. -/
theorem RecEnds.call {g : β → Prog ε σ β}
    (hF : ∀ self k, (F self x).run k s = (self y >>= g).run k s₁)
    (hy : RecEnds F y s₁ (.ok (b, s'))) (hg : (g b).Ends s' r) : RecEnds F x s r := by
  obtain ⟨N, hN⟩ := hy.enough
  obtain ⟨N', hN'⟩ := hg.enough
  constructor
  · refine ⟨max N N' + 1, ?_⟩
    intro n k hn hk
    obtain ⟨m, rfl⟩ : ∃ m, n = m + 1 := ⟨n - 1, by omega⟩
    refine (hF _ k).trans ?_
    rw [run_bind_of_ok (hN m k (by omega) (by omega))]
    exact hN' k (by omega)
  · intro n k
    cases n with
    | zero => exact Or.inr rfl
    | succ m =>
      have hm : (recurseFrom F (m + 1) x).run k s = (recurseFrom F m y >>= g).run k s₁ := hF _ k
      rw [hm]
      rcases hy.short m k with hk | hk
      · rw [run_bind_of_ok hk]
        exact hg.short k
      · exact Or.inr (run_bind_of_none hk)

/-- A call whose nested call faults. -/
theorem RecEnds.call_fault {g : β → Prog ε σ β}
    (hF : ∀ self k, (F self x).run k s = (self y >>= g).run k s₁)
    (hy : RecEnds F y s₁ (.error e)) : RecEnds F x s (.error e) := by
  obtain ⟨N, hN⟩ := hy.enough
  constructor
  · refine ⟨N + 1, ?_⟩
    intro n k hn hk
    obtain ⟨m, rfl⟩ : ∃ m, n = m + 1 := ⟨n - 1, by omega⟩
    exact (hF _ k).trans (run_bind_of_fault (hN m k (by omega) (by omega)))
  · intro n k
    cases n with
    | zero => exact Or.inr rfl
    | succ m =>
      have hm : (recurseFrom F (m + 1) x).run k s = (recurseFrom F m y >>= g).run k s₁ := hF _ k
      rw [hm]
      rcases hy.short m k with hk | hk
      · exact Or.inl (run_bind_of_fault hk)
      · exact Or.inr (run_bind_of_none hk)

/-! A body that calls itself more than once is taken apart like any other program,
the calls in it being open. -/

/-- The part `c` of the body ends with outcome `r`, the nested calls being counted
apart from the rounds of the loops. -/
structure BodyEnds (F : (α → Prog ε σ β) → α → Prog ε σ β)
    (c : (α → Prog ε σ β) → Prog ε σ γ) (s : σ) (r : Except ε (γ × σ)) : Prop where
  /-- Enough nested calls give the outcome. -/
  enough : ∃ N, ∀ n k, N ≤ n → N ≤ k → (c (recurseFrom F n)).run k s = some r
  /-- No number of nested calls gives another one. -/
  short : ∀ n k, (c (recurseFrom F n)).run k s = some r ∨ (c (recurseFrom F n)).run k s = none

section Body

variable {δ : Type} {d : (α → Prog ε σ β) → Prog ε σ γ}
  {g : (α → Prog ε σ β) → γ → Prog ε σ δ}

/-- A part that does not call. -/
theorem Ends.body {c : Prog ε σ γ} {r : Except ε (γ × σ)} (h : c.Ends s r) :
    BodyEnds F (fun _ => c) s r := by
  obtain ⟨N, hN⟩ := h.enough
  exact ⟨⟨N, fun _ k _ hk => hN k hk⟩, fun _ k => h.short k⟩

/-- A call. -/
theorem RecEnds.body (h : RecEnds F y s r) : BodyEnds F (fun self => self y) s r :=
  ⟨h.enough, h.short⟩

/-- **Sequencing in the body of a recursive function.** -/
theorem BodyEnds.bind {x : γ} {r : Except ε (δ × σ)} (h : BodyEnds F d s (.ok (x, s')))
    (h' : BodyEnds F (fun self => g self x) s' r) :
    BodyEnds F (fun self => d self >>= g self) s r := by
  obtain ⟨N, hN⟩ := h.enough
  obtain ⟨N', hN'⟩ := h'.enough
  constructor
  · refine ⟨max N N', ?_⟩
    intro n k hn hk
    rw [run_bind_of_ok (hN n k (by omega) (by omega))]
    exact hN' n k (by omega) (by omega)
  · intro n k
    rcases h.short n k with hk | hk
    · rw [run_bind_of_ok hk]
      exact h'.short n k
    · exact Or.inr (run_bind_of_none hk)

/-- A fault skips what follows. -/
theorem BodyEnds.bind_fault (h : BodyEnds F d s (.error e)) :
    BodyEnds F (fun self => d self >>= g self) s (.error e) := by
  obtain ⟨N, hN⟩ := h.enough
  constructor
  · exact ⟨N, fun n k hn hk => run_bind_of_fault (hN n k hn hk)⟩
  · intro n k
    rcases h.short n k with hk | hk
    · exact Or.inl (run_bind_of_fault hk)
    · exact Or.inr (run_bind_of_none hk)

/-- **A call ends as its body does.** -/
theorem BodyEnds.recEnds (h : BodyEnds F (fun self => F self x) s r) : RecEnds F x s r := by
  obtain ⟨N, hN⟩ := h.enough
  constructor
  · refine ⟨N + 1, ?_⟩
    intro n k hn hk
    obtain ⟨m, rfl⟩ : ∃ m, n = m + 1 := ⟨n - 1, by omega⟩
    exact hN m k (by omega) (by omega)
  · intro n k
    cases n with
    | zero => exact Or.inr rfl
    | succ m => exact h.short m k

end Body

end Recursion

end Prog

end DocumentCode
