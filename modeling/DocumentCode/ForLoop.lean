import DocumentCode.CLang
import DocumentCode.Ensures
import Mathlib.Tactic.Ring

/-!
# The `for` loop

`for (int i = a; i < n; i += d)`, with the variables `x` its body changes. The
body leaves the loop early with a value of its own, by a `break` or a `return`;
at the end of the loop the variables are all there is to know. The addition
`i += d` is one of type `int`, so the loop is only right where the last one does
not overflow.

The rule is the same for every such loop, however its body goes about its work
(`DocumentCode.forLoop_ensures`): what holds after `k` rounds is a predicate of
`k`, the variables and the state, each round takes it from `k` to `k + 1` or
leaves with what is wanted, and no induction is left to the reader of a program.
There are two forms of it for the loops met most: those that never leave early
(`DocumentCode.forAll_range_ensures`), and those that search, whose bodies change
nothing. A search finds the first index at which a round succeeds
(`DocumentCode.forLoop_finds`). Where it leaves with one and the same value wherever
it succeeds it is again a search (`DocumentCode.forLoop_searches`), so that nesting
such loops nests the existential quantifiers that say what is searched for.

A bound of type `size_t` is compared with an index that is converted to that type,
which makes a negative index a great one. No index is negative in a loop that
counts up from 0, so there the conversion makes no difference
(`DocumentCode.forSize_eq`).
-/

namespace DocumentCode

open Prog

variable {σ τ β : Type}

/-- A round of `for (; i < n; i += d)`. -/
def forRound (n d : ℤ) (body : ℤ → τ → C σ (τ ⊕ β)) : ℤ × τ → C σ ((ℤ × τ) ⊕ (τ ⊕ β))
  | (i, x) => do
    if i < n then
      match ← body i x with
      | .inl x' => return .inl (← int (i + d), x')
      | .inr b => return .inr (.inr b)
    else
      return .inr (.inl x)

/-- `for (int i = a; i < n; i += d)` -/
def forLoop (a n d : ℤ) (body : ℤ → τ → C σ (τ ⊕ β)) (x : τ) : C σ (τ ⊕ β) :=
  loop (forRound n d body) (a, x)

/-- A `for` loop that is never left early. -/
def forAll (a n d : ℤ) (body : ℤ → τ → C σ τ) (x : τ) : C σ τ := do
  match ← forLoop (β := Empty) a n d (fun i x => do return .inl (← body i x)) x with
  | .inl x' => return x'
  | .inr b => nomatch b

/-- A round of `for (; i < n; i++)` whose bound is a `size_t`, to which `i` is
converted. -/
def forSizeRound (n : ℕ) (body : ℤ → τ → C σ (τ ⊕ β)) : ℤ × τ → C σ ((ℤ × τ) ⊕ (τ ⊕ β))
  | (i, x) => do
    if toSize i < n then
      match ← body i x with
      | .inl x' => return .inl (← int (i + 1), x')
      | .inr b => return .inr (.inr b)
    else
      return .inr (.inl x)

/-- `for (int i = 0; i < n; i++)` with such a bound. -/
def forSize (n : ℕ) (body : ℤ → τ → C σ (τ ⊕ β)) (x : τ) : C σ (τ ⊕ β) :=
  loop (forSizeRound n body) (0, x)

/-- The same, never left early. -/
def forSizeAll (n : ℕ) (body : ℤ → τ → C σ τ) (x : τ) : C σ τ := do
  match ← forSize (β := Empty) n (fun i x => do return .inl (← body i x)) x with
  | .inl x' => return x'
  | .inr b => nomatch b

/-! ### The rule -/

section Rule

variable {a n d : ℤ} {m : ℕ} {body : ℤ → τ → C σ (τ ⊕ β)} {x : τ} {s : σ}
  {I : ℕ → τ → σ → Prop} {Q : β → σ → Prop}

/-- A round that goes on. -/
theorem forRound_next {i : ℤ} {x' : τ} {s' : σ} (hi : i < n) (hd : InInt (i + d))
    (h : (body i x).Returns s (.inl x') s') :
    (forRound n d body (i, x)).Returns s (.inl (i + d, x')) s' := by
  rw [forRound, if_pos hi]
  refine .bind h ?_
  rw [int_of_inInt hd]
  exact Returns.pure _ _

/-- A round that leaves early. -/
theorem forRound_exit {i : ℤ} {b : β} {s' : σ} (hi : i < n)
    (h : (body i x).Returns s (.inr b) s') :
    (forRound n d body (i, x)).Returns s (.inr (.inr b)) s' := by
  rw [forRound, if_pos hi]
  exact .bind h (Returns.pure _ _)

/-- The end of the loop. -/
theorem forRound_end {i : ℤ} (hi : n ≤ i) :
    (forRound n d body (i, x)).Returns s (.inr (.inl x)) s := by
  rw [forRound, if_neg (by omega)]
  exact Returns.pure _ _

/-- What the rounds still to be made come to. -/
private theorem forRound_loopEnds (hd : 0 < d) (ha : InInt a) (hn : InInt n)
    (hbody : ∀ k x s, k < m → I k x s →
      (body (a + d * k) x).Ensures s (Sum.elim (I (k + 1)) Q)) :
    ∀ j k x s, m = k + j → n = a + d * m → I k x s →
      ∃ r s', LoopEnds (forRound n d body) (a + d * k, x) s (.ok (r, s')) ∧
        Sum.elim (I m) Q r s' := by
  intro j
  induction j with
  | zero =>
    intro k x s hk hm hI
    have hkm : k = m := by omega
    subst hkm
    exact ⟨.inl x, s, .leave (forRound_end hm.le), hI⟩
  | succ j ih =>
    intro k x s hk hm hI
    have hstep : a + d * (k + 1 : ℕ) = a + d * k + d := by
      push_cast
      ring
    have hle : d * (k + 1 : ℕ) ≤ d * m := Int.mul_le_mul_of_nonneg_left (by omega) hd.le
    have h0 : 0 ≤ d * (k + 1 : ℕ) := Int.mul_nonneg hd.le (Int.natCast_nonneg _)
    have hlt : a + d * k < n := by omega
    obtain ⟨r, s', hr, hI'⟩ := hbody k x s (by omega) hI
    rcases r with x' | b
    · obtain ⟨r, t, hL, hr'⟩ := ih (k + 1) x' s' (by omega) hm hI'
      have hin : InInt (a + d * k + d) := ⟨by have := ha.1; omega, by have := hn.2; omega⟩
      rw [hstep] at hL
      exact ⟨r, t, .next (forRound_next hlt hin hr) hL, hr'⟩
    · exact ⟨.inr b, s', .leave (forRound_exit hlt hr), hI'⟩

/-- **The rule for a `for` loop** of at most `m` rounds: what holds after `k` of
them is carried by the body to what holds after `k + 1`, or the body leaves early
with `Q`. -/
theorem forLoop_ensures (hm : n = a + d * m) (hd : 0 < d) (ha : InInt a) (hn : InInt n)
    (hbody : ∀ k x s, k < m → I k x s →
      (body (a + d * k) x).Ensures s (Sum.elim (I (k + 1)) Q)) (h0 : I 0 x s) :
    (forLoop a n d body x).Ensures s (Sum.elim (I m) Q) := by
  obtain ⟨r, s', hL, hr⟩ :=
    forRound_loopEnds hd ha hn hbody m 0 x s (by omega) hm h0
  rw [Nat.cast_zero, mul_zero, add_zero] at hL
  exact ⟨r, s', hL.ends, hr⟩

/-- **The rule for `for (int i = 0; i < m; i++)`.** -/
theorem forLoop_range_ensures (hm : m < 2 ^ 31)
    (hbody : ∀ i x s, i < m → I i x s → (body i x).Ensures s (Sum.elim (I (i + 1)) Q))
    (h0 : I 0 x s) : (forLoop 0 m 1 body x).Ensures s (Sum.elim (I m) Q) := by
  refine forLoop_ensures (by omega) one_pos (by decide) ⟨by omega, by omega⟩ ?_ h0
  intro k x s hk hI
  rw [zero_add, one_mul]
  exact hbody k x s hk hI

end Rule

/-! ### A loop that is never left -/

section All

variable {m : ℕ} {body : ℤ → τ → C σ τ} {x : τ} {s : σ} {I : ℕ → τ → σ → Prop}

/-- **The rule for `for (int i = 0; i < m; i++)` without `break` and `return`.** -/
theorem forAll_range_ensures (hm : m < 2 ^ 31)
    (hbody : ∀ i x s, i < m → I i x s → (body i x).Ensures s (I (i + 1))) (h0 : I 0 x s) :
    (forAll 0 m 1 body x).Ensures s (I m) := by
  have hloop : (forLoop (β := Empty) 0 m 1 (fun i x => do return .inl (← body i x)) x).Ensures s
      (Sum.elim (I m) fun _ _ => False) := by
    refine forLoop_range_ensures hm ?_ h0
    intro i x s hi hI
    exact (hbody i x s hi hI).bind fun x' s' hI' => .pure hI'
  refine hloop.bind ?_
  rintro (x' | b) s' hr
  · exact .pure hr
  · exact hr.elim

end All

/-! ### A bound of type `size_t` -/

section Size

variable {n : ℕ} {d i i' : ℤ} {body : ℤ → τ → C σ (τ ⊕ β)} {x x' : τ} {k : ℕ} {s s' : σ}

theorem forSizeRound_eq (h0 : 0 ≤ i) (hi : InInt i) :
    forSizeRound n body (i, x) = forRound n 1 body (i, x) := by
  have hsize : toSize i = i.toNat := toSize_of_nonneg h0 (by have := hi.2; omega)
  have hlt : toSize i < n ↔ i < n := by omega
  simp only [forSizeRound, forRound, hlt]

/-- What a round that goes on makes of the index. -/
theorem run_forRound_inl {m : ℤ}
    (h : (forRound m d body (i, x)).run k s = some (.ok (.inl (i', x'), s'))) :
    i' = i + d ∧ InInt i' := by
  rw [forRound] at h
  split at h
  · rw [run_bind] at h
    rcases hbody : (body i x).run k s with _ | _ | ⟨y | b, t⟩ <;> rw [hbody] at h
    · cases h
    · cases h
    · by_cases hd : InInt (i + d)
      · rw [int_of_inInt hd] at h
        cases h
        exact ⟨rfl, hd⟩
      · rw [int_of_not_inInt hd] at h
        cases h
    · cases h
  · cases h

/-- **The conversion makes no difference.** -/
theorem forSize_eq : forSize n body x = forLoop 0 n 1 body x := by
  refine (loop_congr (I := fun p => 0 ≤ p.1 ∧ InInt p.1) ?_ ?_
    ⟨le_rfl, show InInt 0 by decide⟩).symm
  · rintro ⟨i, x⟩ ⟨h0, hi⟩
    exact (forSizeRound_eq h0 hi).symm
  · rintro ⟨i, x⟩ ⟨i', x'⟩ k s s' ⟨h0, -⟩ h
    obtain ⟨rfl, hi'⟩ := run_forRound_inl h
    exact ⟨Int.add_nonneg h0 one_pos.le, hi'⟩

theorem forSizeAll_eq {body : ℤ → τ → C σ τ} : forSizeAll n body x = forAll 0 n 1 body x := by
  rw [forSizeAll, forAll, forSize_eq]

end Size

/-! ### A loop that searches -/

/-- **The program searches**: it changes nothing, and answers `b` if `p` is the
case and nothing otherwise. -/
def Searches (c : C σ (Unit ⊕ β)) (s : σ) (b : β) (p : Prop) : Prop :=
  (p → c.Returns s (.inr b) s) ∧ (¬p → c.Returns s (.inl ()) s)

section Search

variable {a n d : ℤ} {m : ℕ} {body : ℤ → Unit → C σ (Unit ⊕ β)} {s : σ} {b : β}
  {c : C σ (Unit ⊕ β)} {p q : Prop}

theorem Searches.congr (h : Searches c s b p) (hpq : p ↔ q) : Searches c s b q := by
  rw [← hpq]
  exact h

/-- What is read first, and changes nothing. -/
theorem Prog.Returns.bind_searches {δ : Type} {r : C σ δ} {f : δ → C σ (Unit ⊕ β)} {x : δ}
    (hr : r.Returns s x s) (h : Searches (f x) s b p) : Searches (r >>= f) s b p :=
  ⟨fun hp => .bind hr (h.1 hp), fun hp => .bind hr (h.2 hp)⟩

/-- A test is a search. -/
theorem searches_test [Decidable p] :
    Searches (if p then return .inr b else return .inl () : C σ (Unit ⊕ β)) s b p := by
  constructor
  · intro hp
    rw [if_pos hp]
    exact Returns.pure _ _
  · intro hp
    rw [if_neg hp]
    exact Returns.pure _ _

/-- A search that is made on a condition. -/
theorem Searches.guard [Decidable q] (h : Searches c s b p) :
    Searches (if q then c else return .inl ()) s b (q ∧ p) := by
  constructor
  · rintro ⟨hq, hp⟩
    rw [if_pos hq]
    exact h.1 hp
  · intro hqp
    by_cases hq : q
    · rw [if_pos hq]
      exact h.2 fun hp => hqp ⟨hq, hp⟩
    · rw [if_neg hq]
      exact Returns.pure _ _

/-- A search in the form of `DocumentCode.Prog.Ensures`. -/
theorem Searches.ensures (h : Searches c s b p) :
    c.Ensures s (Sum.elim (fun _ s' => s' = s ∧ ¬p) fun b' s' => s' = s ∧ b' = b ∧ p) := by
  by_cases hp : p
  · exact (h.1 hp).ensures ⟨rfl, rfl, hp⟩
  · exact (h.2 hp).ensures ⟨rfl, hp⟩

theorem Searches.of_ensures
    (h : c.Ensures s (Sum.elim (fun _ s' => s' = s ∧ ¬p) fun b' s' => s' = s ∧ b' = b ∧ p)) :
    Searches c s b p := by
  obtain ⟨(x | b'), s', hc, hr⟩ := h
  · obtain ⟨rfl, hp⟩ := hr
    exact ⟨fun h => absurd h hp, fun _ => hc⟩
  · obtain ⟨rfl, rfl, hp⟩ := hr
    exact ⟨fun _ => hc, fun h => absurd hp h⟩

/-- **A loop of searches finds the first index** at which one succeeds. -/
theorem forLoop_finds {P : ℕ → Prop} {v : ℕ → β} (hm : n = a + d * m) (hd : 0 < d)
    (ha : InInt a) (hn : InInt n)
    (hbody : ∀ k < m, Searches (body (a + d * k) ()) s (v k) (P k)) :
    (forLoop a n d body ()).Ensures s (Sum.elim (fun _ s' => s' = s ∧ ∀ k < m, ¬P k)
      fun b' s' => s' = s ∧ ∃ k < m, b' = v k ∧ P k ∧ ∀ j < k, ¬P j) := by
  refine forLoop_ensures (I := fun k _ s' => s' = s ∧ ∀ j < k, ¬P j) hm hd ha hn ?_ ?_
  · rintro k ⟨⟩ s' hk ⟨rfl, hnone⟩
    refine (hbody k hk).ensures.mono ?_
    rintro (⟨⟩ | b') s' hr
    · exact ⟨hr.1, Nat.forall_lt_succ_right.mpr ⟨hnone, hr.2⟩⟩
    · exact ⟨hr.1, k, hk, hr.2.1, hr.2.2, hnone⟩
  · exact ⟨rfl, fun j hj => absurd hj (Nat.not_lt_zero j)⟩

/-- **A loop of searches is a search**, for an index at which one succeeds. -/
theorem forLoop_searches {P : ℕ → Prop} (hm : n = a + d * m) (hd : 0 < d) (ha : InInt a)
    (hn : InInt n) (hbody : ∀ k < m, Searches (body (a + d * k) ()) s b (P k)) :
    Searches (forLoop a n d body ()) s b (∃ k < m, P k) := by
  refine .of_ensures ((forLoop_finds hm hd ha hn hbody).mono ?_)
  rintro (⟨⟩ | b') s' hr
  · exact ⟨hr.1, fun ⟨k, hk, hP⟩ => hr.2 k hk hP⟩
  · obtain ⟨hs, k, hk, hb, hP, -⟩ := hr
    exact ⟨hs, hb, k, hk, hP⟩

/-- **The rule for a search with `for (int i = 0; i < m; i++)`** that leaves with the
index: it finds the first one. -/
theorem forLoop_range_finds {body : ℤ → Unit → C σ (Unit ⊕ ℤ)} {P : ℕ → Prop} (hm : m < 2 ^ 31)
    (hbody : ∀ i < m, Searches (body i ()) s (i : ℤ) (P i)) :
    (forLoop 0 m 1 body ()).Ensures s (Sum.elim (fun _ s' => s' = s ∧ ∀ i < m, ¬P i)
      fun r s' => s' = s ∧ ∃ i < m, r = i ∧ P i ∧ ∀ k < i, ¬P k) := by
  refine forLoop_finds (v := fun i => (i : ℤ)) (by omega) one_pos (by decide)
    ⟨by omega, by omega⟩ ?_
  intro i hi
  rw [zero_add, one_mul]
  exact hbody i hi

/-- **The rule for a search with `for (int i = 0; i < m; i++)`** that leaves with one
value. -/
theorem forLoop_range_searches {P : ℕ → Prop} (hm : m < 2 ^ 31)
    (hbody : ∀ i < m, Searches (body i ()) s b (P i)) :
    Searches (forLoop 0 m 1 body ()) s b (∃ i < m, P i) := by
  refine forLoop_searches (by omega) one_pos (by decide) ⟨by omega, by omega⟩ ?_
  intro i hi
  rw [zero_add, one_mul]
  exact hbody i hi

end Search

/-! ### The first index -/

/-- **The first index with `P`**, or -1 where there is none. -/
def FirstIndex (P : ℕ → Prop) (r : ℤ) : Prop :=
  (∃ i : ℕ, r = i ∧ P i ∧ ∀ k < i, ¬P k) ∨ (r = -1 ∧ ∀ i, ¬P i)

section FirstIndex

variable {P : ℕ → Prop} {r : ℤ} {i : ℕ}

theorem FirstIndex.eq_neg_one_iff (h : FirstIndex P r) : r = -1 ↔ ∀ i, ¬P i := by
  rcases h with ⟨i, rfl, hi, -⟩ | ⟨rfl, hnone⟩
  · constructor
    · intro h
      omega
    · exact fun hnone => absurd hi (hnone i)
  · exact iff_of_true rfl hnone

theorem FirstIndex.eq_natCast_iff (h : FirstIndex P r) : r = i ↔ P i ∧ ∀ k < i, ¬P k := by
  rcases h with ⟨j, rfl, hj, hmin⟩ | ⟨rfl, hnone⟩
  · constructor
    · intro h
      obtain rfl : j = i := by omega
      exact ⟨hj, hmin⟩
    · rintro ⟨hi, hmin'⟩
      rcases lt_trichotomy i j with hlt | rfl | hlt
      · exact absurd hi (hmin i hlt)
      · rfl
      · exact absurd hj (hmin' j hlt)
  · constructor
    · intro h
      omega
    · exact fun hi => absurd hi.1 (hnone i)

end FirstIndex

end DocumentCode
