import DocumentCode.Heap

/-!
# Looking for a cycle at two speeds

`DocumentCode.hasCycle` sends two pointers down a list, one twice as fast as the
other, and answers `true` when they meet and `false` when the fast one reaches
the end. After `t` rounds they are `t` and `2 * t` links down, so everything
there is to say is said about the iterates of `DocumentCode.Links.advance`:

* they are at the same place for some `t` (`DocumentCode.Links.exists_meet`), so
  the loop ends;
* where they meet at a node, that node lies on a cycle, and where the fast one
  reaches the end, no node does;
* the slow one is never at the end while the fast one is not – it has gone less
  far – and not even when the fast one has just got there, which is why the test
  `fast == slow`, made without looking, does not confuse two null pointers with
  a meeting (`DocumentCode.slow_ne_null`). The guard at the head of the program
  takes care of the one round where this would fail.
-/

namespace DocumentCode

open Links Prog

/-! ### The program -/

/-- `fast->next ? fast->next->next : NULL` -/
def nextNext (fast : Ptr) : C Heap Ptr := do
  if (← loadNext fast) ≠ NULL then
    return (← loadNext (← loadNext fast))
  else
    return NULL

/-- A round of the loop of `hasCycle`. -/
def hasCycle.round : Ptr × Ptr → C Heap ((Ptr × Ptr) ⊕ Bool)
  | (slow, fast) => do
    if fast ≠ NULL then
      let slow ← loadNext slow
      let fast ← nextNext fast
      if fast = slow then
        return .inr true
      else
        return .inl (slow, fast)
    else
      return .inr false

def hasCycle (head : Ptr) : C Heap Bool := do
  if head = NULL then
    return false
  else if (← loadNext head) = NULL then
    return false
  else
    loop hasCycle.round (head, head)

/-! ### Following links -/

section Advance

variable {h : Heap} {p : Ptr} {a : Addr} {k : ℕ}

/-- Where no link dangles, reading `p->next` advances the pointer. -/
theorem run_loadNext_advance (hs : Sound h.link p) (hp : p ≠ NULL) :
    (loadNext p).run k h = some (.ok (advance h.link p, h)) := by
  obtain ⟨a, rfl⟩ := Option.ne_none_iff_exists'.mp hp
  obtain ⟨q, hl⟩ := Option.isSome_iff_exists.mp (hs a reach_head)
  rw [run_loadNext hl, advance_some hl]

theorem run_nextNext (hs : Sound h.link p) (hp : p ≠ NULL) :
    (nextNext p).run k h = some (.ok (advance h.link (advance h.link p), h)) := by
  rw [nextNext, run_bind_of_ok (run_loadNext_advance hs hp)]
  by_cases hq : advance h.link p = NULL
  · rw [if_neg (not_not.mpr hq), hq, advance_none, run_pure]
  · rw [if_pos hq, run_bind_of_ok (run_loadNext_advance hs hp)]
    exact run_loadNext_advance hs.advance hq

end Advance

/-! ### The loop -/

section Loop

variable {h : Heap} {p : Ptr} {t : ℕ}

/-- **The slow pointer keeps off the end**: as long as the fast pointer has not
reached it, the slow one is a node and so is the next one. -/
theorem slow_ne_null (h1 : advance h.link p ≠ NULL) (hfast : (advance h.link)^[2 * t] p ≠ NULL) :
    (advance h.link)^[t + 1] p ≠ NULL := by
  intro hslow
  cases t with
  | zero => exact h1 hslow
  | succ t => exact hfast (advance_iterate_eq_none (by omega) hslow)

/-- A round of the loop takes the pointers from `t` and `2 * t` links down to
`t + 1` and `2 * (t + 1)`, and compares them. -/
theorem hasCycle_round (hs : Sound h.link p) (h1 : advance h.link p ≠ NULL)
    (hfast : (advance h.link)^[2 * t] p ≠ NULL) :
    (hasCycle.round ((advance h.link)^[t] p, (advance h.link)^[2 * t] p)).Returns h
      (if (advance h.link)^[2 * (t + 1)] p = (advance h.link)^[t + 1] p then .inr true
        else .inl ((advance h.link)^[t + 1] p, (advance h.link)^[2 * (t + 1)] p)) h := by
  have hslow : (advance h.link)^[t] p ≠ NULL := fun hc =>
    slow_ne_null h1 hfast (advance_iterate_eq_none (Nat.le_succ t) hc)
  refine Ends.of_forall fun k => ?_
  rw [hasCycle.round, if_pos hfast,
    run_bind_of_ok (run_loadNext_advance (hs.advance_iterate t) hslow),
    run_bind_of_ok (run_nextNext (hs.advance_iterate _) hfast),
    ← Function.iterate_succ_apply' (advance h.link) t,
    ← Function.iterate_succ_apply' (advance h.link) (2 * t),
    ← Function.iterate_succ_apply' (advance h.link) (2 * t + 1),
    show (2 * t + 1).succ = 2 * (t + 1) by omega]
  split <;> rw [run_pure]

/-- **A round leaves with the right answer, or the pointers have not met.** -/
theorem hasCycle_round_cases (hs : Sound h.link p) (h1 : advance h.link p ≠ NULL) (t : ℕ) :
    (∃ b, (hasCycle.round ((advance h.link)^[t] p, (advance h.link)^[2 * t] p)).Returns h
        (.inr b) h ∧ (b = true ↔ ∃ a, Reach h.link p a ∧ Cyclic h.link a)) ∨
      (hasCycle.round ((advance h.link)^[t] p, (advance h.link)^[2 * t] p)).Returns h
          (.inl ((advance h.link)^[t + 1] p, (advance h.link)^[2 * (t + 1)] p)) h ∧
        (advance h.link)^[2 * (t + 1)] p ≠ (advance h.link)^[t + 1] p := by
  by_cases hfast : (advance h.link)^[2 * t] p = NULL
  · -- the fast pointer is at the end
    refine Or.inl ⟨false, Ends.of_forall fun k => ?_, ?_⟩
    · rw [hasCycle.round, if_neg (not_not.mpr hfast), run_pure]
    · simp only [Bool.false_eq_true, false_iff]
      rintro ⟨a, ha, hcyc⟩
      exact advance_iterate_ne_none ha hcyc _ hfast
  · have hround := hasCycle_round hs h1 hfast
    by_cases hmeet : (advance h.link)^[2 * (t + 1)] p = (advance h.link)^[t + 1] p
    · -- the pointers meet, and not at the end
      rw [if_pos hmeet] at hround
      refine Or.inl ⟨true, hround, iff_of_true rfl ?_⟩
      obtain ⟨a, ha⟩ := Option.ne_none_iff_exists'.mp (slow_ne_null h1 hfast)
      exact ⟨a, reach_of_advance_iterate ha,
        cyclic_of_advance_iterate (by omega) ha (hmeet.trans ha)⟩
    · rw [if_neg hmeet] at hround
      exact Or.inr ⟨hround, hmeet⟩

/-- **The loop decides whether there is a cycle**: the pointers are at the same
place after `T` rounds, so it is left by then. -/
theorem hasCycle_loop (hs : Sound h.link p) (h1 : advance h.link p ≠ NULL) {T : ℕ}
    (hT : (advance h.link)^[T] p = (advance h.link)^[2 * T] p) (d t : ℕ) (ht : t + d + 1 = T) :
    ∃ b, LoopEnds hasCycle.round ((advance h.link)^[t] p, (advance h.link)^[2 * t] p) h
        (.ok (b, h)) ∧
      (b = true ↔ ∃ a, Reach h.link p a ∧ Cyclic h.link a) := by
  induction d generalizing t with
  | zero =>
    subst ht
    rcases hasCycle_round_cases hs h1 t with ⟨b, hb, hiff⟩ | ⟨-, hne⟩
    · exact ⟨b, .leave hb, hiff⟩
    · exact absurd hT.symm hne
  | succ d ih =>
    rcases hasCycle_round_cases hs h1 t with ⟨b, hb, hiff⟩ | ⟨hround, -⟩
    · exact ⟨b, .leave hb, hiff⟩
    · obtain ⟨b, hb, hiff⟩ := ih (t + 1) (by omega)
      exact ⟨b, hb.next hround, hiff⟩

/-- **Wherever the loop comes round, the pointers are `t` and `2 * t` links
down.** -/
theorem hasCycle_reaches (hs : Sound h.link p) (h1 : advance h.link p ≠ NULL)
    {q : (Ptr × Ptr) × Heap} (hq : LoopReaches hasCycle.round ((p, p), h) q) :
    q.2 = h ∧ ∃ t, q.1 = ((advance h.link)^[t] p, (advance h.link)^[2 * t] p) := by
  refine hq.invariant (I := fun x s => s = h ∧
    ∃ t, x = ((advance h.link)^[t] p, (advance h.link)^[2 * t] p)) ?_ ⟨rfl, 0, rfl⟩
  rintro _ s x' s' ⟨rfl, t, rfl⟩ hround
  rcases hasCycle_round_cases hs h1 t with ⟨b, hb, -⟩ | ⟨hr, -⟩
  · exact absurd (hround.unique hb) (by simp)
  · have heq := hround.unique hr
    simp only [Except.ok.injEq, Prod.mk.injEq, Sum.inl.injEq] at heq
    obtain ⟨rfl, rfl⟩ := heq
    exact ⟨rfl, t + 1, rfl⟩

/-- **The slow pointer is at a node that links to another one** whenever the loop
comes round with the fast pointer at a node. -/
theorem slow_links_of_reaches {slow fast : Ptr} {h' : Heap} (hs : Sound h.link p)
    (h1 : advance h.link p ≠ NULL)
    (hreach : LoopReaches hasCycle.round ((p, p), h) ((slow, fast), h')) (hfast : fast ≠ NULL) :
    ∃ b d, slow = some b ∧ h'.link b = some (some d) := by
  obtain ⟨hh, t, ht⟩ := hasCycle_reaches hs h1 hreach
  obtain rfl : h' = h := hh
  simp only [Prod.mk.injEq] at ht
  obtain ⟨rfl, rfl⟩ := ht
  -- the slow pointer is at a node since the next step is
  have hnext := slow_ne_null h1 hfast
  rw [Function.iterate_succ_apply'] at hnext
  obtain ⟨b, hb⟩ : ∃ b, (advance h'.link)^[t] p = some b :=
    Option.ne_none_iff_exists'.mp fun hc => hnext (by rw [hc, advance_none])
  obtain ⟨m, hm⟩ := Option.isSome_iff_exists.mp (hs b (reach_of_advance_iterate hb))
  rw [hb, advance_some hm] at hnext
  obtain ⟨d, rfl⟩ := Option.ne_none_iff_exists'.mp hnext
  exact ⟨b, d, hb, hm⟩

end Loop

/-! ### The result -/

/-- The guards are passed, or the list has at most one node. -/
theorem hasCycle_returns (h : Heap) (p : Ptr) (hs : Sound h.link p) :
    ∃ b, (hasCycle p).Returns h b h ∧ (b = true ↔ ∃ a, Reach h.link p a ∧ Cyclic h.link a) := by
  cases p with
  | none => exact ⟨false, Returns.pure _ _, by simp [not_reach_none]⟩
  | some a =>
    obtain ⟨q, hl⟩ := Option.isSome_iff_exists.mp (hs a reach_head)
    cases q with
    | none =>
      -- the list of one node
      have hlist : h.IsList (some a) [a] := ⟨rfl, NULL, hl, rfl⟩
      refine ⟨false, ?_, ?_⟩
      · rw [hasCycle, if_neg (by simp)]
        exact Ends.bind (Ends.of_forall fun k => run_loadNext hl) (Returns.pure _ _)
      · simp only [Bool.false_eq_true, false_iff]
        rintro ⟨b, hb, hcyc⟩
        exact Path.not_cyclic hlist hb hcyc
    | some c =>
      -- past the guards, from where the pointers meet
      have h1 : advance h.link (some a) ≠ NULL := by rw [advance_some hl]; simp
      obtain ⟨T, hpos, hT⟩ := exists_meet h.finite_link (some a)
      obtain ⟨b, hb, hiff⟩ := hasCycle_loop hs h1 hT (T - 1) 0 (by omega)
      refine ⟨b, ?_, hiff⟩
      rw [hasCycle, if_neg (by simp)]
      refine Ends.bind (Ends.of_forall fun k => run_loadNext hl) ?_
      rw [if_neg (by simp)]
      exact hb.ends

/-- **The program decides whether a cycle can be reached**, on any heap and from
any pointer whose links never dangle: it returns, leaves the heap alone and
answers `true` exactly where some node reached from the head lies on a cycle.
Moreover, whenever its loop comes round with the fast pointer at a node, the slow
pointer is at a node that links to another one – so `slow->next` is read at a
node, and what `fast` is then compared with is not the null pointer. -/
theorem hasCycle_iff (h : Heap) (p : Ptr) (hs : Sound h.link p) :
    (∃ b, (hasCycle p).Returns h b h ∧
      (b = true ↔ ∃ a, Reach h.link p a ∧ Cyclic h.link a)) ∧
    ∀ a c slow fast h', p = some a → h.link a = some (some c) →
      LoopReaches hasCycle.round ((p, p), h) ((slow, fast), h') → fast ≠ NULL →
      ∃ b d, slow = some b ∧ h'.link b = some (some d) := by
  refine ⟨hasCycle_returns h p hs, ?_⟩
  intro a c slow fast h' hp hl hreach hfast
  have h1 : advance h.link p ≠ NULL := by rw [hp, advance_some hl]; simp
  exact slow_links_of_reaches hs h1 hreach hfast

/-- The lasso has a cycle. -/
theorem hasCycle_iff_lasso :
    (∃ b, (hasCycle (some 0)).Returns Heap.lasso b Heap.lasso ∧
      (b = true ↔ ∃ a, Reach Heap.lasso.link (some 0) a ∧ Cyclic Heap.lasso.link a)) ∧
    ∀ a c slow fast h', some 0 = some a → Heap.lasso.link a = some (some c) →
      LoopReaches hasCycle.round ((some 0, some 0), Heap.lasso) ((slow, fast), h') →
      fast ≠ NULL → ∃ b d, slow = some b ∧ h'.link b = some (some d) :=
  hasCycle_iff Heap.lasso (some 0) Heap.rho_lasso.sound

example : (hasCycle (some 0)).run 9 Heap.lasso = some (.ok (true, Heap.lasso)) := rfl

end DocumentCode
