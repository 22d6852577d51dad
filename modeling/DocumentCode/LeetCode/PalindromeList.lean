import DocumentCode.LeetCode.HasCycle
import DocumentCode.LeetCode.ReverseList

/-!
# Is a list a palindrome?

`DocumentCode.PalindromeList.isPalindrome` answers in three loops: a walk at two
speeds that leaves the slow pointer in the middle, a reversal in place of what
follows it, and a comparison of the reversed second half with the list from its
head. It does not undo the reversal.

For a list `as` with `m = (as.length + 1) / 2`, the slow pointer stops at index
`m`; the second half `as.drop m` is turned round; and the head of the list still
leads through `as.take m` into the node at index `m`, which now ends the list. So
the comparison runs along two lists that share that node, and the walk from the
head never falls off: it has `m + 1` nodes to go through and at most `m` to look
at.

* The answer is right (`DocumentCode.PalindromeList.isPalindrome_iff`): the second
  half read backwards is a prefix of the list exactly where the list is its own
  reverse (`DocumentCode.PalindromeList.reverse_drop_prefix_iff`).
* What is left at the head is the first half and one node
  (`DocumentCode.PalindromeList.isPalindrome_leaves`), hence the whole list only
  where it has at most three nodes.
-/

namespace DocumentCode

namespace PalindromeList

open Links Prog

/-! ### The program -/

/-- `while(fast != NULL) { slow = slow->next; fast = fast->next ? fast->next->next : NULL; }` -/
def middleRound : Ptr × Ptr → C Heap ((Ptr × Ptr) ⊕ Ptr)
  | (slow, fast) => do
    if fast ≠ NULL then
      let slow ← loadNext slow
      let fast ← nextNext fast
      return .inl (slow, fast)
    else
      return .inr slow

/-- A round of the loop that compares the reversed second half with the list. -/
def compareRound : Ptr × Ptr → C Heap ((Ptr × Ptr) ⊕ Bool)
  | (pre, head) => do
    if pre ≠ NULL then
      if (← loadVal pre) ≠ (← loadVal head) then
        return .inr false
      else
        let pre ← loadNext pre
        let head ← loadNext head
        return .inl (pre, head)
    else
      return .inr true

def isPalindrome (head : Ptr) : C Heap Bool := do
  if head = NULL then
    return true
  else if (← loadNext head) = NULL then
    return true
  else
    let slow ← loop middleRound (head, head)
    let pre := NULL
    let cur := slow
    let next := slow
    let pre ← loop reverseRound (pre, cur, next)
    loop compareRound (pre, head)

/-! ### Half of a palindrome -/

section Half

variable {α : Type}

/-- **A list is its own reverse exactly where its second half, backwards, is a
prefix of it.** An element in the middle is left out, and one more element in
front of the second half is let in. -/
theorem reverse_drop_prefix_iff (vs : List α) :
    (vs.drop ((vs.length + 1) / 2)).reverse <+: vs.take ((vs.length + 1) / 2 + 1) ↔
      vs.reverse = vs := by
  obtain ⟨A, B, hvs, hA, hB⟩ : ∃ A B, vs = A ++ B ∧ A.length = (vs.length + 1) / 2 ∧
      B = vs.drop ((vs.length + 1) / 2) :=
    ⟨vs.take _, vs.drop _, (List.take_append_drop _ vs).symm, by rw [List.length_take]; omega, rfl⟩
  have hlen : vs.length = A.length + B.length := by rw [hvs, List.length_append]
  rw [← hB]
  constructor
  · intro hpre
    -- `B` backwards starts `A`, and at most one element of `A` is left over
    have hBA : B.reverse <+: A := by
      refine List.prefix_of_prefix_length_le (hpre.trans (List.take_prefix _ _)) ?_ ?_
      · exact hvs ▸ List.prefix_append A B
      · rw [List.length_reverse]
        omega
    obtain ⟨E, rfl⟩ := hBA
    have hE : E.reverse = E := by
      rw [List.length_append, List.length_reverse] at hA hlen
      rcases E with _ | ⟨e, _ | ⟨e', E⟩⟩
      · rfl
      · rfl
      · simp only [List.length_cons] at hA hlen
        omega
    rw [hvs, List.reverse_append, List.reverse_append, List.reverse_reverse, hE,
      List.append_assoc]
  · intro hrev
    have hpre : B.reverse <+: vs := by
      rw [← hrev, hvs, List.reverse_append]
      exact List.prefix_append _ _
    refine List.prefix_of_prefix_length_le hpre (List.take_prefix _ _) ?_
    rw [List.length_reverse, List.length_take]
    omega

end Half

/-! ### The loops -/

section Loops

variable {h : Heap} {p q : Ptr} {as bs : List Addr} {i k : ℕ}

theorem run_nextNext_getElem (hp : h.IsList p as) (hi : i < as.length) :
    (nextNext as[i]?).run k h = some (.ok (as[i + 2]?, h)) := by
  rw [nextNext, run_bind_of_ok (run_loadNext_getElem hp hi)]
  by_cases hi' : i + 1 < as.length
  · rw [if_pos (by rw [ne_eq, List.getElem?_eq_none_iff]; omega),
      run_bind_of_ok (run_loadNext_getElem hp hi)]
    exact run_loadNext_getElem hp hi'
  · rw [if_neg (by rw [not_not, List.getElem?_eq_none_iff]; omega), run_pure,
      List.getElem?_eq_none (by omega)]

/-- **The slow pointer stops in the middle**, at index `(as.length + 1) / 2`. -/
theorem middle_ends (hp : h.IsList p as) (d t : ℕ) (ht : t + d = (as.length + 1) / 2) :
    LoopEnds middleRound (as[t]?, as[2 * t]?) h (.ok (as[(as.length + 1) / 2]?, h)) := by
  induction d generalizing t with
  | zero =>
    refine .leave (Ends.of_forall fun k => ?_)
    rw [middleRound, if_neg (by rw [not_not, List.getElem?_eq_none_iff]; omega), run_pure, ← ht,
      add_zero]
  | succ d ih =>
    refine .next (Ends.of_forall fun k => ?_) (ih (t + 1) (by omega))
    rw [middleRound, if_pos (by rw [ne_eq, List.getElem?_eq_none_iff]; omega),
      run_bind_of_ok (run_loadNext_getElem hp (by omega)),
      run_bind_of_ok (run_nextNext_getElem hp (by omega)), run_pure, Nat.mul_succ]

/-- **The comparison** of a list with one at least as long answers whether its
values are a prefix of the values of that one. -/
theorem compare_ends (hp : h.IsList p as) (hq : h.IsList q bs) (hle : as.length ≤ bs.length) :
    ∃ b, LoopEnds compareRound (p, q) h (.ok (b, h)) ∧
      (b = true ↔ h.vals as <+: h.vals bs) := by
  induction as generalizing p q bs with
  | nil =>
    obtain rfl : p = NULL := hp
    refine ⟨true, .leave (Ends.of_forall fun k => ?_), by simp [Heap.vals]⟩
    rw [compareRound, if_neg (by simp), run_pure]
  | cons a as ih =>
    cases bs with
    | nil => simp at hle
    | cons b bs =>
      obtain ⟨rfl, p', hl, hp⟩ := hp
      obtain ⟨rfl, q', hl', hq⟩ := hq
      by_cases hval : h.val a = h.val b
      · obtain ⟨r, hr, hiff⟩ := ih hp hq (by simpa using hle)
        refine ⟨r, .next (Ends.of_forall fun k => ?_) hr, ?_⟩
        · rw [compareRound, if_pos (by simp), run_bind_of_ok (run_loadVal hl),
            run_bind_of_ok (run_loadVal hl'), if_neg (not_not.mpr hval),
            run_bind_of_ok (run_loadNext hl), run_bind_of_ok (run_loadNext hl'), run_pure]
        · rw [hiff, Heap.vals, Heap.vals, Heap.vals, Heap.vals, List.map_cons, List.map_cons, hval,
            List.cons_prefix_cons, and_iff_right rfl]
      · refine ⟨false, .leave (Ends.of_forall fun k => ?_), ?_⟩
        · rw [compareRound, if_pos (by simp), run_bind_of_ok (run_loadVal hl),
            run_bind_of_ok (run_loadVal hl'), if_pos hval, run_pure]
        · simp [Heap.vals, List.cons_prefix_cons, hval]

end Loops

/-! ### What a call does -/

section Results

variable {h : Heap} {p : Ptr} {as : List Addr}

/-- The nodes a call leaves at the head of a list: the first half of it and one
more. -/
abbrev front (as : List Addr) : List Addr := as.take ((as.length + 1) / 2 + 1)

/-- **What a call does to a list, and what it answers.** -/
structure Answer (h : Heap) (p : Ptr) (as : List Addr) (b : Bool) (h' : Heap) : Prop where
  /-- The answer. -/
  iff : b = true ↔ (h.vals as).reverse = h.vals as
  /-- The list left at the head. -/
  isList : h'.IsList p (front as)
  /-- No value is changed. -/
  val_eq : h'.val = h.val
  /-- Other nodes are untouched. -/
  node_eq : ∀ a, a ∉ as → h'.node a = h.node a

theorem isPalindrome_returns_of_short (hp : h.IsList p as) (hlen : as.length ≤ 1) :
    (isPalindrome p).Returns h true h ∧ Answer h p as true h := by
  have hfront : front as = as := List.take_of_length_le (by omega)
  constructor
  · rcases as with _ | ⟨a, _ | ⟨a', as⟩⟩
    · obtain rfl : p = NULL := hp
      exact Returns.pure _ _
    · obtain ⟨rfl, q, hl, rfl⟩ := hp
      rw [isPalindrome, if_neg (by simp)]
      refine Ends.bind (Ends.of_forall fun k => run_loadNext hl) ?_
      rw [if_pos rfl]
      exact Returns.pure _ _
    · simp at hlen
  · refine ⟨?_, hfront.symm ▸ hp, rfl, fun _ _ => rfl⟩
    rcases as with _ | ⟨a, _ | ⟨a', as⟩⟩
    · simp [Heap.vals]
    · simp [Heap.vals]
    · simp at hlen

/-- From the middle on the list is turned round, and then compared with what its
head still leads to. -/
theorem isPalindrome_returns_of_long (hp : h.IsList p as) (hlen : 1 < as.length) :
    ∃ b h', (isPalindrome p).Returns h b h' ∧ Answer h p as b h' := by
  obtain ⟨m, hm⟩ : ∃ m, m = (as.length + 1) / 2 := ⟨_, rfl⟩
  have hmlen : m < as.length := by omega
  have hsplit : as.take m ++ as[m] :: as.drop (m + 1) = as := by
    rw [← List.drop_eq_getElem_cons hmlen, List.take_append_drop]
  have hcut : as.take m ++ [as[m]] = front as := by
    rw [front, ← hm, List.take_succ_eq_append_getElem]
  have hdrop := (hp.drop m).2
  -- the three loops, the heap between the second and the third being `h'`
  obtain ⟨h', hh'⟩ : ∃ h', h' = h.turn NULL (as.drop m) := ⟨_, rfl⟩
  have hmiddle : LoopEnds middleRound (p, p) h (.ok (as[m]?, h)) := by
    have hends := middle_ends hp m 0 (by omega)
    rwa [mul_zero, hp.head, ← hm] at hends
  have hsweep : LoopEnds reverseRound (NULL, as[m]?, as[m]?) h
      (.ok (lastFrom NULL (as.drop m), h')) :=
    sweep_ends hdrop hdrop.nodup (hh' ▸ sweep_null _ _)
  have hback : h'.IsList (lastFrom NULL (as.drop m)) (as.drop m).reverse := hh' ▸ hdrop.turn
  have hfront : h'.IsList p (front as) := by
    rw [hh', List.drop_eq_getElem_cons hmlen, ← hcut]
    exact Heap.IsList.turn_end (hsplit.symm ▸ hp)
  have hval : h'.val = h.val := hh' ▸ Heap.val_turn
  obtain ⟨b, hcompare, hb⟩ := compare_ends hback hfront (by
    rw [List.length_reverse, List.length_drop, front, List.length_take]
    omega)
  refine ⟨b, h', ?_, ?_, hfront, hval, ?_⟩
  · obtain ⟨a, a', as, rfl⟩ : ∃ a a' as', as = a :: a' :: as' := by
      rcases as with _ | ⟨a, _ | ⟨a', as⟩⟩
      · simp at hlen
      · simp at hlen
      · exact ⟨a, a', as, rfl⟩
    obtain ⟨rfl, q, hl, rfl, -⟩ := hp
    rw [isPalindrome, if_neg (by simp)]
    refine Ends.bind (Ends.of_forall fun k => run_loadNext hl) ?_
    rw [if_neg (by simp)]
    exact Ends.bind hmiddle.ends (Ends.bind hsweep.ends hcompare.ends)
  · have hlenv : (h.vals as).length = as.length := by rw [Heap.vals, List.length_map]
    rw [hb, ← reverse_drop_prefix_iff, hlenv, ← hm, Heap.vals, Heap.vals, hval, front, ← hm,
      List.map_reverse, List.map_drop, List.map_take, Heap.vals]
  · intro a ha
    rw [hh', Heap.node_turn_of_notMem fun hc => ha (List.mem_of_mem_drop hc)]

theorem isPalindrome_returns (hp : h.IsList p as) :
    ∃ b h', (isPalindrome p).Returns h b h' ∧ Answer h p as b h' := by
  rcases Nat.lt_or_ge 1 as.length with hlen | hlen
  · exact isPalindrome_returns_of_long hp hlen
  · exact ⟨true, h, isPalindrome_returns_of_short hp hlen⟩

/-- **The function decides whether the values of a list are their own reverse**,
whatever its length, and without a fault. -/
theorem isPalindrome_iff (hp : h.IsList p as) :
    ∃ b h', (isPalindrome p).Returns h b h' ∧
      (b = true ↔ (h.vals as).reverse = h.vals as) := by
  obtain ⟨b, h', hret, hans⟩ := isPalindrome_returns hp
  exact ⟨b, h', hret, hans.iff⟩

/-- The list `main` builds. -/
def mainHeap : Heap :=
  .ofNodes [(0, ⟨1, some 1⟩), (1, ⟨2, some 2⟩), (2, ⟨2, some 3⟩), (3, ⟨1, NULL⟩)]

theorem isList_mainHeap : mainHeap.IsList (some 0) [0, 1, 2, 3] :=
  ⟨rfl, _, rfl, rfl, _, rfl, rfl, _, rfl, rfl, _, rfl, rfl⟩

/-- The call of `main`. -/
theorem isPalindrome_iff_main :
    ∃ b h', (isPalindrome (some 0)).Returns mainHeap b h' ∧
      (b = true ↔ [1, 2, 2, 1].reverse = [(1 : ℤ), 2, 2, 1]) :=
  isPalindrome_iff isList_mainHeap

/-- **What a call leaves at the head of a list, and what a second call answers.**
The list is cut off after its first half and one more node, so it is as it was
only where it has at most three nodes; a second call then gives the same answer,
and otherwise answers for what is left. -/
theorem isPalindrome_leaves (hp : h.IsList p as) :
    ∃ b h', (isPalindrome p).Returns h b h' ∧ h'.IsList p (front as) ∧ h'.val = h.val ∧
      (h'.IsList p as ↔ as.length ≤ 3) ∧
      ∃ b' h'', (isPalindrome p).Returns h' b' h'' ∧
        (b' = true ↔ (h.vals (front as)).reverse = h.vals (front as)) ∧
        (as.length ≤ 3 → b' = b) := by
  obtain ⟨b, h', hret, hans⟩ := isPalindrome_returns hp
  obtain ⟨b', h'', hret', hans'⟩ := isPalindrome_returns hans.isList
  have hvals : h'.vals (front as) = h.vals (front as) := by rw [Heap.vals, hans.val_eq, Heap.vals]
  have hfront : as.length ≤ 3 → front as = as := fun hlen => List.take_of_length_le (by omega)
  refine ⟨b, h', hret, hans.isList, hans.val_eq, ?_, b', h'', hret', hvals ▸ hans'.iff, ?_⟩
  · constructor
    · intro hlist
      have hlen := congrArg List.length (Path.null_unique hlist hans.isList)
      rw [front, List.length_take] at hlen
      omega
    · intro hlen
      exact hfront hlen ▸ hans.isList
  · intro hlen
    rw [Bool.eq_iff_iff, hans'.iff, hans.iff, hvals, hfront hlen]

/-- The call of `main`, repeated. -/
theorem isPalindrome_leaves_main :
    ∃ b h', (isPalindrome (some 0)).Returns mainHeap b h' ∧
      h'.IsList (some 0) (front [0, 1, 2, 3]) ∧ h'.val = mainHeap.val ∧
      (h'.IsList (some 0) [0, 1, 2, 3] ↔ [0, 1, 2, 3].length ≤ 3) ∧
      ∃ b' h'', (isPalindrome (some 0)).Returns h' b' h'' ∧
        (b' = true ↔ [1, 2, 2].reverse = [(1 : ℤ), 2, 2]) ∧
        ([0, 1, 2, 3].length ≤ 3 → b' = b) :=
  isPalindrome_leaves isList_mainHeap

/-- **The call of `main` is not repeatable**: it answers that 1, 2, 2, 1 is a
palindrome and leaves 1, 2, 2 at the head, which a second call says is none. -/
theorem isPalindrome_not_repeatable :
    ∃ h' h'', (isPalindrome (some 0)).Returns mainHeap true h' ∧
      h'.IsList (some 0) [0, 1, 2] ∧ ¬h'.IsList (some 0) [0, 1, 2, 3] ∧
      (isPalindrome (some 0)).Returns h' false h'' := by
  obtain ⟨b, h', hret, hans⟩ := isPalindrome_returns isList_mainHeap
  obtain ⟨b', h'', hret', hans'⟩ := isPalindrome_returns hans.isList
  obtain rfl : b = true := hans.iff.mpr rfl
  obtain rfl : b' = false := by
    rw [← Bool.not_eq_true, hans'.iff, Heap.vals, hans.val_eq]
    decide
  refine ⟨h', h'', hret, hans.isList, fun hlist => ?_, hret'⟩
  exact absurd (Path.null_unique hlist hans.isList) (by decide)

end Results

end PalindromeList

end DocumentCode
