import DocumentCode.Heap

/-!
# Removing the `n`-th node from the end of a list

Three functions that do it: `DocumentCode.removeNthFromEnd` sends two pointers
down the list, `n + 1` links apart, from a node it puts in front of the head;
`DocumentCode.removeNthFromEnd2` counts the nodes first and then walks to the one
before the node to remove; `DocumentCode.removeNthFromEnd1` does the same on a
list whose first node is a header without data.

They index the list in three ways, so all three are read through one: a pointer
into the list `as` is `as[i]?` for an index `i`, and a loop that follows links is
a loop that counts. What they have in common is then visible: each links the node
before the one at index `as.length - n` past it
(`DocumentCode.Heap.IsList.setNext_eraseIdx`).

All their counters are of type `int`. `DocumentCode.removeNthFromEnd` computes
`n + 1` and counts to `n + 2`; the other two count the nodes.
-/

namespace DocumentCode

/-- An allocator: the address `malloc` hands out and the unspecified contents of
the new node, or nothing when the memory is used up. -/
structure Malloc where
  /-- What `malloc(sizeof(struct ListNode))` gives on a heap. -/
  alloc : Heap → Option (Addr × ListNode)
  /-- A node handed out was not in use. -/
  fresh : ∀ h a n, alloc h = some (a, n) → h.node a = none

namespace Heap

/-- The heap with a new node at `a`. -/
def insert (h : Heap) (a : Addr) (n : ListNode) : Heap where
  node := Function.update h.node a (some n)
  finite := by
    refine (h.finite.insert a).subset fun b hb => ?_
    rcases eq_or_ne b a with rfl | hba
    · exact Set.mem_insert _ _
    · refine Set.mem_insert_of_mem _ fun hn => hb ?_
      rw [Function.update_of_ne hba, hn]

variable {h : Heap} {a : Addr} {n : ListNode} {p : Ptr} {as : List Addr}

theorem link_insert : (h.insert a n).link = Function.update h.link a (some n.next) := by
  funext b
  rcases eq_or_ne b a with rfl | hba
  · simp [link, insert]
  · simp [link, insert, Function.update_of_ne hba]

theorem val_insert_of_ne {b : Addr} (hb : b ≠ a) : (h.insert a n).val b = h.val b := by
  simp [val, insert, Function.update_of_ne hb]

/-- A new node is not on any list. -/
theorem IsList.notMem_of_fresh (hp : h.IsList p as) (ha : h.node a = none) : a ∉ as := by
  intro hmem
  have hsome := Links.Path.isSome hp hmem
  rw [link, ha] at hsome
  simp at hsome

end Heap

/-- `malloc(sizeof(struct ListNode))`. -/
def malloc (m : Malloc) : C Heap Ptr := do
  match m.alloc (← Prog.get) with
  | none => return NULL
  | some (a, n) =>
    Prog.set ((← Prog.get).insert a n)
    return some a

/-- The heap holding one list, `0 → 1 → … → N - 1`, and nothing else. -/
def chain (N : ℕ) : Heap where
  node a := if a < N then some ⟨0, if a + 1 < N then some (a + 1) else NULL⟩ else none
  finite := (Set.finite_lt_nat N).subset fun a ha => by
    by_contra hlt
    exact ha (if_neg hlt)

/-- The nodes of a chain, from `i` on. -/
theorem isList_chain (N : ℕ) (d i : ℕ) (hi : i + d = N) :
    (chain N).IsList (if i < N then some i else NULL) (List.range' i d) := by
  induction d generalizing i with
  | zero => exact if_neg (by omega)
  | succ d ih =>
    rw [if_pos (by omega), List.range'_succ]
    refine ⟨rfl, _, ?_, ih (i + 1) (by omega)⟩
    simp [Heap.link, chain, show i < N by omega]

/-- An allocator with one node to hand out. -/
def mallocAt (a : Addr) : Malloc where
  alloc h := if h.node a = none then some (a, ⟨0, NULL⟩) else none
  fresh h b n hb := by
    by_cases ha : h.node a = none
    · rw [if_pos ha, Option.some.injEq, Prod.mk.injEq] at hb
      exact hb.1 ▸ ha
    · rw [if_neg ha] at hb
      exact absurd hb (by simp)

/-! ### The programs -/

/-- `for (int i = 1; i <= n + 1; i++) first = first->next;` -/
def removeNthFromEnd.lead (n : ℤ) : ℤ × Ptr → C Heap ((ℤ × Ptr) ⊕ Ptr)
  | (i, first) => do
    if i ≤ (← int (n + 1)) then
      let first ← loadNext first
      return .inl (← int (i + 1), first)
    else
      return .inr first

/-- `while (first) { first = first->next; second = second->next; }` -/
def removeNthFromEnd.follow : Ptr × Ptr → C Heap ((Ptr × Ptr) ⊕ Ptr)
  | (first, second) => do
    if first ≠ NULL then
      let first ← loadNext first
      let second ← loadNext second
      return .inl (first, second)
    else
      return .inr second

/-- Two pointers, `n + 1` links apart, from a node in front of the head. -/
def removeNthFromEnd (m : Malloc) (head : Ptr) (n : ℤ) : C Heap Ptr := do
  let A ← malloc m
  storeNext A head
  let first ← Prog.loop (removeNthFromEnd.lead n) (1, A)
  let second ← Prog.loop removeNthFromEnd.follow (first, A)
  storeNext second (← loadNext (← loadNext second))
  loadNext A

/-- `while (temp != 0) { count++; temp = temp->next; }` -/
def removeNthFromEnd2.count : ℤ × Ptr → C Heap ((ℤ × Ptr) ⊕ ℤ)
  | (count, temp) => do
    if temp ≠ NULL then
      let count ← int (count + 1)
      let temp ← loadNext temp
      return .inl (count, temp)
    else
      return .inr count

/-- The loop `removeNthFromEnd2` and `removeNthFromEnd1` share: walk on, counting
with `i`, and at `i == count - n` link the node past the next one and stop. -/
def cutAt (count n : ℤ) : ℤ × Ptr → C Heap ((ℤ × Ptr) ⊕ Unit)
  | (i, temp) => do
    if (← loadNext temp) ≠ NULL then
      if i = (← int (count - n)) then
        storeNext temp (← loadNext (← loadNext temp))
        return .inr ()
      else
        let temp ← loadNext temp
        return .inl (← int (i + 1), temp)
    else
      return .inr ()

/-- Count the nodes, then walk to the one before the node to remove. -/
def removeNthFromEnd2 (head : Ptr) (n : ℤ) : C Heap Ptr := do
  let count ← Prog.loop removeNthFromEnd2.count (0, head)
  if count = n then
    return (← loadNext head)
  else
    Prog.loop (cutAt count n) (1, head)
    return head

/-- `while (temp->next) { count++; temp = temp->next; }` -/
def removeNthFromEnd1.count : ℤ × Ptr → C Heap ((ℤ × Ptr) ⊕ ℤ)
  | (count, temp) => do
    if (← loadNext temp) ≠ NULL then
      let count ← int (count + 1)
      let temp ← loadNext temp
      return .inl (count, temp)
    else
      return .inr count

/-- The same on a list whose first node is a header. -/
def removeNthFromEnd1 (head : Ptr) (n : ℤ) : C Heap Ptr := do
  let count ← Prog.loop removeNthFromEnd1.count (0, head)
  Prog.loop (cutAt count n) (0, head)
  return head

/-! ### The loops -/

section Loops

open Prog

variable {h : Heap} {p : Ptr} {as : List Addr} {n : ℤ}

theorem getElem?_ne_null {i : ℕ} : as[i]? ≠ NULL ↔ i < as.length := by
  rw [ne_eq, List.getElem?_eq_none_iff, not_le]

/-- A round of the loop that sends the leading pointer down. -/
theorem lead_round (hp : h.IsList p as) {N i : ℕ} (hn : n + 1 = N) (hN : N < 2 ^ 31) (hi : i < N)
    (hlen : i < as.length) (hint : i + 2 < 2 ^ 31) :
    (removeNthFromEnd.lead n ((i : ℤ) + 1, as[i]?)).Returns h
      (.inl (((i + 1 : ℕ) : ℤ) + 1, as[i + 1]?)) h := by
  have hbound : (int (n + 1) : C Heap ℤ) = pure (N : ℤ) := by
    rw [hn, int_natCast hN]
  refine Ends.of_forall fun k => ?_
  rw [removeNthFromEnd.lead, hbound, Prog.pure_bind, if_pos (by omega),
    run_bind_of_ok (run_loadNext_getElem hp hlen),
    int_of_nonneg (by omega) (by omega), Prog.pure_bind, run_pure, Nat.cast_add,
    Nat.cast_one]

/-- The leading pointer is sent `n + 1` links down. -/
theorem lead_ends (hp : h.IsList p as) {N : ℕ} (hn : n + 1 = N) (hN : N ≤ as.length)
    (hint : (N : ℤ) + 1 < 2 ^ 31) (d i : ℕ) (hi : i + d = N) :
    LoopEnds (removeNthFromEnd.lead n) ((i : ℤ) + 1, as[i]?) h (.ok (as[N]?, h)) := by
  induction d generalizing i with
  | zero =>
    obtain rfl : i = N := hi
    have hbound : (int (n + 1) : C Heap ℤ) = pure (i : ℤ) := by
      rw [hn, int_natCast (by omega)]
    refine .leave (Ends.of_forall fun k => ?_)
    rw [removeNthFromEnd.lead, hbound, Prog.pure_bind, if_neg (by omega), run_pure]
  | succ d ih =>
    exact .next (lead_round hp hn (by omega) (by omega) (by omega) (by omega))
      (ih (i + 1) (by omega))

/-- The two pointers walk on until the leading one has left the list. -/
theorem follow_ends (hp : h.IsList p as) (d i j : ℕ) (hi : i + d = as.length) (hji : j ≤ i) :
    LoopEnds removeNthFromEnd.follow (as[i]?, as[j]?) h (.ok (as[j + d]?, h)) := by
  induction d generalizing i j with
  | zero =>
    refine .leave (Ends.of_forall fun k => ?_)
    rw [removeNthFromEnd.follow, if_neg (by rw [getElem?_ne_null]; omega), run_pure, add_zero]
  | succ d ih =>
    rw [show j + (d + 1) = j + 1 + d by omega]
    refine .next (Ends.of_forall fun k => ?_) (ih (i + 1) (j + 1) (by omega) (by omega))
    rw [removeNthFromEnd.follow, if_pos (by rw [getElem?_ne_null]; omega),
      run_bind_of_ok (run_loadNext_getElem hp (by omega)),
      run_bind_of_ok (run_loadNext_getElem hp (by omega)), run_pure]

/-- A round of the counting loop, as long as the count is an `int`. -/
theorem count2_round (hp : h.IsList p as) {i : ℕ} (hi : i < as.length) (hint : i + 1 < 2 ^ 31) :
    (removeNthFromEnd2.count ((i : ℤ), as[i]?)).Returns h
      (.inl (((i + 1 : ℕ) : ℤ), as[i + 1]?)) h := by
  refine Ends.of_forall fun k => ?_
  rw [removeNthFromEnd2.count, if_pos (getElem?_ne_null.mpr hi),
    int_succ hint, Prog.pure_bind, run_bind_of_ok (run_loadNext_getElem hp hi), run_pure]

/-- The counting loop counts the nodes from the pointer on. -/
theorem count2_ends (hp : h.IsList p as) (hint : (as.length : ℤ) < 2 ^ 31) (d i : ℕ)
    (hi : i + d = as.length) :
    LoopEnds removeNthFromEnd2.count ((i : ℤ), as[i]?) h (.ok ((as.length : ℤ), h)) := by
  induction d generalizing i with
  | zero =>
    refine .leave (Ends.of_forall fun k => ?_)
    rw [removeNthFromEnd2.count, if_neg (by rw [getElem?_ne_null]; omega), run_pure, ← hi, add_zero]
  | succ d ih =>
    exact .next (count2_round hp (by omega) (by omega)) (ih (i + 1) (by omega))

/-- A round of the counting loop that starts at a header. -/
theorem count1_round (hp : h.IsList p as) {i : ℕ} (hi : i + 1 < as.length)
    (hint : i + 1 < 2 ^ 31) :
    (removeNthFromEnd1.count ((i : ℤ), as[i]?)).Returns h
      (.inl (((i + 1 : ℕ) : ℤ), as[i + 1]?)) h := by
  refine Ends.of_forall fun k => ?_
  rw [removeNthFromEnd1.count, run_bind_of_ok (run_loadNext_getElem hp (by omega)),
    if_pos (getElem?_ne_null.mpr hi), int_succ hint, Prog.pure_bind,
    run_bind_of_ok (run_loadNext_getElem hp (by omega)), run_pure]

/-- Counted from a header, the nodes are one fewer. -/
theorem count1_ends (hp : h.IsList p as) (hint : (as.length : ℤ) ≤ 2 ^ 31) (d i : ℕ)
    (hi : i + d + 1 = as.length) :
    LoopEnds removeNthFromEnd1.count ((i : ℤ), as[i]?) h (.ok ((as.length : ℤ) - 1, h)) := by
  induction d generalizing i with
  | zero =>
    refine .leave (Ends.of_forall fun k => ?_)
    rw [removeNthFromEnd1.count, run_bind_of_ok (run_loadNext_getElem hp (by omega)),
      if_neg (by rw [getElem?_ne_null]; omega), run_pure, ← hi]
    simp
  | succ d ih =>
    exact .next (count1_round hp (by omega) (by omega)) (ih (i + 1) (by omega))

/-- **The walk to the node before the one to remove**: started at index `i` with
the counter at `b + i`, it stops at index `t`, where the counter is `c - n`,
and takes out the node after it. -/
theorem cutAt_ends (hp : h.IsList p as) {c b : ℤ} {t : ℕ} (ht : c - n = b + t)
    (hlt : t + 1 < as.length) (hb : 0 ≤ b) (hint : b + t < 2 ^ 31) (d i : ℕ) (hi : i + d = t) :
    LoopEnds (cutAt c n) (b + i, as[i]?) h (.ok ((), h.setNext as[t] as[t + 2]?)) := by
  have hdiff : (int (c - n) : C Heap ℤ) = pure (b + t) := by
    rw [ht, int_of_nonneg (by omega) (by omega)]
  induction d generalizing i with
  | zero =>
    obtain rfl : i = t := hi
    refine .leave (Ends.of_forall fun k => ?_)
    rw [cutAt, run_bind_of_ok (run_loadNext_getElem hp (by omega)),
      if_pos (by rw [getElem?_ne_null]; omega), hdiff, Prog.pure_bind, if_pos rfl,
      run_bind_of_ok (run_loadNext_getElem hp (by omega)),
      run_bind_of_ok (run_loadNext_getElem hp (by omega)),
      List.getElem?_eq_getElem (show i < as.length by omega),
      run_bind_of_ok (run_storeNext (hp.link_getElem (by omega))), run_pure]
  | succ d ih =>
    refine .next (Ends.of_forall fun k => ?_) (ih (i + 1) (by omega))
    rw [cutAt, run_bind_of_ok (run_loadNext_getElem hp (by omega)),
      if_pos (by rw [getElem?_ne_null]; omega), hdiff, Prog.pure_bind, if_neg (by omega),
      run_bind_of_ok (run_loadNext_getElem hp (by omega)),
      int_of_nonneg (by omega) (by omega), Prog.pure_bind, run_pure, Nat.cast_add,
      Nat.cast_one, add_assoc]

end Loops

/-! ### What the three programs return -/

/-- **The node at index `as.length - n` has been removed** from the list `as`: the
pointer `p` leads to the other nodes, in their order, and their values are those
they had. -/
structure Removed (h : Heap) (as : List Addr) (n : ℕ) (p : Ptr) (h' : Heap) : Prop where
  /-- The nodes left. -/
  isList : h'.IsList p (as.eraseIdx (as.length - n))
  /-- Their values. -/
  val_eq : ∀ a ∈ as, h'.val a = h.val a

section Results

open Prog

variable {h : Heap} {head : Ptr} {as : List Addr} {n : ℕ}

/-- A new node in front of a list. -/
theorem isList_insert_setNext {A : Addr} {nd : ListNode} (hp : h.IsList head as)
    (hA : h.node A = none) :
    ((h.insert A nd).setNext A head).IsList (some A) (A :: as) := by
  have hlink : ((h.insert A nd).setNext A head).link = Function.update h.link A (some head) := by
    rw [Heap.link_setNext (by rw [Heap.link_insert, Function.update_self, Option.isSome_some]),
      Heap.link_insert, Function.update_idem]
  refine ⟨rfl, head, by rw [hlink, Function.update_self], ?_⟩
  rw [hlink]
  refine Links.Path.congr hp fun a ha => Function.update_of_ne ?_ _ _
  rintro rfl
  exact hp.notMem_of_fresh hA ha

theorem malloc_returns {m : Malloc} {A : Addr} {nd : ListNode}
    (hm : m.alloc h = some (A, nd)) : (malloc m).Returns h (some A) (h.insert A nd) := by
  refine Ends.of_forall fun k => ?_
  rw [malloc, run_bind_of_ok (run_get k h), hm]
  rfl

theorem removeNthFromEnd_returns {m : Malloc} {A : Addr} {nd : ListNode}
    (hm : m.alloc h = some (A, nd)) (hp : h.IsList head as) (h1 : 1 ≤ n) (hn : n ≤ as.length)
    (hint : n + 2 < 2 ^ 31) :
    ∃ p h', (removeNthFromEnd m head n).Returns h p h' ∧ Removed h as n p h' := by
  have hA := m.fresh h A nd hm
  set h₂ := (h.insert A nd).setNext A head
  have hp₂ : h₂.IsList (some A) (A :: as) := isList_insert_setNext hp hA
  have hlead := (lead_ends hp₂ (n := n) (N := n + 1) (by simp) (by simpa using hn) (by omega)
    (n + 1) 0 (by omega)).ends
  have hfollow := (follow_ends hp₂ (as.length - n) (n + 1) 0
    (by rw [List.length_cons]; omega) (by omega)).ends
  simp only [Nat.cast_zero, zero_add, List.getElem?_cons_zero] at hlead hfollow
  -- the second pointer has stopped at the node before the one to remove
  set t := as.length - n
  have hlt : t + 1 < (A :: as).length := by rw [List.length_cons]; omega
  have hcut := hp₂.setNext_eraseIdx hlt
  rw [List.eraseIdx_cons_succ] at hcut
  obtain ⟨-, p, hl, hrest⟩ := Heap.isList_cons.mp hcut
  refine ⟨p, _, ?_, hrest, ?_⟩
  · have hstore : (storeNext (some A) head).Returns (h.insert A nd) () h₂ :=
      Ends.of_forall fun k => run_storeNext (by rw [Heap.link_insert, Function.update_self])
    refine Ends.bind (malloc_returns hm) (Ends.bind hstore (Ends.bind hlead (Ends.bind hfollow
      (Ends.of_forall fun k => ?_))))
    rw [run_bind_of_ok (run_loadNext_getElem hp₂ (by omega)),
      run_bind_of_ok (run_loadNext_getElem hp₂ hlt),
      List.getElem?_eq_getElem (show t < (A :: as).length by omega),
      run_bind_of_ok (run_storeNext (hp₂.link_getElem (by omega)))]
    exact run_loadNext hl
  · intro a ha
    have hne : a ≠ A := fun hc => hp.notMem_of_fresh hA (hc ▸ ha)
    rw [Heap.val_setNext, Heap.val_setNext, Heap.val_insert_of_ne hne]

theorem removeNthFromEnd2_returns (hp : h.IsList head as) (h1 : 1 ≤ n) (hn : n ≤ as.length)
    (hint : as.length < 2 ^ 31) :
    ∃ p h', (removeNthFromEnd2 head n).Returns h p h' ∧ Removed h as n p h' := by
  have hcount := (count2_ends hp (by omega) as.length 0 (by omega)).ends
  simp only [Nat.cast_zero, hp.head] at hcount
  rcases Nat.eq_or_lt_of_le hn with rfl | hlt
  · -- the first node goes
    cases as with
    | nil => simp at h1
    | cons a as =>
      obtain ⟨rfl, p, hl, hrest⟩ := Heap.isList_cons.mp hp
      refine ⟨p, h, Ends.bind hcount ?_, ⟨?_, fun _ _ => rfl⟩⟩
      · rw [if_pos rfl]
        exact Ends.of_forall fun k => run_loadNext hl
      · rw [Nat.sub_self]
        exact hrest
  · obtain ⟨t, ht⟩ : ∃ t, as.length = n + t + 1 := ⟨as.length - n - 1, by omega⟩
    have hcut := (cutAt_ends hp (c := as.length) (n := n) (b := 1) (t := t)
      (by omega) (by omega) (by omega) (by omega) t 0 (by omega)).ends
    simp only [Nat.cast_zero, add_zero, hp.head] at hcut
    refine ⟨head, h.setNext as[t] as[t + 2]?, Ends.bind hcount ?_, ?_,
      fun _ _ => by rw [Heap.val_setNext]⟩
    · rw [if_neg (by omega)]
      exact Ends.bind hcut (Returns.pure _ _)
    · rw [show as.length - n = t + 1 by omega]
      exact hp.setNext_eraseIdx (by omega)

theorem removeNthFromEnd1_returns {a : Addr} (hp : h.IsList (some a) (a :: as)) (h1 : 1 ≤ n)
    (hn : n ≤ as.length) (hint : as.length < 2 ^ 31) :
    ∃ h', (removeNthFromEnd1 (some a) n).Returns h (some a) h' ∧
      h'.IsList (some a) (a :: as.eraseIdx (as.length - n)) ∧
      ∀ b ∈ a :: as, h'.val b = h.val b := by
  have hcount := (count1_ends hp (by simp; omega) as.length 0 (by simp)).ends
  have hcut := (cutAt_ends hp (c := (a :: as).length - 1) (n := n) (b := 0)
    (t := as.length - n) (by simp; omega) (by simp; omega) le_rfl (by omega) (as.length - n) 0
    (by omega)).ends
  simp only [Nat.cast_zero, add_zero, List.getElem?_cons_zero] at hcount hcut
  refine ⟨_, Ends.bind hcount (Ends.bind hcut (Returns.pure _ _)), ?_,
    fun _ _ => by rw [Heap.val_setNext]⟩
  rw [← List.eraseIdx_cons_succ]
  exact hp.setNext_eraseIdx (by rw [List.length_cons]; omega)

/-- **The three programs remove the same node**, the one at index
`as.length - n`, wherever their counters stay in range: `n + 2` for the first,
the number of nodes for the other two. -/
theorem removeNthFromEnd_refines (m : Malloc) (hp : h.IsList head as) (h1 : 1 ≤ n)
    (hn : n ≤ as.length) :
    ((m.alloc h).isSome → n + 2 < 2 ^ 31 →
      ∃ p h', (removeNthFromEnd m head n).Returns h p h' ∧ Removed h as n p h') ∧
    (as.length < 2 ^ 31 →
      ∃ p h', (removeNthFromEnd2 head n).Returns h p h' ∧ Removed h as n p h') ∧
    ∀ a, h.link a = some head → as.length < 2 ^ 31 →
      ∃ h', (removeNthFromEnd1 (some a) n).Returns h (some a) h' ∧
        h'.IsList (some a) (a :: as.eraseIdx (as.length - n)) ∧
        ∀ b ∈ a :: as, h'.val b = h.val b := by
  refine ⟨?_, removeNthFromEnd2_returns hp h1 hn, ?_⟩
  · intro hm hint
    obtain ⟨⟨A, nd⟩, hm⟩ := Option.isSome_iff_exists.mp hm
    exact removeNthFromEnd_returns hm hp h1 hn hint
  · intro a ha hint
    exact removeNthFromEnd1_returns ⟨rfl, head, ha, hp⟩ h1 hn hint

/-- The list `main` builds. -/
def mainHeap : Heap :=
  .ofNodes [(0, ⟨0, some 1⟩), (1, ⟨1, some 2⟩), (2, ⟨2, some 3⟩), (3, ⟨3, NULL⟩)]

/-- The call of `main`, on a list of four nodes, and the other two programs on the
same input. -/
theorem removeNthFromEnd_refines_main :
    (∃ p h', (removeNthFromEnd (mallocAt 4) (some 0) 3).Returns mainHeap p h' ∧
      Removed mainHeap [0, 1, 2, 3] 3 p h') ∧
    (∃ p h', (removeNthFromEnd2 (some 0) 3).Returns mainHeap p h' ∧
      Removed mainHeap [0, 1, 2, 3] 3 p h') ∧
    ∃ h', (removeNthFromEnd1 (some 0) 3).Returns mainHeap (some 0) h' ∧
      h'.IsList (some 0) [0, 2, 3] ∧ ∀ b ∈ [0, 1, 2, 3], h'.val b = mainHeap.val b := by
  have hp : mainHeap.IsList (some 1) [1, 2, 3] := ⟨rfl, _, rfl, rfl, _, rfl, rfl, _, rfl, rfl⟩
  have hp₀ : mainHeap.IsList (some 0) [0, 1, 2, 3] := ⟨rfl, _, rfl, hp⟩
  obtain ⟨h1, h2, -⟩ := removeNthFromEnd_refines (n := 3) (mallocAt 4) hp₀ (by decide) (by decide)
  obtain ⟨-, -, h3⟩ := removeNthFromEnd_refines (n := 3) (mallocAt 4) hp (by decide) (by decide)
  exact ⟨h1 rfl (by decide), h2 (by decide), h3 0 rfl (by decide)⟩

end Results

/-! ### Lists too long for the counters -/

section Overflow

open Prog

variable {h : Heap} {p : Ptr} {as : List Addr}

/-- With `n + 1` the greatest `int`, the loop that sends the leading pointer down
cannot count past it. -/
theorem lead_faults (hp : h.IsList p as) (hlen : 2 ^ 31 - 1 ≤ as.length) (d i : ℕ)
    (hi : i + d = 2 ^ 31 - 2) :
    LoopEnds (removeNthFromEnd.lead (2 ^ 31 - 2)) ((i : ℤ) + 1, as[i]?) h (.error .overflow) := by
  induction d generalizing i with
  | zero =>
    have hbound : (int (2 ^ 31 - 2 + 1) : C Heap ℤ) = pure (2 ^ 31 - 1) := by
      rw [int_of_inInt (by decide)]
      rfl
    have hlast : ¬InInt ((i : ℤ) + 1 + 1) := fun hc => absurd hc.2 (by omega)
    refine .stop (Ends.of_forall fun k => ?_)
    rw [removeNthFromEnd.lead, hbound, Prog.pure_bind, if_pos (by omega),
      run_bind_of_ok (run_loadNext_getElem hp (by omega)), int_of_not_inInt hlast,
      Prog.fault_bind, run_fault]
  | succ d ih =>
    have hround := lead_round (n := 2 ^ 31 - 2) (N := 2 ^ 31 - 1) (i := i) hp (by decide)
      (by decide) (by omega) (by omega) (by omega)
    exact .next hround (ih (i + 1) (by omega))

theorem count2_faults (hp : h.IsList p as) (hlen : 2 ^ 31 ≤ as.length) (d i : ℕ)
    (hi : i + d = 2 ^ 31 - 1) :
    LoopEnds removeNthFromEnd2.count ((i : ℤ), as[i]?) h (.error .overflow) := by
  induction d generalizing i with
  | zero =>
    have hlast : ¬InInt ((i : ℤ) + 1) := fun hc => absurd hc.2 (by omega)
    refine .stop (Ends.of_forall fun k => ?_)
    rw [removeNthFromEnd2.count, if_pos (by rw [getElem?_ne_null]; omega), int_of_not_inInt hlast,
      Prog.fault_bind, run_fault]
  | succ d ih =>
    exact .next (count2_round hp (by omega) (by omega)) (ih (i + 1) (by omega))

theorem count1_faults (hp : h.IsList p as) (hlen : 2 ^ 31 < as.length) (d i : ℕ)
    (hi : i + d = 2 ^ 31 - 1) :
    LoopEnds removeNthFromEnd1.count ((i : ℤ), as[i]?) h (.error .overflow) := by
  induction d generalizing i with
  | zero =>
    have hlast : ¬InInt ((i : ℤ) + 1) := fun hc => absurd hc.2 (by omega)
    refine .stop (Ends.of_forall fun k => ?_)
    rw [removeNthFromEnd1.count, run_bind_of_ok (run_loadNext_getElem hp (by omega)),
      if_pos (by rw [getElem?_ne_null]; omega), int_of_not_inInt hlast, Prog.fault_bind, run_fault]
  | succ d ih =>
    exact .next (count1_round hp (by omega) (by omega)) (ih (i + 1) (by omega))

variable {head : Ptr} {n : ℤ}

theorem removeNthFromEnd_faults {m : Malloc} (hm : (m.alloc h).isSome) (hp : h.IsList head as)
    (hlen : 2 ^ 31 - 2 ≤ as.length) :
    (removeNthFromEnd m head (2 ^ 31 - 2)).Faults h .overflow := by
  obtain ⟨⟨A, nd⟩, hm⟩ := Option.isSome_iff_exists.mp hm
  have hp₂ : ((h.insert A nd).setNext A head).IsList (some A) (A :: as) :=
    isList_insert_setNext hp (m.fresh h A nd hm)
  have hlead := (lead_faults hp₂ (by rw [List.length_cons]; omega) (2 ^ 31 - 2) 0 (by omega)).ends
  simp only [Nat.cast_zero, zero_add, List.getElem?_cons_zero] at hlead
  have hstore : (storeNext (some A) head).Returns (h.insert A nd) ()
      ((h.insert A nd).setNext A head) :=
    Ends.of_forall fun k => run_storeNext (by rw [Heap.link_insert, Function.update_self])
  exact Ends.bind (malloc_returns hm) (Ends.bind hstore (Ends.bind_fault hlead))

theorem removeNthFromEnd2_faults (hp : h.IsList head as) (hlen : 2 ^ 31 ≤ as.length) :
    (removeNthFromEnd2 head n).Faults h .overflow := by
  have hcount := (count2_faults hp hlen (2 ^ 31 - 1) 0 (by omega)).ends
  simp only [Nat.cast_zero, hp.head] at hcount
  exact Ends.bind_fault hcount

theorem removeNthFromEnd1_faults (hp : h.IsList head as) (hlen : 2 ^ 31 < as.length) :
    (removeNthFromEnd1 head n).Faults h .overflow := by
  have hcount := (count1_faults hp hlen (2 ^ 31 - 1) 0 (by omega)).ends
  simp only [Nat.cast_zero, hp.head] at hcount
  exact Ends.bind_fault hcount

/-- The list of `2 ^ 31 - 2` nodes is one the first program does not get through:
it is to remove the first node, and its counter would have to pass the greatest
`int`. -/
theorem removeNthFromEnd_not_removed (m : Malloc) {N : ℕ} (hN : N = 2 ^ 31 - 2)
    (hm : (m.alloc h).isSome) (hp : h.IsList head as) (hlen : as.length = N) :
    ¬∃ p h', (removeNthFromEnd m head (2 ^ 31 - 2)).Returns h p h' ∧ Removed h as N p h' := by
  rintro ⟨p, h', hret, -⟩
  exact (removeNthFromEnd_faults hm hp (by omega)).not_returns hret

/-- The same at one list: the chain of `2 ^ 31 - 2` nodes. -/
theorem removeNthFromEnd_not_refines :
    (chain (2 ^ 31 - 2)).IsList (some 0) (List.range' 0 (2 ^ 31 - 2)) ∧
    ((mallocAt (2 ^ 31 - 2)).alloc (chain (2 ^ 31 - 2))).isSome ∧
    ¬∃ p h', (removeNthFromEnd (mallocAt (2 ^ 31 - 2)) (some 0) (2 ^ 31 - 2)).Returns
        (chain (2 ^ 31 - 2)) p h' ∧
      Removed (chain (2 ^ 31 - 2)) (List.range' 0 (2 ^ 31 - 2)) (2 ^ 31 - 2) p h' := by
  generalize hN : 2 ^ 31 - 2 = N
  have hlist := isList_chain N N 0 (by omega)
  rw [if_pos (by omega)] at hlist
  have hm : ((mallocAt N).alloc (chain N)).isSome := by simp [mallocAt, chain]
  exact ⟨hlist, hm,
    removeNthFromEnd_not_removed _ hN.symm hm hlist (by rw [List.length_range'])⟩

end Overflow

end DocumentCode
