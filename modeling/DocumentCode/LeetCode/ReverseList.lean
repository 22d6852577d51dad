import DocumentCode.Heap

/-!
# Reversing a list in place

`DocumentCode.reverseList` and `DocumentCode.reverseList1` are one loop under two
names: walk down the list and turn each link towards the node it was reached
from. The loop follows the very links it overwrites, and nothing in it asks
whether the list ends.

* On a list that ends it turns every link once (`DocumentCode.Heap.turn`).
* On a list that runs into a cycle it goes down the tail, round the cycle, and
  at the entry of the cycle finds a link it has turned itself: it is led back up
  the tail, turning every link of it a second time. What is left is the tail as
  it was and the cycle the other way round (`DocumentCode.Links.Rho.turnRho`).

Either way one stretch of links at a time is turned
(`DocumentCode.sweep_ends`), once in the first case and twice in the second; and
what is left is again of the same shape, so the function undoes itself
(`DocumentCode.reverseList_involutive`).
-/

namespace DocumentCode

open Links Prog

/-! ### The programs -/

/-- `while (next != NULL) { next = cur->next; cur->next = pre; pre = cur; cur = next; }` -/
def reverseRound : Ptr × Ptr × Ptr → C Heap ((Ptr × Ptr × Ptr) ⊕ Ptr)
  | (pre, cur, next) => do
    if next ≠ NULL then
      let next ← loadNext cur
      storeNext cur pre
      return .inl (cur, next, next)
    else
      return .inr pre

def reverseList1 (head : Ptr) : C Heap Ptr := do
  if head = NULL then
    return head
  else if (← loadNext head) = NULL then
    return head
  else
    let pre := NULL
    let cur := head
    let next ← loadNext cur
    loop reverseRound (pre, cur, next)

def reverseList (head : Ptr) : C Heap Ptr := do
  if head = NULL then
    return head
  else if (← loadNext head) = NULL then
    return head
  else
    let preNode := NULL
    let q := head
    let nextHead ← loadNext q
    loop reverseRound (preNode, q, nextHead)

/-- The two programs differ in the names of their variables only. -/
theorem reverseList1_eq : reverseList1 = reverseList := rfl

/-! ### Turning the links of a heap -/

namespace Heap

/-- The heap with the links of the listed nodes turned round. -/
def turn (h : Heap) (pre : Ptr) : List Addr → Heap
  | [] => h
  | a :: as => (h.setNext a pre).turn (some a) as

variable {h h' : Heap} {pre p q : Ptr} {as bs ts cs : List Addr} {a b c : Addr}

theorem link_turn (has : ∀ a ∈ as, (h.link a).isSome) :
    (h.turn pre as).link = Links.turn h.link pre as := by
  induction as generalizing h pre with
  | nil => rfl
  | cons a as ih =>
    have hlink : (h.setNext a pre).link = _ := link_setNext (has a List.mem_cons_self)
    rw [turn, ih, hlink, turn_cons]
    intro b hb
    rw [hlink]
    rcases eq_or_ne b a with rfl | hba
    · rw [Function.update_self, Option.isSome_some]
    · rw [Function.update_of_ne hba]
      exact has b (List.mem_cons_of_mem a hb)

@[simp] theorem val_turn : (h.turn pre as).val = h.val := by
  induction as generalizing h pre with
  | nil => rfl
  | cons a as ih => rw [turn, ih, val_setNext]

theorem turn_append : h.turn pre (as ++ bs) = (h.turn pre as).turn (lastFrom pre as) bs := by
  induction as generalizing h pre with
  | nil => rfl
  | cons a as ih => exact ih

theorem node_turn_of_notMem (hb : b ∉ as) : (h.turn pre as).node b = h.node b := by
  induction as generalizing h pre with
  | nil => rfl
  | cons a as ih =>
    rw [List.mem_cons, not_or] at hb
    rw [turn, ih hb.2, node_setNext_of_ne hb.1]

/-- The heap left by reversing a chain that runs into a cycle. -/
def turnRho (h : Heap) (ts : List Addr) (c : Addr) (cs : List Addr) : Heap :=
  (h.turn NULL (ts ++ c :: cs)).turn (lastFrom NULL (ts ++ c :: cs)) (c :: ts.reverse)

theorem link_turnRho (hr : Rho h.link p ts c cs) :
    (h.turnRho ts c cs).link = Links.turnRho h.link ts c cs := by
  have hlink : (h.turn NULL (ts ++ c :: cs)).link = _ :=
    link_turn fun a ha => hr.sound a (hr.reach_iff.mpr ha)
  rw [turnRho, link_turn, hlink, Links.turnRho]
  intro a ha
  rw [hlink]
  exact hr.path_back.isSome ha

@[simp] theorem val_turnRho : (h.turnRho ts c cs).val = h.val := by
  rw [turnRho, val_turn, val_turn]

theorem node_turnRho_of_notMem (hb : b ∉ ts ++ c :: cs) :
    (h.turnRho ts c cs).node b = h.node b := by
  rw [turnRho, node_turn_of_notMem, node_turn_of_notMem hb]
  intro hmem
  refine hb ?_
  rcases List.mem_cons.mp hmem with rfl | hmem
  · simp
  · exact List.mem_append_left _ (List.mem_reverse.mp hmem)

/-- A list turned round is the same list backwards. -/
theorem IsList.turn (hp : h.IsList p as) :
    (h.turn NULL as).IsList (lastFrom NULL as) as.reverse := by
  rw [IsList, link_turn fun a ha => Path.isSome hp ha]
  exact path_turn hp.nodup

/-- When the end of a list is turned round, the list is cut off after the first
turned node. -/
theorem IsList.turn_end (hp : h.IsList p (as ++ b :: bs)) :
    (h.turn NULL (b :: bs)).IsList p (as ++ [b]) := by
  rw [IsList, link_turn fun a ha => Path.isSome hp (List.mem_append_right as ha)]
  exact Path.turn_end hp

/-- **Turning a list round twice changes nothing.** -/
theorem IsList.turn_turn (hp : h.IsList p as) :
    (h.turn NULL as).turn NULL as.reverse = h := by
  have hback := hp.turn.turn
  rw [List.reverse_reverse, hp.lastFrom_reverse] at hback
  refine ext_of_frame as (fun a ha => Path.link_eq hp hback ha) ?_ ?_
  · intro a ha
    rw [node_turn_of_notMem (fun hc => ha (List.mem_reverse.mp hc)), node_turn_of_notMem ha]
  · rw [val_turn, val_turn]

theorem Rho.turnRho' (hr : Rho h.link p ts c cs) :
    Rho (h.turnRho ts c cs).link p ts c cs.reverse :=
  link_turnRho hr ▸ hr.turnRho

/-- **Turning a chain that runs into a cycle twice changes nothing.** -/
theorem turnRho_turnRho (hr : Rho h.link p ts c cs) :
    (h.turnRho ts c cs).turnRho ts c cs.reverse = h := by
  have hback := Rho.turnRho' (Rho.turnRho' hr)
  rw [List.reverse_reverse] at hback
  apply ext_of_frame (ts ++ c :: cs)
  · intro a ha
    rcases List.mem_append.mp ha with ha | ha
    · exact Path.link_eq hr.tail hback.tail ha
    · exact Path.link_eq hr.cycle hback.cycle ha
  · intro a ha
    have ha' : a ∉ ts ++ c :: cs.reverse := by simpa using ha
    rw [node_turnRho_of_notMem ha', node_turnRho_of_notMem ha]
  · rw [val_turnRho, val_turnRho]

end Heap

/-! ### The loop -/

section Loop

variable {h h' : Heap} {pre cur p q nx : Ptr} {as ts cs : List Addr} {a c : Addr}
  {r : Except Fault (Ptr × Heap)}

/-- **A stretch of links is turned**: from a pointer whose links go through `as`
to `q`, the loop turns the links of `as` and goes on at `q`. -/
theorem sweep_ends (hp : Path h.link cur as q) (hnd : as.Nodup)
    (hrest : LoopEnds reverseRound (lastFrom pre as, q, q) (h.turn pre as) r) :
    LoopEnds reverseRound (pre, cur, cur) h r := by
  induction as generalizing h pre cur with
  | nil =>
    obtain rfl : cur = q := hp
    exact hrest
  | cons a as ih =>
    obtain ⟨rfl, p', hl, hp⟩ := hp
    obtain ⟨ha, hnd⟩ := List.nodup_cons.mp hnd
    -- turning the link of `a` leaves the rest of the stretch as it is
    have hp' : Path (h.setNext a pre).link p' as q := by
      rw [Heap.link_setNext (by rw [hl, Option.isSome_some])]
      refine hp.congr fun b hb => Function.update_of_ne ?_ _ _
      rintro rfl
      exact ha hb
    refine .next (Ends.of_forall fun k => ?_) (ih hp' hnd hrest)
    rw [reverseRound, if_pos (by simp), run_bind_of_ok (run_loadNext hl),
      run_bind_of_ok (run_storeNext hl), run_pure]

/-- The loop ends where there is no link to follow. -/
theorem sweep_null (pre : Ptr) (h : Heap) :
    LoopEnds reverseRound (pre, NULL, NULL) h (.ok (pre, h)) :=
  .leave (Ends.of_forall fun k => by rw [reverseRound, if_neg (by simp), run_pure])

/-- The loop tests `next` and follows `cur`; what it does depends on the first
only through the test. -/
theorem sweep_congr (hnx : nx ≠ NULL) (hcur : cur ≠ NULL)
    (hs : LoopEnds reverseRound (pre, cur, cur) h r) :
    LoopEnds reverseRound (pre, cur, nx) h r := by
  refine hs.congr ?_
  rw [reverseRound, reverseRound, if_pos hnx, if_pos hcur]

/-- What `reverseList` does from a node that links to another one. -/
theorem reverseList_ends (hl : h.link a = some (some c))
    (hs : LoopEnds reverseRound (NULL, some a, some a) h r) : (reverseList (some a)).Ends h r := by
  rw [reverseList, if_neg (by simp)]
  refine Ends.bind (Ends.of_forall fun k => run_loadNext hl) ?_
  rw [if_neg (by simp)]
  refine Ends.bind (Ends.of_forall fun k => run_loadNext hl) ?_
  exact (sweep_congr (by simp) (by simp) hs).ends

/-- **On a list that ends** the links are turned once. -/
theorem reverseList_returns_of_isList (hp : h.IsList p as) :
    (reverseList p).Returns h (lastFrom NULL as) (h.turn NULL as) := by
  rcases as with _ | ⟨a, _ | ⟨b, as⟩⟩
  · obtain rfl : p = NULL := hp
    exact Returns.pure _ _
  · obtain ⟨rfl, q, hl, hq⟩ := hp
    obtain rfl : q = NULL := hq
    have hturn : h.turn NULL [a] = h := Heap.ext_of_frame [a]
      (fun b hb => by
        rw [List.mem_singleton.mp hb, Heap.turn, Heap.turn,
          Heap.link_setNext (by rw [hl, Option.isSome_some]), Function.update_self, hl])
      (fun b hb => Heap.node_turn_of_notMem hb) Heap.val_turn
    rw [hturn, reverseList, if_neg (by simp)]
    refine Ends.bind (Ends.of_forall fun k => run_loadNext hl) ?_
    rw [if_pos rfl]
    exact Returns.pure _ _
  · have hnd := hp.nodup
    have hsweep := sweep_ends hp hnd (sweep_null (lastFrom NULL (a :: b :: as)) _)
    obtain ⟨rfl, q, hl, rfl, -⟩ := hp
    exact reverseList_ends hl hsweep

/-- **On a chain that runs into a cycle** the links of the tail are turned twice
and those of the cycle once. -/
theorem reverseList_returns_of_rho (hr : Rho h.link p ts c cs) :
    (reverseList p).Returns h p (h.turnRho ts c cs) := by
  have hpath : Path h.link p (ts ++ c :: cs) (some c) := hr.tail.append hr.cycle
  have hlink : (h.turn NULL (ts ++ c :: cs)).link = _ :=
    Heap.link_turn fun a ha => hr.sound a (hr.reach_iff.mpr ha)
  have hback : Path (h.turn NULL (ts ++ c :: cs)).link (some c) (c :: ts.reverse) NULL :=
    hlink ▸ hr.path_back
  have hup : LoopEnds reverseRound (lastFrom NULL (ts ++ c :: cs), some c, some c) _
      (.ok (_, h.turnRho ts c cs)) := sweep_ends hback hback.nodup (sweep_null _ _)
  rw [lastFrom_cons, hr.tail.lastFrom_reverse] at hup
  -- down the tail and round the cycle, and then up the tail again
  have hsweep := sweep_ends hpath hr.nodup hup
  -- the first node of such a chain always links to another one
  obtain ⟨a, rfl⟩ : ∃ a, p = some a := by
    cases ts with
    | nil => exact ⟨c, hr.tail⟩
    | cons a ts => exact ⟨a, hr.tail.1⟩
  obtain ⟨d, hd⟩ : ∃ d, h.link a = some (some d) := by
    rcases ts with _ | ⟨b, ts⟩
    · obtain ⟨h0, q, hl, hq⟩ := hr.cycle
      obtain rfl : a = c := Option.some.inj hr.tail
      cases cs with
      | nil => exact ⟨a, hl.trans (congrArg some hq)⟩
      | cons d cs => exact ⟨d, hl.trans (congrArg some hq.1)⟩
    · obtain ⟨h0, q, hl, hq⟩ := hr.tail
      obtain rfl : a = b := Option.some.inj h0
      cases ts with
      | nil => exact ⟨c, hl.trans (congrArg some hq)⟩
      | cons d ts => exact ⟨d, hl.trans (congrArg some hq.1)⟩
  exact reverseList_ends hd hsweep

end Loop

/-! ### Reversal -/

/-- **The heap `h'` and the pointer `q` are what reversing the chain from `p` in `h`
gives.** -/
structure Reversal (h : Heap) (p q : Ptr) (h' : Heap) : Prop where
  /-- Nodes that are not reached are untouched. -/
  node_eq : ∀ a, ¬Reach h.link p a → h'.node a = h.node a
  /-- No value is changed. -/
  val_eq : h'.val = h.val
  /-- A list that ends is the same list backwards. -/
  isList : ∀ as, h.IsList p as → h'.IsList q as.reverse
  /-- A chain that runs into a cycle still starts at its head. -/
  head_eq : ∀ a, Reach h.link p a → Cyclic h.link a → q = p
  /-- The nodes of its tail keep their links. -/
  tail_eq : ∀ a, (∃ b, Reach h.link p b ∧ Cyclic h.link b) → Reach h.link p a →
    ¬Cyclic h.link a → h'.link a = h.link a
  /-- The edges of its cycle are reversed. -/
  edge : ∀ a b, Reach h.link p a → Cyclic h.link a → Edge h.link a b → Edge h'.link b a

section Results

variable {h : Heap} {p : Ptr} {as ts cs : List Addr} {c : Addr}

theorem Heap.IsList.reversal (hp : h.IsList p as) :
    Reversal h p (lastFrom NULL as) (h.turn NULL as) where
  node_eq _ ha := Heap.node_turn_of_notMem fun hc => ha (Path.reach_null_iff hp |>.mpr hc)
  val_eq := Heap.val_turn
  isList _ hbs := Path.null_unique hp hbs ▸ hp.turn
  head_eq _ ha hcyc := absurd hcyc (Path.not_cyclic hp ha)
  tail_eq _ := fun ⟨_, hb, hcyc⟩ => absurd hcyc (Path.not_cyclic hp hb)
  edge _ _ ha hcyc := absurd hcyc (Path.not_cyclic hp ha)

theorem Links.Rho.reversal (hr : Rho h.link p ts c cs) :
    Reversal h p p (h.turnRho ts c cs) where
  node_eq _ ha := Heap.node_turnRho_of_notMem fun hc => ha (hr.reach_iff.mpr hc)
  val_eq := Heap.val_turnRho
  isList _ hbs := by
    have hc : Reach h.link p c := hr.reach_iff.mpr (by simp)
    exact absurd ((hr.cyclic_iff hc).mpr List.mem_cons_self) (Path.not_cyclic hbs hc)
  head_eq _ _ _ := rfl
  tail_eq _ _ ha hcyc := by
    rw [hr.cyclic_iff ha] at hcyc
    have hmem := (List.mem_append.mp (hr.reach_iff.mp ha)).resolve_right hcyc
    exact Path.link_eq hr.tail (Heap.Rho.turnRho' hr).tail hmem
  edge _ _ ha hcyc hab := by
    have hinfix := hr.cycle.infix_of_edge ((hr.cyclic_iff ha).mp hcyc) hab
    rw [← List.reverse_infix] at hinfix
    refine (Heap.Rho.turnRho' hr).cycle.edge_of_infix ?_
    simpa using hinfix

/-- **Reversing a list in place is total and undoes itself.** From any pointer
whose links never dangle, both programs return, the same pointer and the same
heap; the result is the reversal; and from there both return the pointer and the
heap they started with. -/
theorem reverseList_involutive (h : Heap) (p : Ptr) (hs : Sound h.link p) :
    ∃ q h', (reverseList p).Returns h q h' ∧ (reverseList1 p).Returns h q h' ∧
      Reversal h p q h' ∧
      (reverseList q).Returns h' p h ∧ (reverseList1 q).Returns h' p h := by
  rw [reverseList1_eq]
  rcases exists_shape h.finite_link hs with ⟨as, hp⟩ | ⟨ts, c, cs, hr⟩
  · have hret := reverseList_returns_of_isList hp
    have hret' := reverseList_returns_of_isList (Heap.IsList.turn hp)
    rw [Heap.IsList.turn_turn hp, Path.lastFrom_reverse hp] at hret'
    exact ⟨_, _, hret, hret, Heap.IsList.reversal hp, hret', hret'⟩
  · have hret := reverseList_returns_of_rho hr
    have hret' := reverseList_returns_of_rho (Heap.Rho.turnRho' hr)
    rw [Heap.turnRho_turnRho hr] at hret'
    exact ⟨_, _, hret, hret, hr.reversal, hret', hret'⟩

/-- Reversing a lasso, and reversing it back. -/
theorem reverseList_involutive_lasso :
    ∃ q h', (reverseList (some 0)).Returns Heap.lasso q h' ∧
      (reverseList1 (some 0)).Returns Heap.lasso q h' ∧ Reversal Heap.lasso (some 0) q h' ∧
      (reverseList q).Returns h' (some 0) Heap.lasso ∧
      (reverseList1 q).Returns h' (some 0) Heap.lasso :=
  reverseList_involutive Heap.lasso (some 0) Heap.rho_lasso.sound

end Results

end DocumentCode
