import DocumentCode.Heap
import Mathlib.Data.List.Sort

/-!
# Merging two lists

`DocumentCode.mergeTwoLists` recurses down two lists, at each call takes the
smaller of the two first nodes off its list, merges the rest and links the node
to what came out. The heap is written on the way back only: while a call is
pending its node is still linked as before, and the nested call touches neither
it nor any other node off the two lists it is given.

So the nodes of the result are the merge of the two lists of nodes by their
values (`DocumentCode.mergeBy`), whatever the values are
(`DocumentCode.mergeTwoLists_ends`). What is wanted of the result is then a fact
about that merge: both lists are sublists of it, it is a permutation of the two
together, and where they are sorted so is it, the nodes of the *second* list
coming first among equals, since the program takes from the first only on `<`
(`DocumentCode.pair_sublist_mergeBy`).
-/

namespace DocumentCode

open Links Prog

/-! ### The program -/

/-- The body of `mergeTwoLists`, which calls `self`. -/
def mergeTwoLists.body (self : Ptr × Ptr → C Heap Ptr) : Ptr × Ptr → C Heap Ptr
  | (l1, l2) => do
    if l1 = NULL then
      return l2
    else if l2 = NULL then
      return l1
    else if (← loadVal l1) < (← loadVal l2) then
      storeNext l1 (← self (← loadNext l1, l2))
      return l1
    else
      storeNext l2 (← self (l1, ← loadNext l2))
      return l2

def mergeTwoLists (l1 l2 : Ptr) : C Heap Ptr := recurse mergeTwoLists.body (l1, l2)

/-! ### Merging by a key -/

section MergeBy

variable {α β : Type} [LinearOrder β] {key : α → β} {xs ys : List α} {a b x y : α}

/-- Two lists merged by a key: the first element of the first list is taken where
its key is less, and otherwise the first element of the second. -/
def mergeBy (key : α → β) (xs ys : List α) : List α := xs.merge ys fun a b => decide (key a < key b)

@[simp] theorem nil_mergeBy : mergeBy key [] ys = ys := List.nil_merge ys

@[simp] theorem mergeBy_nil : mergeBy key xs [] = xs := List.merge_right xs

theorem mergeBy_cons_of_lt (h : key x < key y) :
    mergeBy key (x :: xs) (y :: ys) = x :: mergeBy key xs (y :: ys) :=
  List.cons_merge_cons_pos _ _ _ (decide_eq_true h)

theorem mergeBy_cons_of_not_lt (h : ¬key x < key y) :
    mergeBy key (x :: xs) (y :: ys) = y :: mergeBy key (x :: xs) ys :=
  List.cons_merge_cons_neg _ _ _ (by simpa using h)

/-- **Recursion on two lists as a merge takes them apart.** -/
theorem mergeBy_induction {motive : List α → List α → Prop} (key : α → β)
    (nil_left : ∀ ys, motive [] ys) (nil_right : ∀ x xs, motive (x :: xs) [])
    (left : ∀ x xs y ys, key x < key y → motive xs (y :: ys) → motive (x :: xs) (y :: ys))
    (right : ∀ x xs y ys, ¬key x < key y → motive (x :: xs) ys → motive (x :: xs) (y :: ys))
    (xs ys : List α) : motive xs ys := by
  induction xs generalizing ys with
  | nil => exact nil_left ys
  | cons x xs ihx =>
    induction ys with
    | nil => exact nil_right x xs
    | cons y ys ihy =>
      by_cases h : key x < key y
      · exact left x xs y ys h (ihx (y :: ys))
      · exact right x xs y ys h ihy

theorem mergeBy_perm : (mergeBy key xs ys).Perm (xs ++ ys) := List.merge_perm_append _

theorem mem_mergeBy : a ∈ mergeBy key xs ys ↔ a ∈ xs ∨ a ∈ ys := List.mem_merge

/-- **A merge keeps the order of both lists.** -/
theorem sublist_mergeBy (key : α → β) (xs ys : List α) :
    xs.Sublist (mergeBy key xs ys) ∧ ys.Sublist (mergeBy key xs ys) := by
  induction xs, ys using mergeBy_induction key with
  | nil_left ys => exact ⟨List.nil_sublist _, by rw [nil_mergeBy]⟩
  | nil_right x xs => exact ⟨by rw [mergeBy_nil], List.nil_sublist _⟩
  | left x xs y ys h ih =>
    rw [mergeBy_cons_of_lt h]
    exact ⟨ih.1.cons_cons x, ih.2.cons x⟩
  | right x xs y ys h ih =>
    rw [mergeBy_cons_of_not_lt h]
    exact ⟨ih.1.cons y, ih.2.cons_cons y⟩

/-- **A merge of sorted lists is sorted.** -/
theorem pairwise_mergeBy (hx : xs.Pairwise (key · ≤ key ·)) (hy : ys.Pairwise (key · ≤ key ·)) :
    (mergeBy key xs ys).Pairwise (key · ≤ key ·) := by
  induction xs, ys using mergeBy_induction key with
  | nil_left ys => rwa [nil_mergeBy]
  | nil_right x xs => rwa [mergeBy_nil]
  | left x xs y ys h ih =>
    obtain ⟨hhead, hx⟩ := List.pairwise_cons.mp hx
    rw [mergeBy_cons_of_lt h, List.pairwise_cons]
    constructor
    · intro a ha
      rcases mem_mergeBy.mp ha with ha | ha
      · exact hhead a ha
      · rcases List.mem_cons.mp ha with rfl | ha
        · exact h.le
        · exact h.le.trans (List.rel_of_pairwise_cons hy ha)
    · exact ih hx hy
  | right x xs y ys h ih =>
    obtain ⟨hhead, hy⟩ := List.pairwise_cons.mp hy
    rw [mergeBy_cons_of_not_lt h, List.pairwise_cons]
    rw [not_lt] at h
    constructor
    · intro a ha
      rcases mem_mergeBy.mp ha with ha | ha
      · rcases List.mem_cons.mp ha with rfl | ha
        · exact h
        · exact h.trans (List.rel_of_pairwise_cons hx ha)
      · exact hhead a ha
    · exact ih hx hy

/-- **Among equals the second list comes first.** An element of the first list is
only taken before all the keys left in the second. -/
theorem pair_sublist_mergeBy (hy : ys.Pairwise (key · ≤ key ·)) (ha : a ∈ xs) (hb : b ∈ ys)
    (hab : key a = key b) : [b, a].Sublist (mergeBy key xs ys) := by
  induction xs, ys using mergeBy_induction key with
  | nil_left ys => simp at ha
  | nil_right x xs => simp at hb
  | left x xs y ys h ih =>
    rw [mergeBy_cons_of_lt h]
    rcases List.mem_cons.mp ha with rfl | ha
    · -- `a` is below every key of the second list
      have hle : key y ≤ key b := by
        rcases List.mem_cons.mp hb with rfl | hb
        · exact le_rfl
        · exact List.rel_of_pairwise_cons hy hb
      exact absurd hab (h.trans_le hle).ne
    · exact (ih hy ha hb).cons x
  | right x xs y ys h ih =>
    rw [mergeBy_cons_of_not_lt h]
    rcases List.mem_cons.mp hb with rfl | hb
    · -- `b` is taken, and `a` is still to come
      exact (List.singleton_sublist.mpr (mem_mergeBy.mpr (Or.inl ha))).cons_cons b
    · exact (ih (List.pairwise_cons.mp hy).2 ha hb).cons y

end MergeBy

/-! ### What a call does -/

section Results

variable {h h' : Heap} {l1 l2 p q r : Ptr} {xs ys as : List Addr} {x : Addr}

/-- Linking a node to a list it is not on puts it in front. -/
theorem Heap.IsList.cons_setNext (hp : h.IsList p as) (hx : (h.link x).isSome) (hxas : x ∉ as) :
    (h.setNext x p).IsList (some x) (x :: as) := by
  rw [IsList, Heap.link_setNext hx]
  refine ⟨rfl, p, Function.update_self .., Path.congr hp fun a ha => Function.update_of_ne ?_ _ _⟩
  rintro rfl
  exact hxas ha

/-- A call that links the node `x` to the list its nested call returns, and
returns `x`. -/
theorem mergeTwoLists_call {y : Ptr × Ptr}
    (hF : ∀ self k, (mergeTwoLists.body self (l1, l2)).run k h =
      (self y >>= fun p => storeNext (some x) p >>= fun _ => pure (some x)).run k h)
    (hrec : RecEnds mergeTwoLists.body y h (.ok (p, h'))) (hl : h'.link x = some q) :
    RecEnds mergeTwoLists.body (l1, l2) h (.ok (some x, h'.setNext x p)) := by
  refine .call hF hrec (Ends.of_forall fun k => ?_)
  rw [run_bind_of_ok (run_storeNext hl), run_pure]

/-- **A call has made a list** of the nodes `as`, and touched nothing but their
links. -/
structure Relinked (h : Heap) (p : Ptr) (as : List Addr) (h' : Heap) : Prop where
  /-- The list it returns. -/
  isList : h'.IsList p as
  /-- The values are kept. -/
  val_eq : h'.val = h.val
  /-- So are the other nodes. -/
  node_eq : ∀ a, a ∉ as → h'.node a = h.node a

theorem relinked_self (hp : h.IsList p as) : Relinked h p as h := ⟨hp, rfl, fun _ _ => rfl⟩

/-- A node that is on none of the lists still has its link. -/
theorem Relinked.link_eq (hr : Relinked h p as h') (hx : x ∉ as) : h'.link x = h.link x := by
  rw [Heap.link, Heap.link, hr.node_eq x hx]

/-- **One more node is put in front.** -/
theorem Relinked.cons (hr : Relinked h p as h') (hl : (h.link x).isSome) (hx : x ∉ as) :
    Relinked h (some x) (x :: as) (h'.setNext x p) where
  isList := hr.isList.cons_setNext (by rwa [hr.link_eq hx]) hx
  val_eq := by rw [Heap.val_setNext, hr.val_eq]
  node_eq a ha := by
    rw [List.mem_cons, not_or] at ha
    rw [Heap.node_setNext_of_ne ha.1, hr.node_eq a ha.2]

/-- The nodes of two disjoint lists are merged by their values, and nothing else
is touched. -/
theorem mergeTwoLists_ends (hx : h.IsList l1 xs) (hy : h.IsList l2 ys) (hd : xs.Disjoint ys) :
    ∃ p h', RecEnds mergeTwoLists.body (l1, l2) h (.ok (p, h')) ∧
      Relinked h p (mergeBy h.val xs ys) h' := by
  induction xs, ys using mergeBy_induction h.val generalizing l1 l2 with
  | nil_left ys =>
    obtain rfl : l1 = NULL := hx
    refine ⟨l2, h, .base fun self k => ?_, ?_⟩
    · rw [mergeTwoLists.body, if_pos rfl, run_pure]
    · rw [nil_mergeBy]
      exact relinked_self hy
  | nil_right x xs =>
    obtain rfl : l2 = NULL := hy
    refine ⟨l1, h, .base fun self k => ?_, ?_⟩
    · rw [mergeTwoLists.body, if_neg (hx.ne_null_iff.mpr (List.cons_ne_nil _ _)), if_pos rfl,
        run_pure]
    · rw [mergeBy_nil]
      exact relinked_self hx
  | left x xs y ys hlt ih =>
    have hnd := hx.nodup
    obtain ⟨rfl, q, hl, hx⟩ := hx
    obtain ⟨hxd, hd⟩ := List.disjoint_cons_left.mp hd
    obtain ⟨p, h', hrec, hr⟩ := ih hx hy hd
    -- the nested call leaves the first node alone
    have hxm : x ∉ mergeBy h.val xs (y :: ys) := fun hm =>
      (mem_mergeBy.mp hm).elim (List.nodup_cons.mp hnd).1 hxd
    have hl' : h'.link x = some q := (hr.link_eq hxm).trans hl
    refine ⟨some x, h'.setNext x p, mergeTwoLists_call (fun self k => ?_) hrec hl', ?_⟩
    · obtain ⟨rfl, q', hl', -⟩ := hy
      rw [mergeTwoLists.body, if_neg (by simp), if_neg (by simp), run_bind_of_ok (run_loadVal hl),
        run_bind_of_ok (run_loadVal hl'), if_pos hlt, run_bind_of_ok (run_loadNext hl)]
    · rw [mergeBy_cons_of_lt hlt]
      exact hr.cons (by rw [hl, Option.isSome_some]) hxm
  | right x xs y ys hlt ih =>
    have hnd := hy.nodup
    obtain ⟨rfl, q, hl, hy⟩ := hy
    obtain ⟨hyd, hd⟩ := List.disjoint_cons_right.mp hd
    obtain ⟨p, h', hrec, hr⟩ := ih hx hy hd
    -- the same from the second list
    have hym : y ∉ mergeBy h.val (x :: xs) ys := fun hm =>
      (mem_mergeBy.mp hm).elim hyd (List.nodup_cons.mp hnd).1
    have hl' : h'.link y = some q := (hr.link_eq hym).trans hl
    refine ⟨some y, h'.setNext y p, mergeTwoLists_call (fun self k => ?_) hrec hl', ?_⟩
    · obtain ⟨rfl, q', hl', -⟩ := hx
      rw [mergeTwoLists.body, if_neg (by simp), if_neg (by simp), run_bind_of_ok (run_loadVal hl'),
        run_bind_of_ok (run_loadVal hl), if_neg hlt, run_bind_of_ok (run_loadNext hl)]
    · rw [mergeBy_cons_of_not_lt hlt]
      exact hr.cons (by rw [hl, Option.isSome_some]) hym

/-- **Merging two disjoint lists.** The call returns; the list it returns has the
nodes of both, each once, in the order of their own list and with their values;
other nodes are untouched; and the result of merging sorted lists is sorted, the
nodes of the second before those of the first on equal values. -/
theorem mergeTwoLists_returns (hx : h.IsList l1 xs) (hy : h.IsList l2 ys) (hd : xs.Disjoint ys) :
    ∃ p h' zs, (mergeTwoLists l1 l2).Returns h p h' ∧ h'.IsList p zs ∧ zs.Perm (xs ++ ys) ∧
      xs.Sublist zs ∧ ys.Sublist zs ∧ h'.val = h.val ∧
      (∀ a, a ∉ xs → a ∉ ys → h'.node a = h.node a) ∧
      (xs.Pairwise (h.val · ≤ h.val ·) → ys.Pairwise (h.val · ≤ h.val ·) →
        zs.Pairwise (h'.val · ≤ h'.val ·) ∧
        ∀ a ∈ xs, ∀ b ∈ ys, h.val a = h.val b → [b, a].Sublist zs) := by
  obtain ⟨p, h', hrec, hr⟩ := mergeTwoLists_ends hx hy hd
  obtain ⟨hsub, hsub'⟩ := sublist_mergeBy h.val xs ys
  have hnode : ∀ a, a ∉ xs → a ∉ ys → h'.node a = h.node a := fun a ha ha' =>
    hr.node_eq a fun hm => (mem_mergeBy.mp hm).elim ha ha'
  refine ⟨p, h', mergeBy h.val xs ys, hrec.ends, hr.isList, mergeBy_perm, hsub, hsub', hr.val_eq,
    hnode, fun hxs hys => ⟨?_, ?_⟩⟩
  · rw [hr.val_eq]
    exact pairwise_mergeBy hxs hys
  · intro a ha b hb hab
    exact pair_sublist_mergeBy hys ha hb hab

/-- The lists 1, 2, 4 and 1, 3, 4. -/
def twoLists : Heap :=
  .ofNodes [(0, ⟨1, some 1⟩), (1, ⟨2, some 2⟩), (2, ⟨4, NULL⟩),
    (3, ⟨1, some 4⟩), (4, ⟨3, some 5⟩), (5, ⟨4, NULL⟩)]

/-- Merging 1, 2, 4 and 1, 3, 4. -/
theorem mergeTwoLists_returns_twoLists :
    ∃ p h' zs, (mergeTwoLists (some 0) (some 3)).Returns twoLists p h' ∧ h'.IsList p zs ∧
      zs.Perm [0, 1, 2, 3, 4, 5] ∧ [0, 1, 2].Sublist zs ∧ [3, 4, 5].Sublist zs ∧
      h'.val = twoLists.val ∧
      (∀ a, a ∉ [0, 1, 2] → a ∉ [3, 4, 5] → h'.node a = twoLists.node a) ∧
      zs.Pairwise (h'.val · ≤ h'.val ·) ∧
      ∀ a ∈ [0, 1, 2], ∀ b ∈ [3, 4, 5], twoLists.val a = twoLists.val b → [b, a].Sublist zs := by
  have hx : twoLists.IsList (some 0) [0, 1, 2] := ⟨rfl, _, rfl, rfl, _, rfl, rfl, _, rfl, rfl⟩
  have hy : twoLists.IsList (some 3) [3, 4, 5] := ⟨rfl, _, rfl, rfl, _, rfl, rfl, _, rfl, rfl⟩
  obtain ⟨p, h', zs, hret, hlist, hperm, hsub, hsub', hval, hnode, hsorted⟩ :=
    mergeTwoLists_returns hx hy (by simp)
  exact ⟨p, h', zs, hret, hlist, hperm, hsub, hsub', hval, hnode,
    hsorted (by decide) (by decide)⟩

end Results

end DocumentCode
