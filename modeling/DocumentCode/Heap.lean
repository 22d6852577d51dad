import DocumentCode.CLang
import DocumentCode.Links
import Mathlib.Data.Set.Finite.Basic

/-!
# A heap of list nodes

The memory the singly linked lists live in: finitely many nodes, each with an
`int` and a pointer to the next one, at addresses that are natural numbers. The
three accesses a program makes – reading `p->next` and `p->val`, assigning
`p->next` – fault at the null pointer and at an address without a node.

What the programs do to a heap is stated through its two halves: the *links*
(`DocumentCode.Heap.link`), a link map of `DocumentCode.Links`, and the *values*
(`DocumentCode.Heap.val`). Assigning `p->next` updates the first and leaves the
second alone, and the two together determine the heap
(`DocumentCode.Heap.ext_link`).
-/

namespace DocumentCode

/-- The address of a node. -/
abbrev Addr : Type := ℕ

/-- A pointer to a node. -/
abbrev Ptr : Type := Option Addr

/-- The null pointer. -/
abbrev NULL : Ptr := none

/-- A node of a singly linked list. -/
structure ListNode where
  /-- The value. -/
  val : ℤ
  /-- The next node. -/
  next : Ptr
  deriving DecidableEq, Repr

/-- **A heap**: finitely many nodes. -/
@[ext] structure Heap where
  /-- The node at an address, if there is one. -/
  node : Addr → Option ListNode
  /-- There are finitely many of them. -/
  finite : {a | node a ≠ none}.Finite

namespace Heap

/-- The link map of a heap. -/
def link (h : Heap) (a : Addr) : Option Ptr := (h.node a).map ListNode.next

/-- The value of the node at an address, `0` where there is no node. -/
def val (h : Heap) (a : Addr) : ℤ := ((h.node a).map ListNode.val).getD 0

/-- The nodes met from `p` on are those of the list, in order, and the last one
ends the chain: an acyclic `NULL`-terminated list. -/
def IsList (h : Heap) (p : Ptr) (as : List Addr) : Prop := Links.Path h.link p as NULL

/-- The values along a list of nodes. -/
def vals (h : Heap) (as : List Addr) : List ℤ := as.map h.val

variable {h h' : Heap} {a b : Addr} {p q : Ptr} {as : List Addr}

theorem finite_link (h : Heap) : {a | h.link a ≠ none}.Finite :=
  h.finite.subset fun a ha hn => ha (by rw [link, hn, Option.map_none])

theorem node_of_link (hl : h.link a = some q) : h.node a = some ⟨h.val a, q⟩ := by
  obtain ⟨n, hn, rfl⟩ := Option.map_eq_some_iff.mp hl
  rw [hn, val, hn, Option.map_some, Option.getD_some]

/-- **The links and the values determine the heap.** -/
theorem ext_link (hl : ∀ a, h.link a = h'.link a) (hv : ∀ a, h.val a = h'.val a) : h = h' := by
  apply Heap.ext
  funext a
  cases hla : h.link a with
  | some q => rw [node_of_link hla, node_of_link ((hl a).symm.trans hla), hv]
  | none =>
    have hla' := (hl a).symm.trans hla
    rw [link, Option.map_eq_none_iff] at hla hla'
    rw [hla, hla']

/-- Two heaps are the same where they have the same links on some nodes, the same
nodes elsewhere and the same values. -/
theorem ext_of_frame (as : List Addr) (hl : ∀ a ∈ as, h.link a = h'.link a)
    (hn : ∀ a, a ∉ as → h.node a = h'.node a) (hv : h.val = h'.val) : h = h' := by
  apply ext_link
  · intro a
    by_cases ha : a ∈ as
    · exact hl a ha
    · rw [link, link, hn a ha]
  · exact congrFun hv

/-- The heap holding the listed nodes, the first of them at each address. -/
def ofNodes (l : List (Addr × ListNode)) : Heap where
  node a := l.lookup a
  finite := by
    refine (List.finite_toSet (l.map Prod.fst)).subset ?_
    intro a ha
    by_contra hmem
    refine ha (List.lookup_eq_none_iff.mpr ?_)
    intro e he
    have hne : e.1 ≠ a := fun hea => hmem (List.mem_map.mpr ⟨e, he, hea⟩)
    simpa using hne.symm

/-- A node that leads into a cycle of two: `0 → 1 → 2 → 1`. -/
def lasso : Heap := ofNodes [(0, ⟨7, some 1⟩), (1, ⟨8, some 2⟩), (2, ⟨9, some 1⟩)]

theorem rho_lasso : Links.Rho lasso.link (some 0) [0] 1 [2] :=
  ⟨⟨rfl, _, rfl, rfl⟩, ⟨rfl, _, rfl, rfl, _, rfl, rfl⟩, by decide⟩

/-- Assign `q` to the `next` field of the node at `a`. -/
def setNext (h : Heap) (a : Addr) (q : Ptr) : Heap where
  node := Function.update h.node a ((h.node a).map fun n => { n with next := q })
  finite := by
    refine h.finite.subset fun b hb hn => hb ?_
    rcases eq_or_ne b a with rfl | hba
    · rw [Function.update_self, hn, Option.map_none]
    · rw [Function.update_of_ne hba, hn]

theorem node_setNext_of_ne (hb : b ≠ a) : (h.setNext a q).node b = h.node b :=
  Function.update_of_ne hb _ _

theorem link_setNext (ha : (h.link a).isSome) :
    (h.setNext a q).link = Function.update h.link a (some q) := by
  funext b
  obtain ⟨q', hq'⟩ := Option.isSome_iff_exists.mp ha
  rcases eq_or_ne b a with rfl | hba
  · simp [link, setNext, node_of_link hq']
  · simp [link, setNext, Function.update_of_ne hba]

@[simp] theorem val_setNext : (h.setNext a q).val = h.val := by
  funext b
  rcases eq_or_ne b a with rfl | hba
  · cases hn : h.node b <;> simp [val, setNext, hn]
  · simp [val, setNext, Function.update_of_ne hba]

/-! ### Lists in a heap -/

theorem IsList.nodup (hp : h.IsList p as) : as.Nodup := Links.Path.nodup hp

@[simp] theorem isList_nil : h.IsList p [] ↔ p = NULL := Iff.rfl

@[simp] theorem isList_cons :
    h.IsList p (a :: as) ↔ p = some a ∧ ∃ q, h.link a = some q ∧ h.IsList q as := Iff.rfl

theorem IsList.ne_null_iff (hp : h.IsList p as) : p ≠ NULL ↔ as ≠ [] := by
  cases as with
  | nil => simpa using hp
  | cons a as => simp [hp.1]

/-- A list starts at its first node. -/
theorem IsList.head (hp : h.IsList p as) : as[0]? = p := (hp.advance_iterate 0).symm

/-- From the index `n` on, a list is the list of the nodes from there on. -/
theorem IsList.drop (hp : h.IsList p as) (n : ℕ) :
    Links.Path h.link p (as.take n) as[n]? ∧ h.IsList as[n]? (as.drop n) := by
  obtain ⟨q, htake, hdrop⟩ := Links.path_append.mp ((List.take_append_drop n as).symm ▸ hp)
  obtain rfl : as[n]? = q := by rw [← IsList.head hdrop, List.getElem?_drop, add_zero]
  exact ⟨htake, hdrop⟩

theorem IsList.link_getElem (hp : h.IsList p as) {i : ℕ} (hi : i < as.length) :
    h.link as[i] = some as[i + 1]? := Links.Path.link_getElem hp hi

/-- **Linking a node past the next one takes that one out of the list.** -/
theorem IsList.setNext_eraseIdx (hp : h.IsList p as) {i : ℕ} (hi : i + 1 < as.length) :
    (h.setNext as[i] as[i + 2]?).IsList p (as.eraseIdx (i + 1)) := by
  rw [IsList, link_setNext (by rw [hp.link_getElem (by omega), Option.isSome_some])]
  exact Links.Path.unlink hp hi

end Heap

/-! ### Accesses -/

/-- The node a pointer points to. -/
def deref (p : Ptr) : C Heap ListNode := do
  match p with
  | none => Prog.fault .nullDeref
  | some a => match (← Prog.get).node a with
    | none => Prog.fault .wild
    | some n => pure n

/-- `p->next`. -/
def loadNext (p : Ptr) : C Heap Ptr := do return (← deref p).next

/-- `p->val`. -/
def loadVal (p : Ptr) : C Heap ℤ := do return (← deref p).val

/-- `p->next = q`. -/
def storeNext (p q : Ptr) : C Heap Unit := do
  match p with
  | none => Prog.fault .nullDeref
  | some a => match (← Prog.get).node a with
    | none => Prog.fault .wild
    | some _ => Prog.set ((← Prog.get).setNext a q)

section Access

variable {h : Heap} {a : Addr} {q q' : Ptr} {k : ℕ}

@[simp] theorem run_loadNext_null : (loadNext NULL).run k h = some (.error .nullDeref) := rfl

theorem run_loadNext (hl : h.link a = some q) :
    (loadNext (some a)).run k h = some (.ok (q, h)) := by
  simp [loadNext, deref, Prog.run_bind, Heap.node_of_link hl]

theorem run_loadVal (hl : h.link a = some q) :
    (loadVal (some a)).run k h = some (.ok (h.val a, h)) := by
  simp [loadVal, deref, Prog.run_bind, Heap.node_of_link hl]

theorem run_storeNext (hl : h.link a = some q) :
    (storeNext (some a) q').run k h = some (.ok ((), h.setNext a q')) := by
  simp [storeNext, Prog.run_bind, Heap.node_of_link hl]

variable {p : Ptr} {as : List Addr} {i : ℕ}

/-- Reading `next` along a list. -/
theorem run_loadNext_getElem (hp : h.IsList p as) (hi : i < as.length) :
    (loadNext as[i]?).run k h = some (.ok (as[i + 1]?, h)) := by
  rw [List.getElem?_eq_getElem hi]
  exact run_loadNext (hp.link_getElem hi)

end Access

end DocumentCode
