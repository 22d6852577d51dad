import DocumentCode.SFilter.Device
import Mathlib.Data.BitVec

/-!
# One step of a filter device

`DocumentCode.SFilter.move` has a step for every point of every routine. Here it is
said once what a step can do, field by field; whatever holds in all runs is proved
from that.

* The resource: `DocumentCode.SFilter.next_lockStep`.
* The count: `DocumentCode.SFilter.next_outstanding` where the macros store their
  result, `DocumentCode.SFilter.next_outstanding_eq` where they do not.
* That it gets somewhere: `DocumentCode.SFilter.next_pc_ne`.
* Where a thread can get, and from where: `DocumentCode.SFilter.next_counted`,
  `DocumentCode.SFilter.next_sleeping`, `DocumentCode.SFilter.next_tearing`.
* The extension: `DocumentCode.SFilter.next_extension`.
* The event: `DocumentCode.SFilter.next_event`.

`DocumentCode.SFilter.Inv` is what follows for the resource and for the end of the
extension, whatever the macros do.
-/

namespace DocumentCode

namespace SFilter

open Threads

variable {stored : Bool} {node : NodeType} {c : Choice} {i j : ℕ} {x x' : Extension}
  {t t' : Request} {s s' : State Extension Request}

/-! ### One step -/

/-- The thread owns the resource. -/
def Request.holds (t : Request) : Bool := t.pc.holds

/-- The request has been added to the count and not been taken off it. -/
def Request.counted (t : Request) : Bool := t.pc.counted

/-- The tests of a dispatch routine change nothing but the number of contexts. -/
theorem dispatch_fst (x : Extension) (c : Choice) (r : Routine) :
    (dispatch x c r).1 = { x with
      mountCompletions :=
        x.mountCompletions + if (dispatch x c r).2 = .increment true then 1 else 0 } := by
  cases x
  cases r <;> grind [dispatch, defaultDispatch, create, cleanupOrClose, fsControl]

/-- **What the tests of a dispatch routine come to**: a request is only ever sent on
where the extension is attached. -/
theorem dispatch_snd (x : Extension) (c : Choice) (r : Routine) :
    (∃ RC info, (dispatch x c r).2 = .unwind RC info) ∨
      (x.attached = true ∧
        ((dispatch x c r).2 = .handOn ∨ ∃ mount, (dispatch x c r).2 = .increment mount)) := by
  have hx : x.forwards = true → x.attached = true := fun h => by
    rw [Extension.forwards, Bool.and_eq_true] at h
    exact h.2
  cases r <;> grind [dispatch, defaultDispatch, create, cleanupOrClose, fsControl]

theorem some_pair_eq {y y' : Extension} {u u' : Request} :
    some (y, u) = some (y', u') ↔ y = y' ∧ u = u' := by
  rw [Option.some.injEq, Prod.mk.injEq]

/-- A step is taken on an extension that is there. -/
theorem next_eq (h : next stored c i x t = some (x', t')) :
    (x.deleted && t.pc.touches) = false ∧ move stored c i x t = some (x', t') := by
  rw [next] at h
  split at h
  · cases h
  next hx => exact ⟨Bool.eq_false_iff.mpr hx, h⟩

/-- A step takes the resource where it is free and gives it back where it is held. -/
theorem next_lockStep (h : next stored c i x t = some (x', t'))
    (hi : t.holds = true ↔ x.deviceExtensionResource = some i) :
    LockStep i x.deviceExtensionResource t.holds x'.deviceExtensionResource t'.holds := by
  obtain ⟨pc, n, st⟩ := t
  obtain ⟨-, h⟩ := next_eq h
  simp only [Request.holds] at hi ⊢
  cases pc <;> simp only [move, Request.goto] at h
  case test =>
    grind [LockStep, PC.holds, dispatch_fst, dispatch_snd]
  all_goals
    grind [LockStep, PC.holds, completion, cases CountedBy, finish]

/-- A step adds the request to the count, takes it off or leaves it where it is, if the
macros store their result. -/
theorem next_outstanding_cases (h : next true c i x t = some (x', t')) :
    (x'.outstandingIoRequests = x.outstandingIoRequests + 1 ∧
        t.counted = false ∧ t'.counted = true) ∨
      (x'.outstandingIoRequests = x.outstandingIoRequests - 1 ∧
        t.counted = true ∧ t'.counted = false) ∨
      (x'.outstandingIoRequests = x.outstandingIoRequests ∧ t'.counted = t.counted) := by
  obtain ⟨pc, n, st⟩ := t
  obtain ⟨-, h⟩ := next_eq h
  simp only [Request.counted]
  cases pc <;> simp only [move, Request.goto] at h
  case test =>
    grind [PC.counted, dispatch_fst, dispatch_snd]
  all_goals
    grind [PC.counted, completion, cases CountedBy, finish, incrementLargeInteger,
      decrementLargeInteger, rtlLargeIntegerAdd, rtlLargeIntegerSubtract]

/-- **A step changes the count as the request goes in and out of it**, if the macros
store their result. -/
theorem next_outstanding (h : next true c i x t = some (x', t')) :
    x'.outstandingIoRequests = x.outstandingIoRequests - (weight Request.counted t : ℤ) +
      (weight Request.counted t' : ℤ) := by
  rcases next_outstanding_cases h with ⟨hx, ht, ht'⟩ | ⟨hx, ht, ht'⟩ | ⟨hx, ht⟩
  · simp [hx, weight, ht, ht']
  · simp [hx, weight, ht, ht']
  · rw [hx, weight, weight, ht, sub_add_cancel]

/-- **As the macros stand no step changes the count.** -/
theorem next_outstanding_eq (h : next false c i x t = some (x', t')) :
    x'.outstandingIoRequests = x.outstandingIoRequests := by
  obtain ⟨pc, n, st⟩ := t
  obtain ⟨-, h⟩ := next_eq h
  cases pc <;> simp only [move, Request.goto] at h
  case test =>
    grind [dispatch_fst]
  all_goals
    grind [cases CountedBy, finish, incrementLargeInteger, decrementLargeInteger]

/-- **How a thread gets where it matters**: onto the count by the increment, to the
increment by a test of an attached extension, and to the detach by a count of
zero. -/
theorem next_counted (h : next stored c i x t = some (x', t')) :
    (t'.counted = true → t.counted = true ∨ t.pc.incrementing = true) ∧
      (t'.pc.incrementing = true → x.attached = true ∧ t.pc ≠ .detach) ∧
      (t'.pc = .detach → x.outstandingIoRequests = 0 ∧ t.counted = false) := by
  obtain ⟨pc, n, st⟩ := t
  obtain ⟨-, h⟩ := next_eq h
  simp only [Request.counted]
  cases pc <;> simp only [move, Request.goto, some_pair_eq, Option.ite_none_right_eq_some,
    reduceCtorEq] at h
  case acquire | detachAcquire | detachWait =>
    obtain ⟨-, rfl, rfl⟩ := h
    simp [PC.counted, PC.incrementing]
  case test r _ =>
    obtain ⟨rfl, rfl⟩ := h
    obtain ⟨RC, info, hpc⟩ | ⟨hx, hpc | ⟨mount, hpc⟩⟩ := dispatch_snd x c r <;>
    simp_all [PC.counted, PC.incrementing]
  case completion mount _ =>
    obtain ⟨rfl, rfl⟩ := h
    grind [PC.counted, PC.incrementing, completion]
  case leaveAttach ok _ =>
    obtain ⟨rfl, rfl⟩ := h
    cases ok <;> simp [PC.counted, PC.incrementing]
  case detachIsZero =>
    obtain ⟨rfl, rfl⟩ := h
    grind [PC.counted, PC.incrementing, isLargeIntegerZero]
  all_goals
    obtain ⟨rfl, rfl⟩ := h
    simp [PC.counted, PC.incrementing]

/-- A thread goes to sleep where the count is not zero. -/
theorem next_sleeping (h : next stored c i x t = some (x', t'))
    (hsleeping : t'.pc.sleeping = true) :
    t.pc.sleeping = true ∨ x.outstandingIoRequests ≠ 0 ∧ t.counted = false := by
  obtain ⟨pc, n, st⟩ := t
  obtain ⟨-, h⟩ := next_eq h
  simp only [Request.counted]
  cases pc <;> simp only [move, Request.goto] at h
  case test r _ =>
    have hpc := dispatch_snd x c r
    grind [PC.counted, PC.sleeping]
  all_goals
    grind [PC.counted, PC.sleeping, completion, cases CountedBy, isLargeIntegerZero]

/-- A thread does not get back to the attach, and gets to the end of the extension by the
detach. -/
theorem next_tearing (h : next stored c i x t = some (x', t')) :
    (t'.pc.attaching = true → t.pc.attaching = true) ∧
      (t'.pc.tearing = true → t.pc.tearing = true ∨ t.pc = .detach) := by
  obtain ⟨pc, n, st⟩ := t
  obtain ⟨-, h⟩ := next_eq h
  cases pc <;> simp only [move, Request.goto, some_pair_eq, Option.ite_none_right_eq_some,
    reduceCtorEq] at h
  case acquire | detachAcquire | detachWait =>
    obtain ⟨-, rfl, rfl⟩ := h
    simp [PC.attaching, PC.tearing]
  case test r _ =>
    obtain ⟨rfl, rfl⟩ := h
    obtain ⟨RC, info, hpc⟩ | ⟨-, hpc | ⟨mount, hpc⟩⟩ := dispatch_snd x c r <;>
    simp [hpc, PC.attaching, PC.tearing]
  case completion mount _ =>
    obtain ⟨rfl, rfl⟩ := h
    grind [PC.attaching, PC.tearing, completion]
  case leaveAttach ok _ =>
    obtain ⟨rfl, rfl⟩ := h
    cases ok <;> simp [PC.attaching, PC.tearing]
  case detachIsZero =>
    obtain ⟨rfl, rfl⟩ := h
    grind [PC.attaching, PC.tearing]
  all_goals
    obtain ⟨rfl, rfl⟩ := h
    simp [PC.attaching, PC.tearing]

/-- **A step gets somewhere**, unless it is a completion routine that is called with
another device object. -/
theorem next_pc_ne (hsame : c.sameDevice = true) (h : next stored c i x t = some (x', t')) :
    t'.pc ≠ t.pc := by
  obtain ⟨pc, n, st⟩ := t
  obtain ⟨-, h⟩ := next_eq h
  cases pc <;> simp only [move, Request.goto] at h
  case test r _ =>
    have := dispatch_snd x c r
    grind
  all_goals
    grind [completion]

/-- **What becomes of the extension**: it is attached by the attach, detached by the
detach, and taken down by a thread that is at it. -/
theorem next_extension (h : next stored c i x t = some (x', t')) :
    (x'.attached = true → x.attached = true ∨ t.pc.attaching = true) ∧
      (x'.attached = false → x.attached = false ∨ t.pc = .detach) ∧
      (t.pc = .detach → x'.attached = false) ∧
      (x'.resourceInitialized = false → x.resourceInitialized = false ∨ t.pc.tearing = true) ∧
      (x'.deleted = true → x.deleted = true ∨ t.pc.tearing = true) := by
  obtain ⟨pc, n, st⟩ := t
  obtain ⟨-, h⟩ := next_eq h
  cases pc <;> simp only [move, Request.goto, some_pair_eq, Option.ite_none_right_eq_some,
    reduceCtorEq] at h
  case acquire | detachAcquire | detachWait =>
    obtain ⟨-, rfl, rfl⟩ := h
    simp +contextual
  case test r _ =>
    obtain ⟨rfl, rfl⟩ := h
    simp +contextual [dispatch_fst]
  case finish a _ =>
    obtain ⟨rfl, rfl⟩ := h
    cases a <;> simp +contextual [SFilter.finish]
  all_goals
    obtain ⟨rfl, rfl⟩ := h
    simp +contextual [PC.attaching, PC.tearing]

/-- **Who sees to it that a detacher is woken**: the event stays set unless it is
cleared for a request on the count, and a thread that will wake the detacher does
so, hands it on, or has seen another request on the count. -/
theorem next_event (h : next stored c i x t = some (x', t')) :
    (x.ioInProgressEvent = true → x'.ioInProgressEvent = true ∨ t'.pc.waking = true) ∧
      (t.pc.waking = true → t'.pc.waking = true ∨ x'.ioInProgressEvent = true ∨
        (x.outstandingIoRequests ≠ 0 ∧ t.counted = false)) := by
  obtain ⟨pc, n, st⟩ := t
  obtain ⟨-, h⟩ := next_eq h
  simp only [Request.counted]
  cases pc <;> simp only [move, Request.goto, some_pair_eq, Option.ite_none_right_eq_some,
    reduceCtorEq] at h
  case acquire | detachAcquire | detachWait =>
    obtain ⟨-, rfl, rfl⟩ := h
    simp +contextual [PC.waking, PC.counted]
  case test r _ =>
    obtain ⟨rfl, rfl⟩ := h
    simp +contextual [dispatch_fst, show (PC.test r).waking = false from rfl]
  case completion mount _ =>
    obtain ⟨rfl, rfl⟩ := h
    grind [PC.waking, PC.counted, completion]
  case isZero a _ =>
    obtain ⟨rfl, rfl⟩ := h
    grind [PC.waking, PC.counted, isLargeIntegerZero]
  case setEvent a canDetachProceed _ =>
    obtain ⟨rfl, rfl⟩ := h
    cases canDetachProceed <;> simp +contextual [PC.waking]
  case finish a _ =>
    obtain ⟨rfl, rfl⟩ := h
    cases a <;> simp +contextual [SFilter.finish, PC.waking, PC.counted]
  case leaveAttach | detachIsZero =>
    obtain ⟨rfl, rfl⟩ := h
    simp +contextual [show ∀ ok, (PC.leaveAttach ok).waking = false from fun _ => rfl,
      show PC.detachIsZero.waking = false from rfl]
  all_goals
    obtain ⟨rfl, rfl⟩ := h
    simp +contextual [PC.waking, PC.counted]

/-! ### What holds on the way -/

/-- Whatever the macros do. -/
structure Inv (s : State Extension Request) : Prop where
  /-- The resource is owned by the thread that is in its scope. -/
  exclusive : Exclusive Extension.deviceExtensionResource Request.holds s
  /-- While the device is being attached its extension is there, and nobody takes it
  down. -/
  attaching : ∀ i t, s.At i t → t.pc.attaching = true →
    s.shared.resourceInitialized = true ∧ s.shared.deleted = false ∧
      ∀ j u, s.At j u → u.pc.tearing = false
  /-- What is being taken down is not attached. -/
  tearing : ∀ i t, s.At i t → t.pc.tearing = true → s.shared.attached = false
  /-- What has been taken down is not attached. -/
  gone : s.shared.resourceInitialized = false ∨ s.shared.deleted = true →
    s.shared.attached = false

theorem attaching_holds {pc : PC} (h : pc.attaching = true) : pc.holds = true := by
  cases pc <;> first | rfl | cases h

theorem entry_pc {pc : PC} (h : pc.entry = true) : pc.holds = false ∧ pc.counted = false ∧
    pc.incrementing = false ∧ pc.attaching = false ∧ pc.tearing = false ∧ pc ≠ .detach ∧
    pc.sleeping = false := by
  cases pc <;> simp_all [PC.entry, PC.holds, PC.counted, PC.incrementing, PC.attaching,
    PC.tearing, PC.sleeping]

theorem spawns_cases (h : (device stored node).spawns x t) :
    x.deleted = false ∧ t.pc.entry = true ∧ t.completions = 0 ∧ t.ioStatus = none := by
  obtain ⟨hx, hpc, ht⟩ := h
  rw [ht]
  exact ⟨hx, hpc, rfl, rfl⟩

/-- At the start there is at most the thread that attaches the device. -/
theorem initial_cases (h : (initialRequests node)[i]? = some t) :
    node = .attachedDevice ∧ i = 0 ∧ t = .entering .attach := by
  rw [initialRequests] at h
  split at h
  next hnode =>
    rw [List.getElem?_singleton] at h
    split at h
    next hi => exact ⟨hnode, hi, (Option.some.inj h).symm⟩
    next => cases h
  next => cases h

theorem device_init (stored : Bool) (node : NodeType) : (device stored node).system.Reachable
    ⟨initDevExtension node, initialRequests node⟩ := .init rfl

theorem inv_init : Inv ⟨initDevExtension node, initialRequests node⟩ where
  exclusive := by
    refine ⟨fun i t ht => ?_, fun i hi => ?_⟩
    · obtain ⟨rfl, rfl, rfl⟩ := initial_cases ht
      exact ⟨fun _ => rfl, fun _ => rfl⟩
    · simp only [initDevExtension] at hi
      split at hi
      next hnode =>
        obtain rfl := Option.some.inj hi
        simp only [initialRequests, if_pos hnode, List.length_singleton, Nat.zero_lt_one]
      next => cases hi
  attaching _ _ _ _ := ⟨rfl, rfl, fun _ _ hu => by obtain ⟨-, -, rfl⟩ := initial_cases hu; rfl⟩
  tearing _ _ _ _ := rfl
  gone _ := rfl

/-- Before a step that leaves the device attached nobody takes it down. -/
theorem Inv.attached_go (h : Inv s) (ht : s.At i t)
    (hnext : next stored c i s.shared t = some (x', t')) (hx' : x'.attached = true) :
    s.shared.resourceInitialized = true ∧ s.shared.deleted = false ∧
      (∀ j u, s.At j u → u.pc.tearing = false) ∧ t.pc ≠ .detach := by
  obtain ⟨hattach, -, hdetach, -, -⟩ := next_extension hnext
  rcases hattach hx' with hx | hpc
  · refine ⟨?_, ?_, fun j u hu => ?_, fun hpc => ?_⟩
    · by_contra hinit
      have := h.gone (Or.inl (Bool.eq_false_iff.mpr hinit))
      simp [hx] at this
    · by_contra hdel
      have := h.gone (Or.inr (by simpa using hdel))
      simp [hx] at this
    · by_contra htear
      have := h.tearing j u hu (by simpa using htear)
      simp [hx] at this
    · simp [hdetach hpc] at hx'
  · obtain ⟨hinit, hdel, hothers⟩ := h.attaching i t ht hpc
    exact ⟨hinit, hdel, hothers, fun hdet => by rw [hdet] at hpc; cases hpc⟩

theorem Inv.go (h : Inv s) (hs : (device stored node).go s i c = some s') : Inv s' := by
  have hexcl := h.exclusive.go (fun t x t' hi hnext => next_lockStep hnext hi) hs
  obtain ⟨t, x, t', ht, hnext, rfl⟩ := go_cases hs
  obtain ⟨hattaching, htearing⟩ := next_tearing hnext
  obtain ⟨-, -, -, hinit, hdel⟩ := next_extension hnext
  refine ⟨hexcl, ?_, ?_, ?_⟩
  · -- who attaches the device owned the resource before, so nobody else detaches it
    have hold : ∀ j u, s.At j u → u.pc.attaching = true → x.resourceInitialized = true ∧
        x.deleted = false ∧ ∀ k v, State.At ⟨x, s.threads.set i t'⟩ k v → v.pc.tearing = false := by
      intro j u hu hpc
      obtain ⟨hx, hxdel, hothers⟩ := h.attaching j u hu hpc
      have hnot := hothers i t ht
      have hdetach : t.pc ≠ .detach := by
        intro hdet
        have hij := h.exclusive.unique ht hu (by rw [Request.holds, hdet]; rfl)
          (attaching_holds hpc)
        subst hij
        obtain rfl := Option.some.inj (ht.symm.trans hu)
        rw [hdet] at hpc
        cases hpc
      refine ⟨by grind, by grind, forall_set ht ?_ fun k v _ hv => hothers k v hv⟩
      grind
    exact forall_set ht (fun hpc => hold i t ht (hattaching hpc)) fun j u _ hu => hold j u hu
  · intro j u hu hpc
    by_contra hpos
    obtain ⟨-, -, hothers, hdetach⟩ := h.attached_go ht hnext (by simpa using hpos)
    have hnone : ∀ k v, State.At ⟨x, s.threads.set i t'⟩ k v → v.pc.tearing = false :=
      forall_set ht (by have := hothers i t ht; grind) fun k v _ hv => hothers k v hv
    simp [hnone j u hu] at hpc
  · intro hgone
    by_contra hpos
    obtain ⟨hx, hxdel, hothers, -⟩ := h.attached_go ht hnext (by simpa using hpos)
    have := hothers i t ht
    grind

theorem Inv.spawn (h : Inv s) (ht : (device stored node).spawns s.shared t) :
    Inv { s with threads := s.threads ++ [t] } := by
  obtain ⟨-, hpc, -, -⟩ := spawns_cases ht
  obtain ⟨hholds, -, -, hattaching, htearing, -, -⟩ := entry_pc hpc
  refine ⟨h.exclusive.spawn hholds, ?_, ?_, h.gone⟩
  · refine forall_append (fun j u hu hpc => ?_) fun hpc => by simp [hattaching] at hpc
    obtain ⟨hx, hxdel, hothers⟩ := h.attaching j u hu hpc
    exact ⟨hx, hxdel, forall_append hothers htearing⟩
  · exact forall_append h.tearing fun hpc => by simp [htearing] at hpc

/-- **In every run, whatever the macros do.** -/
theorem inv_of_reachable (h : (device stored node).system.Reachable s) : Inv s :=
  invariant h inv_init (fun _ _ hinv _ ht => hinv.spawn ht) fun _ _ _ _ hinv _ hs => hinv.go hs

end SFilter

end DocumentCode
