import DocumentCode.SFilter.Steps

/-!
# Detaching a filter device

`SFilterDetachTarget` is to wait until all requests that were sent on have come
back: “We will wait until all IRP-based I/O requests have been completed.” It looks
at the count under the resource, and where it is not zero it sleeps until a
completion routine sets the event.

As the macros stand the sum is dropped. The count is zero in every state, no
detacher ever sleeps (`DocumentCode.SFilter.outstanding_eq_zero`), and the device is
deleted under as many requests as there are: their completion routine will be
called with an extension that is no longer there
(`DocumentCode.SFilter.exists_deleted_under_requests`).

With macros that store their result the count is the number of the requests on
their way, modulo `2 ^ 64`, and a detacher is never left asleep with nobody on the
way to it (`DocumentCode.SFilter.Counted`). As long as there are fewer than `2 ^ 64`
of them, none goes through a device that is not attached
(`DocumentCode.SFilter.Clean`), so when the extension is gone no request is on the
count (`DocumentCode.SFilter.deleted_clean_iff`). That is all the count can promise. A
completion routine goes on using the extension after it has taken its request off,
and the detacher does not wait for it, whatever the macros do.
-/

namespace DocumentCode

namespace SFilter

open Threads

variable {stored : Bool} {node : NodeType} {c : Choice} {i j : ℕ} {x x' : Extension}
  {t t' : Request} {s s' : State Extension Request}

/-! ### With a count that counts -/

/-- What holds besides when the macros store their result. -/
structure Counted (s : State Extension Request) : Prop extends Inv s where
  /-- The count is the number of the requests that are on their way. -/
  count : s.shared.outstandingIoRequests = (inside Request.counted s : ℤ)
  /-- Where a detacher waits, the event is set or a thread is still to look at the
  count. -/
  wake : ∀ i t, s.At i t → t.pc.sleeping = true →
    s.shared.ioInProgressEvent = true ∨ ∃ j u, s.At j u ∧ u.pc.waking = true

theorem incrementing_holds {pc : PC} (h : pc.incrementing = true) : pc.holds = true := by
  cases pc <;> first | rfl | cases h

theorem counted_waking {pc : PC} (h : pc.counted = true) : pc.waking = true := by
  cases pc <;> first | rfl | cases h

theorem Inv.at_unique (h : Inv s) {u : Request} (ht : s.At i t) (hu : s.At j u)
    (htpc : t.pc.holds = true) (hupc : u.pc.holds = true) : i = j ∧ t = u := by
  have hij := h.exclusive.unique ht hu htpc hupc
  subst hij
  exact ⟨rfl, Option.some.inj (ht.symm.trans hu)⟩

theorem counted_init : Counted ⟨initDevExtension node, initialRequests node⟩ where
  toInv := inv_init
  count := by
    rw [inside_eq_zero.mpr fun i t ht => ?_]
    · rfl
    · obtain ⟨-, -, rfl⟩ := initial_cases ht
      rfl
  wake _ _ ht hpc := by
    obtain ⟨-, -, rfl⟩ := initial_cases ht
    cases hpc

/-- Another request is on its way where the count is not zero. -/
theorem Counted.exists_other (h : Counted s) (ht : s.At i t)
    (hcount : s.shared.outstandingIoRequests ≠ 0) (htc : t.counted = false) :
    ∃ j u, j ≠ i ∧ s.At j u ∧ u.counted = true := by
  have hinside : inside Request.counted s ≠ 0 := by
    intro hzero
    rw [h.count, hzero] at hcount
    exact hcount rfl
  obtain ⟨j, u, hu, huc⟩ := inside_ne_zero.mp hinside
  refine ⟨j, u, ?_, hu, huc⟩
  rintro rfl
  obtain rfl := Option.some.inj (ht.symm.trans hu)
  simp [htc] at huc

theorem Counted.go (h : Counted s) (hs : (device true node).go s i c = some s') :
    Counted s' := by
  have hinv := h.toInv.go hs
  obtain ⟨t, x, t', ht, hnext, rfl⟩ := go_cases hs
  have hsleeping := next_sleeping hnext
  obtain ⟨hevent, hwaking⟩ := next_event hnext
  -- the threads other than the one that moves are still there
  have hstay {j : ℕ} {u : Request} (hne : j ≠ i) (hu : s.At j u) :
      State.At ⟨x, s.threads.set i t'⟩ j u := by
    rw [State.At, getElem?_set_of_ne hne]
    exact hu
  refine { toInv := hinv, count := ?_, wake := ?_ }
  · exact counted Extension.outstandingIoRequests h.count ht (next_outstanding hnext)
  · have hself : ∀ {u : Request}, u = t' → u.pc.waking = true →
        ∃ j v, State.At ⟨x, s.threads.set i t'⟩ j v ∧ v.pc.waking = true := by
      rintro u rfl hu
      exact ⟨i, u, getElem?_set_self ht, hu⟩
    have hother (hcount : s.shared.outstandingIoRequests ≠ 0) (htc : t.counted = false) :
        ∃ j v, State.At ⟨x, s.threads.set i t'⟩ j v ∧ v.pc.waking = true := by
      obtain ⟨j, u, hne, hu, huc⟩ := h.exists_other ht hcount htc
      exact ⟨j, u, hstay hne hu, counted_waking huc⟩
    -- a detacher that was waiting before is not left alone
    have hwait {j : ℕ} {u : Request} (hu : s.At j u) (hpc : u.pc.sleeping = true) :
        x.ioInProgressEvent = true ∨
          ∃ j v, State.At ⟨x, s.threads.set i t'⟩ j v ∧ v.pc.waking = true := by
      rcases h.wake j u hu hpc with hset | ⟨k, v, hv, hwake⟩
      · exact (hevent hset).imp_right (hself rfl)
      · rcases eq_or_ne k i with rfl | hne
        · obtain rfl := Option.some.inj (ht.symm.trans hv)
          rcases hwaking hwake with hwake | hset | ⟨hcount, htc⟩
          · exact Or.inr (hself rfl hwake)
          · exact Or.inl hset
          · exact Or.inr (hother hcount htc)
        · exact Or.inr ⟨k, v, hstay hne hv, hwake⟩
    refine forall_set ht (fun hpc => ?_) fun j u _ hu hpc => hwait hu hpc
    rcases hsleeping hpc with hpc | ⟨hcount, htc⟩
    · exact hwait ht hpc
    · exact Or.inr (hother hcount htc)

theorem Counted.spawn (h : Counted s) (ht : (device true node).spawns s.shared t) :
    Counted { s with threads := s.threads ++ [t] } := by
  obtain ⟨-, hentry, -, -⟩ := spawns_cases ht
  obtain ⟨-, hcounted, -, -, -, -, hsleeping⟩ := entry_pc hentry
  refine { toInv := h.toInv.spawn ht, count := ?_, wake := ?_ }
  · rw [inside_append, h.count, weight, Request.counted, hcounted]
    simp
  · refine forall_append (fun j u hu hpc => ?_) fun hpc => by simp [hsleeping] at hpc
    rcases h.wake j u hu hpc with hset | ⟨k, v, hv, hwake⟩
    · exact Or.inl hset
    · refine Or.inr ⟨k, v, ?_, hwake⟩
      rw [State.At, List.getElem?_append_left (lt_length_of_getElem? hv)]
      exact hv

/-- **In every run with macros that store their result.** -/
theorem counted_of_reachable (h : (device true node).system.Reachable s) : Counted s :=
  invariant h counted_init (fun _ _ hinv _ ht => hinv.spawn ht) fun _ _ _ _ hinv _ hs => hinv.go hs

/-! ### As long as the count does not overflow -/

/-- Fewer requests are on their way than the count can tell apart. -/
def Few (s : State Extension Request) (_ : Event Request Choice) : Prop :=
  inside Request.counted s < (2 ^ 64 : ℕ)

theorem eq_zero_of_natCast {n : ℕ} (hn : n < 2 ^ 64) (h : (((n : ℤ)) : LargeInteger) = 0) :
    n = 0 := by
  rw [Int.cast_natCast, BitVec.natCast_eq_ofNat] at h
  have hmod : n % 2 ^ 64 = 0 := by simpa using congrArg BitVec.toNat h
  rwa [Nat.mod_eq_of_lt hn] at hmod

/-- **A count of zero means that no request is on its way.** -/
theorem Counted.none_of_zero (h : Counted s) (hfew : inside Request.counted s < (2 ^ 64 : ℕ))
    (hzero : s.shared.outstandingIoRequests = 0) :
    ∀ j u, s.At j u → u.counted = false := by
  have hcount := h.count
  rw [hzero] at hcount
  exact inside_eq_zero.mp (congrArg Nat.cast
    (eq_zero_of_natCast (Int.ofNat_lt.mp hfew) hcount.symm))

/-- What holds besides in such a run. -/
structure Clean (s : State Extension Request) : Prop extends Counted s where
  /-- A thread that is about to detach has seen that no request is on its way. -/
  zero : ∀ i t, s.At i t → t.pc = .detach → ∀ j u, s.At j u → u.counted = false
  /-- Through a device that is not attached there are none. -/
  clean : s.shared.attached = false →
    ∀ j u, s.At j u → u.counted = false ∧ u.pc.incrementing = false

theorem clean_init : Clean ⟨initDevExtension node, initialRequests node⟩ where
  toCounted := counted_init
  zero _ _ ht hpc := by
    obtain ⟨-, -, rfl⟩ := initial_cases ht
    cases hpc
  clean _ _ _ hu := by
    obtain ⟨-, -, rfl⟩ := initial_cases hu
    exact ⟨rfl, rfl⟩

theorem Clean.go (h : Clean s) (hfew : inside Request.counted s < (2 ^ 64 : ℕ))
    (hs : (device true node).go s i c = some s') : Clean s' := by
  have hcount := h.toCounted.go hs
  obtain ⟨t, x, t', ht, hnext, rfl⟩ := go_cases hs
  obtain ⟨hcounted, hincr, hdetach⟩ := next_counted hnext
  obtain ⟨-, hattached, -, -, -⟩ := next_extension hnext
  have hothers {P : Request → Prop} (hP : ∀ j u, s.At j u → P u) (ht' : P t') :
      ∀ j u, State.At ⟨x, s.threads.set i t'⟩ j u → P u :=
    forall_set ht ht' fun j u _ hu => hP j u hu
  refine { toCounted := hcount, zero := ?_, clean := ?_ }
  · refine forall_set ht (fun hpc => ?_) fun j u hne hu hpc => ?_
    · -- the thread has just seen a count of zero
      have hnone := h.none_of_zero hfew (hdetach hpc).1
      exact hothers hnone (by rw [Request.counted, hpc]; rfl)
    · -- it saw it before, and the increment is made under the resource it owns
      refine hothers (h.zero j u hu hpc) ?_
      by_contra hpos
      rcases hcounted (by simpa using hpos) with htc | hinc
      · simp [h.zero j u hu hpc i t ht] at htc
      · exact hne (h.at_unique ht hu (incrementing_holds hinc) (by rw [hpc]; rfl)).1.symm
  · intro hx
    have hnone : ∀ j u, s.At j u → u.counted = false ∧ u.pc.incrementing = false := by
      rcases hattached hx with hx | hpc
      · exact h.clean hx
      · refine fun j u hu => ⟨h.zero i t ht hpc j u hu, ?_⟩
        by_contra hpos
        obtain ⟨-, rfl⟩ := h.at_unique ht hu (by rw [hpc]; rfl)
          (incrementing_holds (by simpa using hpos))
        simp [hpc, PC.incrementing] at hpos
    refine hothers hnone ⟨?_, ?_⟩
    · by_contra hpos
      have := hnone i t ht
      grind
    · by_contra hpos
      obtain ⟨hatt, hne⟩ := hincr (by simpa using hpos)
      rcases hattached hx with hx | hpc
      · simp [hatt] at hx
      · exact hne hpc

theorem Clean.spawn (h : Clean s) (ht : (device true node).spawns s.shared t) :
    Clean { s with threads := s.threads ++ [t] } := by
  obtain ⟨-, hentry, -, -⟩ := spawns_cases ht
  obtain ⟨-, hcounted, hincr, -, -, hdetach, -⟩ := entry_pc hentry
  refine { toCounted := h.toCounted.spawn ht, zero := ?_, clean := ?_ }
  · exact forall_append (fun j u hu hpc => forall_append (h.zero j u hu hpc) hcounted)
      fun hpc => absurd hpc hdetach
  · exact fun hx => forall_append (h.clean hx) ⟨hcounted, hincr⟩

/-- **In every run with fewer than `2 ^ 64` requests on their way at a time.** -/
theorem clean_of_reachableVia (h : (device true node).system.ReachableVia Few s) : Clean s :=
  invariant h clean_init (fun _ _ hinv _ ht => hinv.spawn ht) fun _ _ _ _ hinv hfew hs =>
    hinv.go hfew hs

/-! ### A run -/

/-- Everything goes well. -/
def Choice.smooth : Choice := ⟨false, true, true, true⟩

/-- The extension of a device that is attached and has nothing to do. -/
def attachedExtension : Extension :=
  { initDevExtension .attachedDevice with
    attached := true, attachedFSD := true, deviceExtensionResource := none }

/-- A request that is with the target driver. -/
def Request.sent : Request := ⟨.target false, 0, none⟩

/-- The device after it has been attached and `k` requests have been sent through
it. -/
theorem reachable_sent (k : ℕ) : (device false .attachedDevice).system.Reachable
    ⟨attachedExtension, ⟨.returned, 0, none⟩ :: List.replicate k .sent⟩ := by
  induction k with
  | zero =>
    have h : (device false .attachedDevice).system.Reachable
        ⟨initDevExtension .attachedDevice, [] ++ [.entering .attach]⟩ := .init rfl
    exact reachable_alone h (.replicate 3 .smooth) rfl
  | succ k ih =>
    have h := reachable_spawn (l := .entering (.acquire .defaultDispatch)) ih ⟨rfl, rfl, rfl⟩
    rw [List.replicate_succ']
    exact reachable_alone h (.replicate 6 .smooth) rfl

/-- A request that waits for the resource. -/
def Request.waiting : Request := .entering (.acquire .defaultDispatch)

/-- And `m` more requests have come that wait for the resource. -/
theorem reachable_waiting (k m : ℕ) : (device false .attachedDevice).system.Reachable
    ⟨attachedExtension,
      (⟨.returned, 0, none⟩ :: List.replicate k .sent) ++ List.replicate m .waiting⟩ := by
  induction m with
  | zero =>
    rw [List.replicate_zero, List.append_nil]
    exact reachable_sent k
  | succ m ih =>
    rw [List.replicate_succ', ← List.append_assoc]
    exact reachable_spawn ih ⟨rfl, rfl, rfl⟩

/-- The extension when the device has been detached. -/
def deletedExtension : Extension :=
  { attachedExtension with
    nodeType := .zero, resourceInitialized := false, insertedGlobalList := false
    attached := false, attachedFSD := false, deleted := true }

/-- And the device has been detached. -/
theorem reachable_deleted (k m : ℕ) : (device false .attachedDevice).system.Reachable
    ⟨deletedExtension, ((⟨.returned, 0, none⟩ :: List.replicate k .sent) ++
      List.replicate m .waiting) ++ [⟨.returned, 0, none⟩]⟩ := by
  have h := reachable_spawn (l := .entering .detachAcquire) (reachable_waiting k m)
    ⟨rfl, rfl, rfl⟩
  exact reachable_alone h (.replicate 6 .smooth) rfl

/-! ### The code -/

/-- What holds besides as the macros stand. -/
structure Uncounted (s : State Extension Request) : Prop where
  count : s.shared.outstandingIoRequests = 0
  awake : ∀ i t, s.At i t → t.pc.sleeping = false

theorem Uncounted.go (h : Uncounted s) (hs : (device false node).go s i c = some s') :
    Uncounted s' := by
  obtain ⟨t, x, t', ht, hnext, rfl⟩ := go_cases hs
  have hsleeping := next_sleeping hnext
  refine ⟨(next_outstanding_eq hnext).trans h.count, ?_⟩
  refine forall_set ht ?_ fun j u _ hu => h.awake j u hu
  by_contra hpos
  rcases hsleeping (by simpa using hpos) with hpc | ⟨hcount, -⟩
  · simp [h.awake i t ht] at hpc
  · exact hcount h.count

theorem Uncounted.spawn (h : Uncounted s) (ht : (device false node).spawns s.shared t) :
    Uncounted { s with threads := s.threads ++ [t] } := by
  obtain ⟨-, hentry, -, -⟩ := spawns_cases ht
  obtain ⟨-, -, -, -, -, -, hsleeping⟩ := entry_pc hentry
  exact ⟨h.count, forall_append h.awake hsleeping⟩

theorem uncounted_init : Uncounted ⟨initDevExtension node, initialRequests node⟩ := by
  refine ⟨rfl, fun i t ht => ?_⟩
  obtain ⟨-, -, rfl⟩ := initial_cases ht
  rfl

theorem uncounted_of_reachable (h : (device false node).system.Reachable s) : Uncounted s :=
  invariant h uncounted_init (fun _ _ hinv _ ht => hinv.spawn ht) fun _ _ _ _ hinv _ hs =>
    hinv.go hs

/-- **The count is zero in every state of every run, and no detacher ever waits**:
the sums are computed and dropped. -/
theorem outstanding_eq_zero (h : (device false node).system.Reachable s) :
    s.shared.outstandingIoRequests = 0 ∧
      ∀ i t, s.At i t → t.pc ≠ .detachRelease ∧ t.pc ≠ .detachWait := by
  have huncounted := uncounted_of_reachable h
  refine ⟨huncounted.count, fun i t ht => ?_⟩
  have hawake := huncounted.awake i t ht
  refine ⟨fun hpc => ?_, fun hpc => ?_⟩ <;>
  · rw [hpc] at hawake
    cases hawake

/-- It is so with two requests on their way. -/
theorem outstanding_eq_zero_sent : attachedExtension.outstandingIoRequests = 0 ∧
    Request.sent.pc ≠ .detachRelease ∧ Request.sent.pc ≠ .detachWait := by
  have h := outstanding_eq_zero (reachable_sent 2)
  exact ⟨h.1, h.2 1 .sent rfl⟩

/-! ### The end of the device -/

/-- **The device is deleted under any number of requests**: for all `k` and `m` there is
a run that ends with the extension gone, `k` requests still with the target driver and
`m` more about to acquire its resource. -/
theorem exists_deleted_under_requests (k m : ℕ) :
    ∃ s, (device false .attachedDevice).system.Reachable s ∧ s.shared.deleted = true ∧
      s.threads.countP (fun t => t.pc = .target false) = k ∧
      s.threads.countP (fun t => t.pc = .acquire .defaultDispatch) = m := by
  refine ⟨_, reachable_deleted k m, rfl, ?_, ?_⟩ <;>
  simp [List.countP_append, List.countP_replicate, Request.sent, Request.waiting,
    Request.entering]

/-- A request whose completion routine has taken it off the count. -/
def Request.uncounted : Request := ⟨.isZero .defaultCompletion, 0, none⟩

/-- The extension is deleted under a completion routine that is about to look at the
count and to set the event. -/
theorem reachable_deleted_uncounted (stored : Bool) :
    (device stored .attachedDevice).system.Reachable
      ⟨deletedExtension, ([⟨.returned, 0, none⟩] ++ [.uncounted]) ++ [⟨.returned, 0, none⟩]⟩ := by
  have h : (device stored .attachedDevice).system.Reachable
      ⟨initDevExtension .attachedDevice, [] ++ [.entering .attach]⟩ := device_init _ _
  replace h := reachable_alone h (.replicate 3 .smooth) rfl
  replace h := reachable_spawn (l := .waiting) h ⟨rfl, rfl, rfl⟩
  replace h : (device stored .attachedDevice).system.Reachable
      ⟨attachedExtension, [⟨.returned, 0, none⟩] ++ [.uncounted]⟩ :=
    reachable_alone h (.replicate 9 .smooth) (by cases stored <;> rfl)
  replace h := reachable_spawn (l := .entering .detachAcquire) h ⟨rfl, rfl, rfl⟩
  exact reachable_alone h (.replicate 6 .smooth) (by cases stored <;> rfl)

/-- **A detach leaves no request on the count exactly where the macros store their
result**: the extension of an attached device is then never deleted while a request is
on its way. But whatever the macros do, it may be deleted under a completion routine
that has taken its request off the count and goes on to use the extension. -/
theorem deleted_clean_iff :
    ((∀ s, (device stored .attachedDevice).system.ReachableVia Few s → s.shared.deleted = true →
      ∀ i t, s.At i t → t.pc.counted = false) ↔ stored = true) ∧
    ∃ s, (device stored .attachedDevice).system.ReachableVia Few s ∧ s.shared.deleted = true ∧
      ∃ i t, s.At i t ∧ t.pc = .isZero .defaultCompletion := by
  refine ⟨⟨fun h => ?_, ?_⟩, ?_⟩
  · by_contra hstored
    obtain rfl : stored = false := by simpa using hstored
    have := h _ (reachableVia_inside_lt (reachable_deleted 1 0) (by decide)) rfl 1 .sent rfl
    cases this
  · rintro rfl s hs hdeleted i t ht
    have hclean := clean_of_reachableVia hs
    exact (hclean.clean (hclean.gone (Or.inr hdeleted)) i t ht).1
  · exact ⟨_, reachableVia_inside_lt (reachable_deleted_uncounted stored) (by decide), rfl, 1, _,
      rfl, rfl⟩

end SFilter

end DocumentCode
