import DocumentCode.SFilter.Detach

/-!
# What becomes of a request

What a caller of a filtered device relies on, in every run, and whether or not the
macros store their result.

* The resource is owned by the thread that is between acquiring it and giving it
  back, and by no other (`DocumentCode.SFilter.owner_iff`).
* A request is completed once. The filter driver completes it, or the I/O manager
  does when the completion routine returns, or `SFilterMountAttach` does; never two
  of them (`DocumentCode.SFilter.completions_eq`).
* What the driver allocates for a mount it frees, and what it counts it takes off the
  count, however often a completion routine was called with another device object
  before (`DocumentCode.SFilter.nothing_lost`).
* While the extension is there the driver does not get stuck
  (`DocumentCode.SFilter.exists_go`): who owns the resource can go on to give it back,
  and where a detacher sleeps, the event is set or another thread can go on. That does
  not mean that the detacher gets its turn: as long as requests keep coming the event
  may be cleared again before it does.
-/

namespace DocumentCode

namespace SFilter

open Threads

variable {stored : Bool} {node : NodeType} {c : Choice} {i j : ℕ} {x x' : Extension}
  {t t' : Request} {s s' : State Extension Request}

/-! ### The resource -/

/-- **The resource of the extension is owned by the thread that is in its scope**,
through every routine and on the way out of it. -/
theorem owner_iff (h : (device stored node).system.Reachable s) (ht : s.At i t) :
    t.pc.holds = true ↔ s.shared.deviceExtensionResource = some i :=
  (inv_of_reachable h).exclusive.1 i t ht

/-- A request that has the resource. -/
def Request.owning : Request := ⟨.test .defaultDispatch, 0, none⟩

/-- One request has the resource, and another one waits for it. -/
theorem reachable_contended : (device false .attachedDevice).system.Reachable
    ⟨{ attachedExtension with deviceExtensionResource := some 1 },
      ([⟨.returned, 0, none⟩] ++ [.owning]) ++ [.waiting]⟩ := by
  have h := reachable_spawn (l := .waiting) (reachable_sent 0) ⟨rfl, rfl, rfl⟩
  replace h : (device false .attachedDevice).system.Reachable
      ⟨{ attachedExtension with deviceExtensionResource := some 1 },
        [⟨.returned, 0, none⟩] ++ [.owning]⟩ := reachable_alone h (.replicate 1 .smooth) rfl
  exact reachable_spawn h ⟨rfl, rfl, rfl⟩

theorem owner_iff_contended :
    (Request.owning.pc.holds = true ↔ some 1 = some 1) ∧
      (Request.waiting.pc.holds = true ↔ some 1 = some 2) :=
  ⟨owner_iff reachable_contended (i := 1) rfl, owner_iff reachable_contended (i := 2) rfl⟩

/-! ### Completion -/

/-- **A step completes a request exactly when it brings it to its end**, and there is
no step from there. -/
theorem next_completions (h : next stored c i x t = some (x', t')) :
    t.pc ≠ .finished ∧
      t'.completions = t.completions + if t'.pc = .finished then 1 else 0 := by
  obtain ⟨pc, n, st⟩ := t
  obtain ⟨-, h⟩ := next_eq h
  cases pc <;> simp only [move, Request.goto] at h
  case test r _ =>
    have := dispatch_snd x c r
    grind
  all_goals
    grind [completion]

/-- **A request is completed once**: not before it has come to its end, and not again. -/
theorem completions_eq (h : (device stored node).system.Reachable s) :
    ∀ i t, s.At i t → t.completions = if t.pc = .finished then 1 else 0 := by
  refine invariant
    (I := fun s => ∀ i t, s.At i t → t.completions = if t.pc = .finished then 1 else 0)
    h (fun i t ht => ?_) (fun s t hinv _ ht => ?_) fun s i c s' hinv _ hs => ?_
  · obtain ⟨-, -, rfl⟩ := initial_cases ht
    rfl
  · obtain ⟨-, hentry, hzero, -⟩ := spawns_cases ht
    refine forall_append hinv (hzero.trans ?_)
    generalize t.pc = pc at hentry
    cases pc <;> first | rfl | cases hentry
  · obtain ⟨t, x, t', ht, hnext, rfl⟩ := go_cases hs
    obtain ⟨hended, hcompl⟩ := next_completions hnext
    refine forall_set ht ?_ fun j u _ hu => hinv j u hu
    rw [hcompl, hinv i t ht, if_neg hended, Nat.zero_add]

/-- The completion routine is called for a driver below that has copied the stack location. -/
def Choice.stray : Choice := { Choice.smooth with sameDevice := false }

/-- One request, from `SFilterDefaultDispatch` to the end. Its completion routine is
called with another device object first. -/
theorem reachable_finished : (device false .attachedDevice).system.Reachable
    ⟨{ attachedExtension with ioInProgressEvent := true },
      [⟨.returned, 0, none⟩] ++ [⟨.finished, 1, none⟩]⟩ := by
  have h := reachable_spawn (l := .waiting) (reachable_sent 0) ⟨rfl, rfl, rfl⟩
  exact reachable_alone h (.replicate 7 .smooth ++ .stray :: .replicate 5 .smooth) rfl

theorem completions_eq_finished :
    (⟨.finished, 1, none⟩ : Request).completions = if PC.finished = .finished then 1 else 0 :=
  completions_eq reachable_finished 1 _ rfl

/-! ### What is allocated and counted -/

/-- The request has the context of a mount. -/
def PC.context : PC → Bool
  | increment mount | clearEvent mount | release mount | callDriver mount | target mount
  | completion mount => mount
  | decrement a | isZero a | setEvent a _ | finish a => a ≠ .defaultCompletion
  | workItem => true
  | _ => false

def Request.context (t : Request) : Bool := t.pc.context

/-- The number of contexts changes as the request gets one and gives it up. -/
theorem next_mountCompletions (h : next stored c i x t = some (x', t')) :
    x'.mountCompletions = x.mountCompletions - weight Request.context t +
      weight Request.context t' := by
  obtain ⟨pc, n, st⟩ := t
  obtain ⟨-, h⟩ := next_eq h
  simp only [weight, Request.context]
  cases pc <;> simp only [move, Request.goto] at h
  case test =>
    grind [PC.context, dispatch_fst, dispatch_snd]
  all_goals
    grind [PC.context, completion, cases CountedBy, finish]

/-- The contexts that are allocated are those the requests have. -/
theorem mountCompletions_eq (h : (device stored node).system.Reachable s) :
    s.shared.mountCompletions = inside Request.context s := by
  refine invariant (I := fun s => s.shared.mountCompletions = inside Request.context s) h ?_
    (fun s t hinv _ ht => ?_) fun s i c s' hinv _ hs => ?_
  · symm
    refine inside_eq_zero.mpr fun i t ht => ?_
    obtain ⟨-, -, rfl⟩ := initial_cases ht
    rfl
  · obtain ⟨-, hentry, -, -⟩ := spawns_cases ht
    have hcontext : t.context = false := by
      rw [Request.context]
      generalize t.pc = pc at hentry
      cases pc <;> first | rfl | cases hentry
    rw [inside_append, hinv, weight, hcontext]
    simp
  · obtain ⟨t, x, t', ht, hnext, rfl⟩ := go_cases hs
    have hcount := counted (p := Request.context) Extension.mountCompletions
      (by rw [hinv, Int.cast_id]) ht (by simpa only [Int.cast_id] using next_mountCompletions hnext)
    rwa [Int.cast_id] at hcount

/-- The thread will not take another step. -/
def PC.resting : PC → Bool
  | finished | returned => true
  | _ => false

/-- **Nothing is lost.** When nothing is left to do no context of a mount is allocated,
and the count is zero, if the macros store their result. -/
theorem nothing_lost (h : (device stored node).system.Reachable s)
    (hrest : ∀ i t, s.At i t → t.pc.resting = true) :
    s.shared.mountCompletions = 0 ∧
      (stored = true → s.shared.outstandingIoRequests = 0) := by
  refine ⟨?_, ?_⟩
  · rw [mountCompletions_eq h, inside_eq_zero]
    intro i t ht
    have := hrest i t ht
    rw [Request.context]
    generalize t.pc = pc at this
    cases pc <;> first | rfl | cases this
  · rintro rfl
    rw [(counted_of_reachable h).count, inside_eq_zero.mpr fun i t ht => ?_, Int.cast_zero]
    have := hrest i t ht
    rw [Request.counted]
    generalize t.pc = pc at this
    cases pc <;> first | rfl | cases this

/-- The mount of a volume, the completion routine being called with another device
object twice before it is called with that of the extension. -/
theorem reachable_mounted : (device true .attachedDevice).system.Reachable
    ⟨{ attachedExtension with ioInProgressEvent := true },
      [⟨.returned, 0, none⟩] ++ [⟨.finished, 1, none⟩]⟩ := by
  have h : (device true .attachedDevice).system.Reachable
      ⟨initDevExtension .attachedDevice, [] ++ [.entering .attach]⟩ := device_init _ _
  replace h := reachable_alone h (.replicate 3 .smooth) rfl
  replace h := reachable_spawn (l := .entering (.acquire (.fsControl true))) h ⟨rfl, rfl, rfl⟩
  exact reachable_alone h (.replicate 7 .smooth ++ .stray :: .stray :: .replicate 6 .smooth) rfl

theorem nothing_lost_mounted : attachedExtension.mountCompletions = 0 ∧
    (true = true → attachedExtension.outstandingIoRequests = 0) := by
  refine nothing_lost reachable_mounted fun i t ht => ?_
  have ht := List.mem_of_getElem? ht
  simp only [List.mem_append, List.mem_singleton] at ht
  rcases ht with rfl | rfl <;> rfl

/-! ### Progress -/

/-- Where a thread may have to wait. -/
def PC.waits : PC → Bool
  | acquire _ | detachAcquire | detachWait => true
  | _ => false

/-- **A thread that does not wait, and has not come to rest, takes a step.** -/
theorem next_isSome (hx : x.deleted = false) (hwaits : t.pc.waits = false)
    (hrest : t.pc.resting = false) : (next stored c i x t).isSome = true := by
  obtain ⟨pc, n, st⟩ := t
  rw [next, hx]
  cases pc <;> first | rfl | simp [PC.waits, PC.resting] at hwaits hrest

theorem holds_moves {pc : PC} (h : pc.holds = true) :
    pc.waits = false ∧ pc.resting = false := by
  cases pc <;> first | exact ⟨rfl, rfl⟩ | cases h

theorem waking_moves {pc : PC} (h : pc.waking = true) :
    pc.waits = false ∧ pc.resting = false := by
  cases pc <;> first | exact ⟨rfl, rfl⟩ | cases h

/-- Where a thread can take a step, the threads can, and it gets that thread somewhere unless
it is a completion routine that is called with another device object. -/
theorem exists_go_of_next (ht : s.At i t) (h : (next stored c i s.shared t).isSome = true) :
    ∃ s' t', (device stored node).go s i c = some s' ∧ s'.At i t' ∧
      (c.sameDevice = true → t'.pc ≠ t.pc) := by
  obtain ⟨⟨x, t'⟩, hnext⟩ := Option.isSome_iff_exists.mp h
  refine ⟨⟨x, s.threads.set i t'⟩, t', ?_, getElem?_set_self ht,
    fun hsame => next_pc_ne hsame hnext⟩
  simp only [Threads.go, ht, Option.bind_eq_bind, Option.bind_some]
  rw [show (device stored node).next c i s.shared t = some (x, t') from hnext]
  rfl

/-- **No deadlock.** As long as the extension is there and not all threads have come to
rest, there is one that can take a step, whatever is chosen for it, and the step takes
it further unless it is a completion routine that is called with another device
object. -/
theorem exists_go (h : (device stored node).system.Reachable s)
    (hinit : s.shared.resourceInitialized = true) (hdel : s.shared.deleted = false)
    (hrest : ∃ i t, s.At i t ∧ t.pc.resting = false) :
    ∃ i t, s.At i t ∧ ∀ c, ∃ s' t', (device stored node).go s i c = some s' ∧ s'.At i t' ∧
      (c.sameDevice = true → t'.pc ≠ t.pc) := by
  have hinv := inv_of_reachable h
  -- a thread that does not wait will do
  suffices ∃ i t, s.At i t ∧ (t.pc.waits = false ∧ t.pc.resting = false ∨
      ∀ c, (next stored c i s.shared t).isSome = true) by
    obtain ⟨i, t, ht, hmoves⟩ := this
    refine ⟨i, t, ht, fun c => exists_go_of_next ht ?_⟩
    rcases hmoves with ⟨hwaits, hr⟩ | hmoves
    · exact next_isSome hdel hwaits hr
    · exact hmoves c
  cases howner : s.shared.deviceExtensionResource with
  | some j =>
    -- whoever owns the resource goes on
    obtain ⟨u, hu⟩ : ∃ u, s.At j u :=
      ⟨_, List.getElem?_eq_getElem (hinv.exclusive.2 j howner)⟩
    have hholds := (hinv.exclusive.1 j u hu).mpr howner
    exact ⟨j, u, hu, Or.inl (holds_moves hholds)⟩
  | none =>
    obtain ⟨i, t, ht, hr⟩ := hrest
    obtain ⟨pc, n, st⟩ := t
    cases hwaits : pc.waits with
    | false => exact ⟨i, _, ht, Or.inl ⟨hwaits, hr⟩⟩
    | true =>
      cases pc with
      | acquire r => exact ⟨i, _, ht, Or.inr fun c => by simp [next, move, hdel, howner, hinit]⟩
      | detachAcquire =>
        exact ⟨i, _, ht, Or.inr fun c => by simp [next, move, hdel, howner, hinit]⟩
      | detachWait =>
        cases stored with
        | false => exact absurd rfl ((outstanding_eq_zero h).2 i _ ht).2
        | true =>
          rcases (counted_of_reachable h).wake i _ ht rfl with hset | ⟨j, u, hu, hwake⟩
          · exact ⟨i, _, ht, Or.inr fun c => by simp [next, move, hdel, hset]⟩
          · exact ⟨j, u, hu, Or.inl (waking_moves hwake)⟩
      | _ => cases hwaits

/-- A device with one request on its way. -/
def sending : State Extension Request := ⟨attachedExtension, [⟨.returned, 0, none⟩, .sent]⟩

theorem exists_go_sending : ∃ i t, sending.At i t ∧ ∀ c, ∃ s' t',
    (device false .attachedDevice).go sending i c = some s' ∧ s'.At i t' ∧
      (c.sameDevice = true → t'.pc ≠ t.pc) :=
  exists_go (s := sending) (reachable_sent 1) rfl rfl ⟨1, .sent, rfl, rfl⟩

end SFilter

end DocumentCode
