import DocumentCode.Sfsd.Dispatch
import DocumentCode.Transition

/-!
# The life of a request

One request as a transition system: it is sent to the driver, worker threads take it from
the work queue, and the driver below, the notification package and the cache manager have
their turns with it. Every pass brings its own thread and its own answers of the kernel,
so a statement about all runs is one about all of these.

`DocumentCode.Sfsd.standing_of_reachable` says where a request can be, in any state of any
run: what each step preserves is one case of it for each place, and every later result about
runs is read off it. A request that has not been sent is `DocumentCode.Sfsd.Fresh`; for runs
on fixed inputs there is a `DocumentCode.Sfsd.plain` request, and a kernel
`DocumentCode.Sfsd.idle` that refuses nothing.
-/

namespace DocumentCode

namespace Sfsd

open Seh

/-! ### The system -/

/-- A request and how far it has come. -/
structure Flow where
  world : World
  /-- How many threads have been at it. -/
  passes : ℕ
  deriving DecidableEq, Repr

/-- What happens next. -/
inductive Event
  /-- The I/O manager calls the dispatch routine. -/
  | send (k : Kernel) (t : Thread)
  /-- A worker thread calls `SFsdCommonDispatch`. -/
  | work (k : Kernel) (t : Thread)
  /-- The driver below completes the request. -/
  | lower (s : IoStatusBlock) (pendingReturned : Bool)
  /-- The notification package completes it. -/
  | report
  /-- The cache manager calls `SFsdDeferredWriteCallBack`. -/
  | callBack

/-- `SFsdFlushCompletion` and `SFsdDevIoctlCompletion`, of which only the first looks at the
status. -/
def completion (q : Request) (pendingReturned : Bool) : Code Unit := do
  when pendingReturned ioMarkIrpPending
  when (q.majorFunction = .flushBuffers &&
      (← get).ioStatus.1 = STATUS_INVALID_DEVICE_REQUEST) do
    setIoStatus STATUS_SUCCESS (← get).ioStatus.2

/-- `SFsdDeferredWriteCallBack(Context1, Context2)` -/
def deferredWriteCallBack : Code Unit := pure ()

/-- The holder has the request, and the books are in order. -/
def World.isWith (w : World) (h : Holder) : Bool :=
  w.halted = none && w.ledger.any fun ℓ => ℓ.holder = some h

/-- The life of one request. -/
def requests (q : Request) : System Flow Event where
  Init s := Fresh q s.world ∧ s.passes = 0
  step s
    | .send k t =>
      if s.passes = 0 then some ⟨(dispatch q k (s.world, t)).2.1, 1⟩ else none
    | .work k t =>
      if s.world.isWith .workQueue then
        some ⟨(commonDispatch q k (s.world.enter (.take .workQueue), t)).2.1, s.passes + 1⟩
      else none
    | .lower b pendingReturned =>
      if s.world.isWith .lowerDriver then
        some { s with world := ((do
          act (.take .lowerDriver)
          setIoStatus b.status b.information
          completion q pendingReturned
          ioCompleteRequest : Code Unit) s.world).2 }
      else none
    | .report =>
      if s.world.isWith .notifyList then
        some { s with world := ((do
          act (.take .notifyList)
          ioCompleteRequest : Code Unit) s.world).2 }
      else none
    | .callBack =>
      if s.world.isWith .cacheManager then
        some { s with world := ((do
          act (.take .cacheManager)
          deferredWriteCallBack : Code Unit) s.world).2 }
      else none

/-- A kernel that has everything to spare and nothing to object. -/
@[simps] def idle : Kernel where
  zone := true
  ccbZone := true
  pool := true
  free _ := true
  mdl := true
  probe := .ok ()
  recursiveIoFault := false
  flushCache := ⟨STATUS_SUCCESS, 0, by decide⟩
  initializeCacheMap := .ok ()
  mdlTransfer := .ok ⟨STATUS_SUCCESS, 0, by decide⟩
  copy := .ok ⟨STATUS_SUCCESS, 0, by decide⟩
  inCache := true
  canWrite := true
  notify := .ok ()
  canTruncate := true
  setFileSizes := .ok ()
  stack := 0
  callDriver := STATUS_SUCCESS

/-- A name of nothing. -/
def UnicodeString.empty : UnicodeString := ⟨0, by decide, []⟩

/-- A request with nothing special about it: for an ordinary file, by a caller who waits, and
of the volume itself where it is an open. -/
def plain (majorFunction : MajorFunction) : Request where
  majorFunction
  minorFunction := 0
  create := ⟨false, 0, 0, false, false, .empty, none, false⟩
  synchronous := true
  pagingIo := false
  noCache := false
  synchronousIo := false
  byteOffset := 0
  length := 1
  fileInformationClass := .position
  basicInformation := ⟨0, 0, 0, 0⟩
  position := 0
  allocationSize := 0
  noIntermediateBuffering := false
  alignmentRequirement := 0
  nodeType := .fcb
  fcbFlags := 0
  times := (0, 0, 0)
  dataSectionObject := false
  imageSectionObject := false

/-- A thread of the system. -/
def Thread.start : Thread := ⟨0, .null⟩

/-- A world in which nothing has happened, with a file of some size that has been opened,
unless the request is to open it. -/
def World.start (q : Request) (fileSize : ℤ) : World where
  ioStatus := (STATUS_SUCCESS, 0)
  mdlAddress := false
  pending := false
  context := ⟨false, false, false, false, false, STATUS_SUCCESS⟩
  currentByteOffset := 0
  privateCacheMap := false
  temporaryFile := false
  writeThrough := false
  fsContext := q.majorFunction ≠ .create
  ccbFlags := 0
  openCount := 0
  sizes := ⟨fileSize, fileSize, fileSize⟩
  basicReply := none
  positionReply := none
  cacheLength := 0
  acts := []
  halted := none

theorem World.fsContext_start {q : Request} (hq : q.majorFunction ≠ .create) (fileSize : ℤ) :
    (World.start q fileSize).fsContext = true :=
  decide_eq_true hq

theorem World.fresh_start (q : Request) (fileSize : ℤ) : Fresh q (World.start q fileSize) :=
  ⟨rfl, rfl, rfl, fun hq => decide_eq_false (not_not_intro hq)⟩

/-- A request that is about to be sent. -/
def Flow.start (q : Request) (fileSize : ℤ) : Flow := ⟨World.start q fileSize, 0⟩

theorem Flow.reachable_start (q : Request) (fileSize : ℤ) :
    (requests q).Reachable (Flow.start q fileSize) :=
  .init ⟨World.fresh_start q fileSize, rfl⟩

/-! ### Where a request can be -/

/-- **Where a request can be** in a run. -/
inductive Standing (q : Request) (s : Flow) : Prop
  /-- It has not been sent. -/
  | fresh (fresh : Fresh q s.world) (passes : s.passes = 0)
  /-- With a thread that does not come back. -/
  | stopped (wait : Bool) (stopped : Stopped q wait s.world) (passes :
      wait = q.synchronous ∧ s.passes = 1 ∨
        wait = true ∧ (q.majorFunction = .create ∨ q.majorFunction = .read) ∧
          (q.synchronous = false ∨ q.postsAgain) ∧ (s.passes = 2 ∨ q.postsAgain ∧ 2 < s.passes))
  /-- Where its first pass has put it. -/
  | sent (RC : NTSTATUS) (settled : Settled q q.synchronous RC s.world)
      (halted : s.world.halted = none) (passes : s.passes = 1)
  /-- Where a later pass has put it. -/
  | worked (worked : Worked q s.world) (halted : s.world.halted = none)
      (passes : s.passes = 2 ∨ q.postsAgain ∧ 2 < s.passes)
  /-- Completed by the driver below or the notification package. -/
  | relayed (ledger : s.world.ledger = some ⟨some .ioManager, false, []⟩)
      (relays : q.majorFunction = .flushBuffers ∨ q.majorFunction = .deviceControl ∨
        q.majorFunction = .directoryControl) (halted : s.world.halted = none)
      (passes : s.passes = 1)
  /-- Back from the cache manager. -/
  | calledBack (ledger : s.world.ledger = some ⟨none, true, []⟩)
      (defers : q.majorFunction = .write ∧ q.writeDefers q.synchronous)
      (halted : s.world.halted = none) (passes : s.passes = 1)

variable {q : Request} {s s' : Flow} {w : World} {h : Holder}

theorem World.isWith_iff :
    w.isWith h = true ↔ w.halted = none ∧ ∃ ℓ, w.ledger = some ℓ ∧ ℓ.holder = some h := by
  rw [World.isWith, Bool.and_eq_true, decide_eq_true_eq, Option.any_eq_true]
  simp only [decide_eq_true_eq]

/-- A holder other than the I/O manager has the request only where a pass has put it. -/
theorem Standing.settled (hs : Standing q s) (hw : s.world.isWith h = true) (hne : h ≠ .ioManager) :
    ∃ wait RC, Settled q wait RC s.world ∧
      (wait = q.synchronous ∧ s.passes = 1 ∨
        wait = true ∧ (q.majorFunction = .create ∨ q.majorFunction = .read) ∧
          (s.passes = 2 ∨ q.postsAgain ∧ 2 < s.passes)) := by
  obtain ⟨hh, ℓ, hl, hholder⟩ := World.isWith_iff.mp hw
  cases hs with
  | fresh hf =>
    obtain rfl := Option.some.inj (hf.ledger.symm.trans hl)
    cases hholder
  | stopped wait hf => exact absurd hh hf.halted
  | sent RC hsettled hh hpasses => exact ⟨_, RC, hsettled, Or.inl ⟨rfl, hpasses⟩⟩
  | worked hworked hh hpasses =>
    cases hworked with
    | settled RC hknows hsettled => exact ⟨true, RC, hsettled, Or.inr ⟨rfl, hknows, hpasses⟩⟩
    | rejected hcreate hread hl' hio =>
      obtain rfl := Option.some.inj (hl'.symm.trans hl)
      exact absurd (Option.some.inj hholder).symm hne
  | relayed hl' =>
    obtain rfl := Option.some.inj (hl'.symm.trans hl)
    exact absurd (Option.some.inj hholder).symm hne
  | calledBack hl' =>
    obtain rfl := Option.some.inj (hl'.symm.trans hl)
    cases hholder

/-- What is known of a request that is with a certain holder. -/
theorem Settled.of_isWith {wait : Bool} {RC : NTSTATUS} (hs : Settled q wait RC w)
    (hw : w.isWith h = true) :
    match h with
    | .ioManager => True
    | .workQueue => w.ledger = some ⟨some .workQueue, true, []⟩ ∧ (wait = false ∨ q.postsAgain) ∧
        (q.majorFunction = .read ∨ q.majorFunction = .create → w.context.exception = false) ∧
        (q.majorFunction = .create → q.create.ownDevice = false ∧ w.fsContext = false)
    | .lowerDriver => w.ledger = some ⟨some .lowerDriver, false, []⟩ ∧
        (q.majorFunction = .flushBuffers ∨ q.majorFunction = .deviceControl)
    | .notifyList => w.ledger = some ⟨some .notifyList, false, []⟩ ∧
        q.majorFunction = .directoryControl
    | .cacheManager => w.ledger = some ⟨some .cacheManager, true, []⟩ ∧
        q.majorFunction = .write ∧ q.writeDefers wait := by
  obtain ⟨-, ℓ, hl, hholder⟩ := World.isWith_iff.mp hw
  cases hs with
  | completed hl' =>
    obtain rfl := Option.some.inj (hl'.symm.trans hl)
    obtain rfl := Option.some.inj hholder
    trivial
  | posted hl' _ _ hposts he hf =>
    obtain rfl := Option.some.inj (hl'.symm.trans hl)
    obtain rfl := Option.some.inj hholder
    exact ⟨hl', hposts, he, hf⟩
  | forwarded hl' hq =>
    obtain rfl := Option.some.inj (hl'.symm.trans hl)
    obtain rfl := Option.some.inj hholder
    exact ⟨hl', hq⟩
  | noted hl' hq =>
    obtain rfl := Option.some.inj (hl'.symm.trans hl)
    obtain rfl := Option.some.inj hholder
    exact ⟨hl', hq⟩
  | deferred hl' hq =>
    obtain rfl := Option.some.inj (hl'.symm.trans hl)
    obtain rfl := Option.some.inj hholder
    exact ⟨hl', hq⟩
  | lost held hl' =>
    obtain rfl := Option.some.inj (hl'.symm.trans hl)
    cases hholder
  | broken hl' => cases hl'.symm.trans hl

theorem send_standing (hf : Fresh q s.world) (k : Kernel) (t : Thread) :
    Standing q ⟨(dispatch q k (s.world, t)).2.1, 1⟩ := by
  have hspec := (dispatch_spec (k := k) (t := t) hf).1
  rcases hrun : dispatch q k (s.world, t) with ⟨RC | _ | _ | _, p⟩ <;> rw [hrun] at hspec
  · exact .sent RC hspec.2 hspec.1 rfl
  · exact hspec.elim
  · exact hspec.elim
  · exact .stopped _ hspec (Or.inl ⟨rfl, rfl⟩)

theorem work_standing {n : ℕ} (hw : Taken q w) (k : Kernel) (t : Thread)
    (hposts : q.synchronous = false ∨ q.postsAgain) (hn : n = 2 ∨ q.postsAgain ∧ 2 < n) :
    Standing q ⟨(commonDispatch q k (w, t)).2.1, n⟩ := by
  have hspec := commonDispatch_spec (k := k) (t := t) hw fun w' => dispatchCommon_spec
  rcases hrun : commonDispatch q k (w, t) with ⟨_ | _ | _ | _, p⟩ <;> rw [wp, hrun] at hspec
  · obtain ⟨⟨RC, hh, hworked⟩, -⟩ := hspec
    exact .worked hworked hh hn
  · exact hspec.elim
  · exact hspec.elim
  · exact .stopped true hspec.1 (Or.inr ⟨rfl, hspec.2, hposts, hn⟩)

theorem lower_standing (hl : w.ledger = some ⟨some .lowerDriver, false, []⟩)
    (hh : w.halted = none) (b : IoStatusBlock) (pendingReturned : Bool) :
    (do
      act (.take .lowerDriver)
      setIoStatus b.status b.information
      completion q pendingReturned
      ioCompleteRequest : Code Unit).wp (fun _ w' =>
        w'.ledger = some ⟨some .ioManager, false, []⟩ ∧ w'.halted = none) w := by
  simp [completion, setIoStatus, ioMarkIrpPending, ioCompleteRequest, hl, hh, Custody.Holders.final]

/-- **One step.** -/
theorem Standing.step {e : Event} (hs : Standing q s) (hstep : (requests q).step s e = some s') :
    Standing q s' := by
  cases e with
  | send k t =>
    obtain ⟨hpasses, hstep⟩ := Option.ite_none_right_eq_some.mp hstep
    obtain rfl := Option.some.inj hstep
    cases hs with
    | fresh hf => exact send_standing hf k t
    | stopped _ _ h => omega
    | sent _ _ _ h => omega
    | worked _ _ h => omega
    | relayed _ _ _ h => omega
    | calledBack _ _ _ h => omega
  | work k t =>
    obtain ⟨hw, hstep⟩ := Option.ite_none_right_eq_some.mp hstep
    obtain rfl := Option.some.inj hstep
    obtain ⟨wait, RC, hsettled, hpasses⟩ := hs.settled hw (by decide)
    obtain ⟨hl, hposts, he, hf⟩ := hsettled.of_isWith hw
    have htaken : Taken q (s.world.enter (.take .workQueue)) :=
      ⟨by simp [hl, Custody.Holders.final], (World.isWith_iff.mp hw).1, he, hf⟩
    rcases hpasses with ⟨rfl, hpasses⟩ | ⟨rfl, -, hpasses⟩
    · exact work_standing htaken k t hposts (Or.inl (by rw [hpasses]))
    · have hagain : q.postsAgain := hposts.resolve_left (by decide)
      exact work_standing htaken k t (Or.inr hagain) (Or.inr ⟨hagain, by omega⟩)
  | lower b pendingReturned =>
    obtain ⟨hw, hstep⟩ := Option.ite_none_right_eq_some.mp hstep
    obtain rfl := Option.some.inj hstep
    obtain ⟨wait, RC, hsettled, hpasses⟩ := hs.settled hw (by decide)
    obtain ⟨hl, hq⟩ := hsettled.of_isWith hw
    obtain ⟨hl', hh'⟩ := lower_standing (q := q) hl (World.isWith_iff.mp hw).1 b pendingReturned
    refine .relayed hl' (hq.imp_right Or.inl) hh' ?_
    rcases hpasses with ⟨-, hpasses⟩ | ⟨-, hknows, -⟩
    · exact hpasses
    · rcases hq with hq | hq <;> simp [hq] at hknows
  | report =>
    obtain ⟨hw, hstep⟩ := Option.ite_none_right_eq_some.mp hstep
    obtain rfl := Option.some.inj hstep
    obtain ⟨wait, RC, hsettled, hpasses⟩ := hs.settled hw (by decide)
    obtain ⟨hl, hq⟩ := hsettled.of_isWith hw
    refine .relayed ?_ (Or.inr (Or.inr hq)) (World.isWith_iff.mp hw).1 ?_
    · change ((s.world.enter (.take .notifyList)).enter (.give .ioManager)).ledger = _
      simp [hl, Custody.Holders.final]
    · rcases hpasses with ⟨-, hpasses⟩ | ⟨-, hknows, -⟩
      · exact hpasses
      · simp [hq] at hknows
  | callBack =>
    obtain ⟨hw, hstep⟩ := Option.ite_none_right_eq_some.mp hstep
    obtain rfl := Option.some.inj hstep
    obtain ⟨wait, RC, hsettled, hpasses⟩ := hs.settled hw (by decide)
    obtain ⟨hl, hq, hdefers⟩ := hsettled.of_isWith hw
    rcases hpasses with ⟨rfl, hpasses⟩ | ⟨-, hknows, -⟩
    · refine .calledBack ?_ ⟨hq, hdefers⟩ (World.isWith_iff.mp hw).1 hpasses
      change (s.world.enter (.take .cacheManager)).ledger = _
      simp [hl, Custody.Holders.final]
    · simp [hq] at hknows

/-- **Where a request is in any state of any run.** -/
theorem standing_of_reachable (h : (requests q).Reachable s) : Standing q s :=
  h.invariant (fun _ hs => .fresh hs.1 hs.2) fun _ _ _ hs _ hstep => hs.step hstep

/-- A request after its first pass. -/
def sent (q : Request) (k : Kernel) (fileSize : ℤ) : Flow :=
  ⟨(dispatch q k (World.start q fileSize, .start)).2.1, 1⟩

theorem reachable_sent (q : Request) (k : Kernel) (fileSize : ℤ) :
    (requests q).Reachable (sent q k fileSize) := by
  have hpasses : (Flow.start q fileSize).passes = 0 := rfl
  have hstep : (requests q).step (Flow.start q fileSize) (.send k .start) =
      some (sent q k fileSize) := by
    simp only [requests, hpasses, if_true]
    rfl
  exact (Flow.reachable_start q fileSize).step trivial hstep

/-- A request after a worker has taken it up. -/
def worked (q : Request) (k : Kernel) (fileSize : ℤ) : Flow :=
  ⟨(commonDispatch q k ((sent q k fileSize).world.enter (.take .workQueue), .start)).2.1, 2⟩

theorem reachable_worked {k : Kernel} {fileSize : ℤ}
    (h : (sent q k fileSize).world.isWith .workQueue = true) :
    (requests q).Reachable (worked q k fileSize) :=
  (reachable_sent q k fileSize).step trivial (e := .work k .start) (if_pos h)

/-- What the first pass can make of the request is reached in a run. -/
theorem exists_of_dispatch {P : World → Prop} {k : Kernel} {fileSize : ℤ}
    (h : (dispatch q k).wp (Served (fun _ => P) .start) (World.start q fileSize, .start)) :
    ∃ s, (requests q).Reachable s ∧ s.passes = 1 ∧ P s.world :=
  ⟨_, reachable_sent q k fileSize, rfl, h.1⟩

end Sfsd

end DocumentCode
