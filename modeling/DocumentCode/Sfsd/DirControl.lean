import DocumentCode.Sfsd.Transfer

/-!
# Directories

`SFsdCommonDirControl` queries a directory or has its changes watched. A query is
answered with no entry at all. A request to watch goes to the notification package of
the kernel, which completes it when there is something to report
(`DocumentCode.Sfsd.commonDirControl_spec`).
-/

namespace DocumentCode

namespace Sfsd

open Seh

/-- The local variables of `SFsdQueryDirectory` and `SFsdNotifyChangeDirectory`. -/
structure Directory where
  RC : NTSTATUS := STATUS_SUCCESS
  completeRequest : Bool := false
  postRequest : Bool := false
  acquiredFCB : Bool := false
  deriving DecidableEq, Repr

abbrev DirectoryCode := Seh ExceptionRecord (World × Directory) Unit

section

variable (q : Request) (k : Kernel)

/-- The FCB is not that of a directory. -/
def Request.noDirectory : Bool := q.nodeType = .vcb || !q.flag SFSD_FCB_DIRECTORY

/-- `&(PtrReqdFCB->MainResource)`, where what `PtrFCB` points to may be a VCB. -/
def mainResource : Code Unit := when (q.nodeType = .vcb) (halt .undefined)

/-- Release the FCB if it has been acquired. -/
def releaseFCB : DirectoryCode := do
  when (← getVars).acquiredFCB (releaseResource .main)

/-- The `try` part of `SFsdQueryDirectory`. -/
def queryBody : DirectoryCode := do
  when q.noDirectory do
    vars fun l => { l with RC := STATUS_INVALID_PARAMETER }
  let canWait ← readContext (·.canBlock)
  when (!canWait) do
    vars fun l => { l with postRequest := true, RC := STATUS_PENDING }
    leave
  mainResource q
  let _ ← exAcquireResource k .main true
  vars fun l => { l with acquiredFCB := true }

/-- The `finally` part of `SFsdQueryDirectory`. -/
def queryFinally : DirectoryCode := do
  if (← getVars).postRequest then do
    releaseFCB
    let _ ← lockCallersBuffer k
    let RC ← postRequest
    vars fun l => { l with RC }
  else do
    let exception ← readContext (·.exception)
    when (!exception) do
      releaseFCB
      setIoStatus (← getVars).RC 0
      releaseIrpContext
      ioCompleteRequest

/-- `SFsdQueryDirectory(PtrIrpContext, PtrIrp, ...)` -/
def queryDirectory : Code NTSTATUS := locals {} do
  tryFinally (queryBody q k) (queryFinally k)
  return (← getVars).RC

/-- The `try` part of `SFsdNotifyChangeDirectory`. -/
def notifyBody : DirectoryCode := do
  when q.noDirectory do
    vars fun l => { l with RC := STATUS_INVALID_PARAMETER, completeRequest := true }
  let canWait ← readContext (·.canBlock)
  mainResource q
  let acquired ← exAcquireResource k .main canWait
  when (!acquired) do
    vars fun l => { l with postRequest := true, RC := STATUS_PENDING }
    leave
  vars fun l => { l with acquiredFCB := true }
  -- `FsRtlNotifyFullChangeDirectory(..., PtrIrp, NULL, NULL)`
  call k.notify
  act (.give .notifyList)
  vars fun l => { l with RC := STATUS_PENDING }

/-- What becomes of a request to watch a directory. -/
def notifyEnd : DirectoryCode := do
  let l ← getVars
  if l.postRequest then do
    releaseFCB
    vars fun l => { l with acquiredFCB := false }
    let RC ← postRequest
    vars fun l => { l with RC }
  else if l.completeRequest then do
    setIoStatus l.RC 0
    releaseIrpContext
    ioCompleteRequest
  else
    releaseIrpContext

/-- The `finally` part of `SFsdNotifyChangeDirectory`. -/
def notifyFinally : DirectoryCode := do
  notifyEnd
  releaseFCB

/-- `SFsdNotifyChangeDirectory(PtrIrpContext, PtrIrp, ...)` -/
def notifyChangeDirectory : Code NTSTATUS := locals {} do
  tryFinally (notifyBody q k) notifyFinally
  return (← getVars).RC

/-- `SFsdCommonDirControl(PtrIrpContext, PtrIrp)` -/
def commonDirControl : Code NTSTATUS := do
  getFCB
  if q.minorFunction = IRP_MN_QUERY_DIRECTORY then
    queryDirectory q k
  else if q.minorFunction = IRP_MN_NOTIFY_CHANGE_DIRECTORY then
    notifyChangeDirectory q k
  else do
    setIoStatus STATUS_INVALID_DEVICE_REQUEST 0
    releaseIrpContext
    ioCompleteRequest
    return STATUS_INVALID_DEVICE_REQUEST

end

/-! ### How a pass ends -/

/-- A request to watch a directory, or what is taken for one. -/
def Request.notifies (q : Request) : Prop :=
  q.minorFunction = IRP_MN_NOTIFY_CHANGE_DIRECTORY ∧ q.nodeType = .fcb

/-- **How a pass over a directory request ends.** -/
inductive DirControlEnds (q : Request) (wait : Bool) (RC : NTSTATUS) (w : World) : Prop
  | completed (ledger : w.ledger = some ⟨some .ioManager, false, []⟩) (ioStatus : w.ioStatus.1 = RC)
  /-- On the work queue. -/
  | posted (ledger : w.ledger = some ⟨some .workQueue, true, []⟩) (eq : RC = STATUS_PENDING)
      (pending : w.pending = true) (wait_eq : wait = false)
  /-- With the notification package. -/
  | noted (ledger : w.ledger = some ⟨some .notifyList, false, []⟩) (notifies : q.notifies)
  /-- With the notification package, and completed all the same. -/
  | broken (ledger : w.ledger = none) (notifies : q.notifies)

variable {q : Request} {k : Kernel} {w : World}

theorem queryDirectory_spec (hl : w.ledger = some ⟨none, true, []⟩)
    (he : w.context.exception = false) (hh : w.halted = none) :
    (queryDirectory q k).wp
      (CommonEnds (DirControlEnds q w.context.canBlock) fun _ => False) w := by
  rw [queryDirectory, wp_locals, wp_bind, wp_tryFinally, queryBody]
  refine wp.seq (P := fun _ p => ∃ RC, p = (w, { RC })) ?_ ?_
  · rw [wp_when]
    exact ⟨fun _ => ⟨_, rfl⟩, fun _ => ⟨_, rfl⟩⟩
  rintro - p ⟨RC, rfl⟩
  simp [queryFinally, mainResource, releaseFCB, releaseResource, setIoStatus, releaseIrpContext,
    ioCompleteRequest, he]
  refine ⟨fun hwait => ?_, fun _ => ⟨fun _ => ?_, fun _ => ?_⟩⟩
  · have hl' : (w.enter .consult).ledger = some ⟨none, true, []⟩ := by simp [hl]
    refine (lockCallersBuffer_spec hl').mono ?_
    rintro r w' ⟨RC, rfl, -, hk⟩
    simp [postRequest, ioMarkIrpPending]
    exact ⟨by simp [hk.halted, hh], .posted (by simp [hk.ledger, hl]) rfl rfl hwait⟩
  · exact ⟨Option.some_ne_none _, by simp [hl]⟩
  · exact ⟨by simp [hh], .completed (by simp [hl]) rfl⟩

/-- What an exception leaves to the handler: a context that is gone. -/
theorem notifyChangeDirectory_spec (hl : w.ledger = some ⟨none, true, []⟩)
    (hh : w.halted = none) (hq : q.minorFunction = IRP_MN_NOTIFY_CHANGE_DIRECTORY) :
    (notifyChangeDirectory q k).wp (CommonEnds (DirControlEnds q w.context.canBlock)
      fun w => q.notifies ∧ ∃ holder, w.ledger = some ⟨holder, false, []⟩) w := by
  rw [notifyChangeDirectory, wp_locals, wp_bind, wp_tryFinally, notifyBody]
  refine wp.seq (P := fun _ p => ∃ RC b, p = (w, { RC, completeRequest := b })) ?_ ?_
  · rw [wp_when]
    exact ⟨fun _ => ⟨_, _, rfl⟩, fun _ => ⟨_, _, rfl⟩⟩
  rintro - p ⟨RC, b, rfl⟩
  simp [notifyFinally, notifyEnd, mainResource, releaseFCB, releaseResource, setIoStatus,
    releaseIrpContext, ioCompleteRequest, postRequest, ioMarkIrpPending]
  refine ⟨fun _ => ⟨Option.some_ne_none _, by simp [hl]⟩, fun hnode => ?_⟩
  have hnotifies : q.notifies := by
    refine ⟨hq, ?_⟩
    cases hn : q.nodeType with
    | vcb => exact absurd hn hnode
    | fcb => rfl
  refine ⟨fun _ => ⟨fun _ _ => ⟨fun _ => ?_, fun _ => ?_⟩,
    fun x _ => ⟨fun _ => ⟨fun _ => ?_, fun _ => ?_⟩, fun _ => ?_⟩⟩, fun hwait _ => ?_⟩
  · exact ⟨by simp [hh], .broken (by simp [hl]) hnotifies⟩
  · exact ⟨by simp [hh], .noted (by simp [hl]) hnotifies⟩
  · exact ⟨by simp [hh], rfl, hnotifies, some .ioManager, by simp [hl]⟩
  · exact ⟨by simp [hh], rfl, hnotifies, none, by simp [hl]⟩
  · exact ⟨Option.some_ne_none _, by simp [hl]⟩
  · exact ⟨by simp [hh], .posted (by simp [hl]) rfl rfl hwait⟩

/-- **A pass over a directory request.** -/
theorem commonDirControl_spec (hl : w.ledger = some ⟨none, true, []⟩)
    (he : w.context.exception = false) (hh : w.halted = none) :
    (commonDirControl q k).wp (CommonEnds (DirControlEnds q w.context.canBlock)
      fun w => q.notifies ∧ ∃ holder, w.ledger = some ⟨holder, false, []⟩) w := by
  rw [commonDirControl, wp_bind, wp_getFCB]
  refine ⟨fun _ => ?_, fun _ => World.crashed_stopped hl⟩
  rw [next_done, wp_ite]
  refine ⟨fun _ => ?_, fun _ => ?_⟩
  · refine (queryDirectory_spec hl he hh).mono fun r w' h => ?_
    rcases r with _ | _ | _ | _
    exacts [h, h, h.2.2.elim, h]
  · rw [wp_ite]
    refine ⟨fun hq => notifyChangeDirectory_spec hl hh hq, fun _ => ?_⟩
    simp [setIoStatus, releaseIrpContext, ioCompleteRequest]
    exact ⟨by simp [hh], .completed (by simp [hl]) rfl⟩

end Sfsd

end DocumentCode
