import DocumentCode.Sfsd.Transfer

/-!
# Requests that are passed on

`SFsdCommonFlush` and `SFsdCommonDeviceControl` send their requests to the driver below.
To flush an ordinary file is to go down with it: the target is read from a VCB that only
the flush of a volume sets (`DocumentCode.Sfsd.commonFlush_spec`). `SFsdCommonCleanup` and
`SFsdCommonClose` look up what the request is for and do nothing, and `SFsdCommonShutdown`
does not even do that.
-/

namespace DocumentCode

namespace Sfsd

open Seh

/-! ### Flushing -/

/-- The local variables of `SFsdCommonFlush`. -/
structure Flush where
  RC : NTSTATUS := STATUS_SUCCESS
  /-- `PtrVCB != NULL` -/
  ptrVCB : Bool := false
  acquiredFCB : Bool := false
  postRequest : Bool := false
  deriving DecidableEq, Repr

abbrev FlushCode := Seh ExceptionRecord (World × Flush) Unit

section

variable (q : Request) (k : Kernel)

/-- `SFsdFlushLogicalVolume(PtrIrpContext, PtrIrp, PtrVCB)` -/
def flushLogicalVolume : Code Unit := do
  let _ ← exAcquireResource k .vcb true
  releaseResource .vcb

/-- `SFsdCommonFlush`, up to the label `try_exit`. -/
def flushBody : FlushCode := do
  getFCB
  let canWait ← readContext (·.canBlock)
  when (!canWait) do
    vars fun l => { l with postRequest := true }
    leave
  when (q.nodeType = .vcb || q.flag SFSD_FCB_ROOT_DIRECTORY) do
    vars fun l => { l with ptrVCB := true }
    flushLogicalVolume k
    leave
  when (!q.flag SFSD_FCB_DIRECTORY) do
    let _ ← exAcquireResource k .main true
    vars fun l => { l with acquiredFCB := true }
    -- `SFsdFlushAFile(PtrReqdFCB, &(PtrIrp->IoStatus))`
    setIoStatus k.flushCache.status k.flushCache.information
    vars fun l => { l with RC := k.flushCache.status }

/-- `SFsdCommonFlush`, from the label `try_exit` on. -/
def flushExit : FlushCode := do
  when (← getVars).acquiredFCB do
    releaseResource .main
    vars fun l => { l with acquiredFCB := false }
  when (!(← getVars).postRequest) do
    act .use
    when (!(← getVars).ptrVCB) nullPointer
    -- `IoCallDriver(PtrVCB->TargetDeviceObject, PtrIrp)`
    act (.give .lowerDriver)
    vars fun l => { l with
      RC := if k.callDriver = STATUS_INVALID_DEVICE_REQUEST then l.RC else k.callDriver }

/-- The `finally` part of `SFsdCommonFlush`. -/
def flushFinally : FlushCode := do
  if (← getVars).postRequest then do
    let RC ← postRequest
    vars fun l => { l with RC }
  else
    releaseIrpContext

/-- `SFsdCommonFlush(PtrIrpContext, PtrIrp)` -/
def commonFlush : Code NTSTATUS := locals {} do
  tryFinally (do block (flushBody q k); flushExit k) flushFinally
  return (← getVars).RC

/-! ### Device control -/

/-- `SFsdCommonDeviceControl(PtrIrpContext, PtrIrp)`: every control code is for the
driver below. -/
def commonDeviceControl : Code NTSTATUS := locals STATUS_SUCCESS do
  tryFinally
    (do
      getFCB
      act .use
      -- `IoCallDriver(PtrVCB->TargetDeviceObject, PtrIrp)`
      act (.give .lowerDriver)
      vars fun _ => k.callDriver)
    (do
      let exception ← readContext (·.exception)
      when (!exception) releaseIrpContext)
  getVars

/-- What a request is for: the FCB, and the VCB of the device that the context names. -/
def lookUp : Code NTSTATUS := do
  getFCB
  act .consult
  return STATUS_SUCCESS

/-- `SFsdCommonCleanup(PtrIrpContext, PtrIrp)` -/
def commonCleanup : Code NTSTATUS := lookUp

/-- `SFsdCommonClose(PtrIrpContext, PtrIrp)` -/
def commonClose : Code NTSTATUS := lookUp

/-- `SFsdCommonShutdown(PtrIrpContext, PtrIrp)` -/
def commonShutdown : Code NTSTATUS := return STATUS_SUCCESS

end

/-! ### How a pass ends -/

/-- A request to flush something that is neither a volume nor a directory. -/
def Request.flushesFile (q : Request) : Prop :=
  q.nodeType = .fcb ∧ q.flag SFSD_FCB_ROOT_DIRECTORY = false

/-- **How a pass over a flush ends.** -/
inductive FlushEnds (q : Request) (wait : Bool) (RC : NTSTATUS) (w : World) : Prop
  | posted (ledger : w.ledger = some ⟨some .workQueue, true, []⟩) (eq : RC = STATUS_PENDING)
      (pending : w.pending = true) (wait_eq : wait = false)
  /-- With the driver below. -/
  | forwarded (ledger : w.ledger = some ⟨some .lowerDriver, false, []⟩) (file : ¬q.flushesFile)
      (wait_eq : wait = true)

variable {q : Request} {k : Kernel} {w : World}

/-- `SFSD_FCB_ROOT_DIRECTORY` is two flags, one of them `SFSD_FCB_DIRECTORY`. -/
theorem Request.directory_of_root (h : q.flag SFSD_FCB_ROOT_DIRECTORY = false) :
    q.flag SFSD_FCB_DIRECTORY = false := by
  have hmask : SFSD_FCB_DIRECTORY = SFSD_FCB_ROOT_DIRECTORY &&& SFSD_FCB_DIRECTORY := by decide
  simp only [Request.flag, ne_eq, decide_not, Bool.not_eq_false', decide_eq_true_eq] at h ⊢
  rw [hmask, ← UInt32.and_assoc, h, UInt32.zero_and]

/-- **A pass over a flush.** That of a file by a thread that may wait does not come back. -/
theorem commonFlush_spec (hl : w.ledger = some ⟨none, true, []⟩) (hh : w.halted = none) :
    (commonFlush q k).wp (CommonEnds (FlushEnds q w.context.canBlock) fun _ => False) w := by
  rw [commonFlush, wp_locals, wp_bind, wp_tryFinally, wp_bind, wp_block]
  simp [flushBody, flushExit, flushFinally, flushLogicalVolume, releaseResource,
    setIoStatus, releaseIrpContext, postRequest, ioMarkIrpPending]
  refine ⟨fun _ => ⟨fun hwait => ?_, fun hwait => ⟨fun hvolume => ?_, fun hnode hroot =>
    ⟨fun _ => ?_, fun hdir => ?_⟩⟩⟩, fun _ => World.crashed_stopped hl⟩
  · exact ⟨by simp [hh], .posted (by simp [hl]) rfl rfl hwait⟩
  · refine ⟨by simp [hh], .forwarded (by simp [hl]) (fun hfile => ?_) hwait⟩
    rcases hvolume with hvcb | hroot
    · exact absurd (hvcb.symm.trans hfile.1) (by decide)
    · exact absurd (hroot.symm.trans hfile.2) (by decide)
  · refine World.crashed_stopped (?_ : World.ledger _ = some ⟨none, true, []⟩)
    simp [hl]
  · exact absurd (hdir.symm.trans (Request.directory_of_root hroot)) (by decide)

/-- **A pass over a device control request**: it is sent on, and the context released. -/
theorem commonDeviceControl_spec (hl : w.ledger = some ⟨none, true, []⟩)
    (he : w.context.exception = false) (hh : w.halted = none) :
    (commonDeviceControl k).wp (CommonEnds
      (fun RC w => RC = k.callDriver ∧ w.ledger = some ⟨some .lowerDriver, false, []⟩)
      fun _ => False) w := by
  simp [commonDeviceControl, releaseIrpContext, he]
  exact ⟨fun _ => ⟨by simp [hh], rfl, by simp [hl]⟩, fun _ => World.crashed_stopped hl⟩

/-- **A pass over a close or a cleanup** leaves the request where it is. -/
theorem lookUp_spec (hl : w.ledger = some ⟨none, true, []⟩) (hh : w.halted = none) :
    lookUp.wp (CommonEnds (fun _ w => w.ledger = some ⟨none, true, []⟩) fun _ => False) w := by
  simp [lookUp]
  exact ⟨fun _ => ⟨by simp [hh], by simp [hl]⟩, fun _ => World.crashed_stopped hl⟩

end Sfsd

end DocumentCode
