import DocumentCode.Sfsd.Irp

/-!
# Exceptions, contexts and the work queue

What the routines of the file system driver have in common, from `misc.c`: the IRP
context and its release, the filter and the handler of the exceptions, and the way of a
request to the work queue.

An exception is raised in two passes. First its filter is asked, while everything is
still in place: `SFsdExceptionFilter` notes the code and the fact in the context, and
where the code is not one to be expected it releases the context and declines, so that
the machine goes down; so it does for a file that has not been opened, whose CCB is a `NULL`
pointer (`DocumentCode.Sfsd.getFCB`). Only then are the `finally` parts run, and
`SFsdExceptionHandler` after them.
-/

namespace DocumentCode

namespace Sfsd

open Seh

variable {β : Type} {w : World} {Q : Exit ExceptionRecord β → World → Prop}

/-! ### Steps -/

/-- Change the world. -/
def update (f : World → World) : Code Unit := modify f

/-- Do one thing. -/
def act (a : Act) : Code Unit := update fun w => w.enter a

/-- The thread does not come back. -/
def halt (h : Halt) : Code β := do
  update fun w => w.setHalted h
  stop

@[simp] theorem wp_update {Q : Exit ExceptionRecord Unit → World → Prop} {f : World → World} :
    (update f).wp Q w ↔ Q (.done ()) (f w) := Iff.rfl

@[simp] theorem wp_act {Q : Exit ExceptionRecord Unit → World → Prop} {a : Act} :
    (act a).wp Q w ↔ Q (.done ()) (w.enter a) := Iff.rfl

@[simp] theorem wp_halt {h : Halt} : (halt h : Code β).wp Q w ↔ Q .stopped (w.setHalted h) :=
  Iff.rfl

/-- `ExAcquireResourceSharedLite(r, Wait)` and `ExAcquireResourceExclusiveLite(r, Wait)`:
whoever is willing to wait gets the resource. -/
def exAcquireResource (k : Kernel) (r : Resource) (wait : Bool) : Code Bool :=
  if wait || k.free r then do
    act (.acquire r)
    return true
  else
    return false

@[simp] theorem wp_exAcquireResource {Q : Exit ExceptionRecord Bool → World → Prop} {k : Kernel}
    {r : Resource} {wait : Bool} :
    (exAcquireResource k r wait).wp Q w ↔
      ((wait || k.free r) = true → Q (.done true) (w.enter (.acquire r))) ∧
      ((wait || k.free r) = false → Q (.done false) w) := by
  simp [exAcquireResource]

/-- `SFsdReleaseResource(r)` -/
def releaseResource (r : Resource) : Code Unit := act (.release r)

/-- `Irp->IoStatus.Status = RC; Irp->IoStatus.Information = information` -/
def setIoStatus (RC : NTSTATUS) (information : ℕ) : Code Unit := do
  act .use
  update fun w => w.setIoStatus (RC, information)

/-- `IoCompleteRequest(Irp, ...)` -/
def ioCompleteRequest : Code Unit := act (.give .ioManager)

/-- `IoMarkIrpPending(Irp)` -/
def ioMarkIrpPending : Code Unit := do
  act .use
  update fun w => w.setPending

/-! ### The context -/

/-- `SFsdAllocateIrpContext(Irp, DeviceObject)`: from the zone or, where that is full,
from the pool; without memory the driver panics. `top` says that
`IoGetTopLevelIrp() == Irp`. -/
def allocateIrpContext (q : Request) (k : Kernel) (top : Bool) : Code Unit :=
  if k.zone || k.pool then do
    act .allocate
    update fun w => w.setContext
      { canBlock := q.synchronous
        exception := false
        deferredWrite := false
        notTopLevel := !top
        notFromZone := !k.zone
        savedExceptionCode := STATUS_SUCCESS }
  else
    halt .bugCheck

/-- `SFsdReleaseIrpContext(PtrIrpContext)` -/
def releaseIrpContext : Code Unit := act .free

/-- `PtrIrpContext->...`, one of its fields -/
def readContext (f : IrpContext → β) : Code β := do
  act .consult
  return f (← get).context

@[simp] theorem wp_readContext {f : IrpContext → β} :
    (readContext f).wp Q w ↔ Q (.done (f w.context)) (w.enter .consult) := by
  simp [readContext]

/-! ### Exceptions -/

/-- `STATUS_IN_PAGE_ERROR` carries the code that matters with it. -/
def ExceptionRecord.code (x : ExceptionRecord) : NTSTATUS :=
  if x.exceptionCode = STATUS_IN_PAGE_ERROR ∧ 3 ≤ x.exceptionInformation.length then
    x.exceptionInformation.getD 2 STATUS_SUCCESS
  else
    x.exceptionCode

/-- `FsRtlIsNtstatusExpected`: the codes that only a fault in the code itself raises are
not. -/
def fsRtlIsNtstatusExpected (code : NTSTATUS) : Bool :=
  code ≠ STATUS_DATATYPE_MISALIGNMENT ∧ code ≠ STATUS_ACCESS_VIOLATION ∧
    code ≠ STATUS_ILLEGAL_INSTRUCTION ∧ code ≠ STATUS_INSTRUCTION_MISALIGNMENT

/-- The exception is taken up. -/
def ExceptionRecord.expected (x : ExceptionRecord) : Bool := fsRtlIsNtstatusExpected x.code

/-- `SFsdExceptionFilter(PtrIrpContext, PtrExceptionPointers)` -/
def exceptionFilter (x : ExceptionRecord) : Code Unit := do
  act .consult
  update fun w => w.setContext { w.context with savedExceptionCode := x.code, exception := true }
  when (!x.expected) do
    releaseIrpContext
    -- `EXCEPTION_CONTINUE_SEARCH`, and nobody else takes it up
    halt .bugCheck

/-- An exception in code that `SFsdExceptionFilter` watches. -/
def raiseException (x : ExceptionRecord) : Code β := do
  exceptionFilter x
  raise x

/-- The world once the filter has noted the exception. -/
@[simps!] def World.noted (w : World) (x : ExceptionRecord) : World :=
  (w.enter .consult).setContext { w.context with savedExceptionCode := x.code, exception := true }

@[simp] theorem World.ledger_noted (w : World) (x : ExceptionRecord) :
    (w.noted x).ledger = w.ledger.bind (·.step .consult) := ledger_enter w .consult

/-- **What an exception does before anything is unwound.** -/
@[simp] theorem wp_raiseException {x : ExceptionRecord} :
    (raiseException x : Code β).wp Q w ↔
      (x.expected = true → Q (.raised x) (w.noted x)) ∧
      (x.expected = false → Q .stopped (((w.noted x).enter .free).setHalted .bugCheck)) := by
  simp [raiseException, exceptionFilter, releaseIrpContext, World.noted]
  tauto

/-- A `NULL` pointer is followed. -/
def nullPointer : Code β := raiseException ⟨STATUS_ACCESS_VIOLATION, []⟩

/-- Following a `NULL` pointer is not to be expected. -/
theorem expected_accessViolation :
    (⟨STATUS_ACCESS_VIOLATION, []⟩ : ExceptionRecord).expected = false := by decide

/-- The world in which a `NULL` pointer has been followed. -/
def World.crashed (w : World) : World :=
  ((w.noted ⟨STATUS_ACCESS_VIOLATION, []⟩).enter .free).setHalted .bugCheck

@[simp] theorem World.crashed_halted (w : World) : w.crashed.halted = some .bugCheck := rfl

/-- The books stay in order, where there is a context to note the exception in. -/
theorem World.ledger_crashed {holder : Option Holder} {held : List Resource}
    (hl : w.ledger = some ⟨holder, true, held⟩) :
    w.crashed.ledger = some ⟨holder, false, held⟩ := by
  simp [World.crashed, hl]

theorem World.crashed_stopped {holder : Option Holder} {held : List Resource}
    (hl : w.ledger = some ⟨holder, true, held⟩) :
    w.crashed.halted ≠ none ∧ w.crashed.ledger ≠ none :=
  ⟨Option.some_ne_none _, ledger_crashed hl ▸ Option.some_ne_none _⟩

/-- **To follow a `NULL` pointer is the end of the machine.** -/
@[simp] theorem wp_nullPointer : (nullPointer : Code β).wp Q w ↔ Q .stopped w.crashed := by
  simp [nullPointer, expected_accessViolation, World.crashed]

/-- `PtrCCB = (PtrSFsdCCB)(PtrFileObject->FsContext2); PtrFCB = PtrCCB->PtrFCB`, the CCB of
a file that has not been opened being `NULL`. -/
def getFCB : Code Unit := do
  when (!(← get).fsContext) nullPointer

@[simp] theorem wp_getFCB {Q : Exit ExceptionRecord Unit → World → Prop} :
    getFCB.wp Q w ↔
      (w.fsContext = true → Q (.done ()) w) ∧ (w.fsContext = false → Q .stopped w.crashed) := by
  simp [getFCB]
  tauto

/-- A call of a function that may raise an exception. -/
def call : Answer β → Code β
  | .ok b => pure b
  | .error x => raiseException x

@[simp] theorem wp_call {a : Answer β} :
    (call a).wp Q w ↔ (∀ b, a = .ok b → Q (.done b) w) ∧
      (∀ x, a = .error x → (raiseException x : Code β).wp Q w) := by
  cases a <;> simp [call]

/-- `SFsdExceptionHandler(PtrIrpContext, Irp)` -/
def exceptionHandler : Code NTSTATUS := do
  let RC ← readContext (·.savedExceptionCode)
  releaseIrpContext
  setIoStatus RC 0
  ioCompleteRequest
  return RC

/-! ### The work queue -/

/-- `SFsdPostRequest(PtrIrpContext, Irp)` -/
def postRequest : Code NTSTATUS := do
  ioMarkIrpPending
  -- the work item is part of the context
  act .consult
  act (.give .workQueue)
  return STATUS_PENDING

end Sfsd

end DocumentCode
