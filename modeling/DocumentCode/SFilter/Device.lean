import DocumentCode.Nt
import DocumentCode.Threads

/-!
# The device object of a filter driver

`filter-high` attaches a device object of its own to that of a file system, and
every request passes through it. The device extension keeps a count of the
requests that have been sent on and not yet come back, so that a detach can wait
for them; a resource serialises the look at the extension, and an event wakes the
detacher. This module is the code, one step of one thread at a time:

* the dispatch routines, `SFilterDefaultDispatch`, `SFilterCreate`,
  `SFilterCleanupOrClose` and `SFilterFSControl`;
* the completion routines, `SFilterDefaultCompletion` and
  `SFilterMountVolumeCompletion`, with the work item `SFilterMountAttach`;
* `SFilterAttachTarget` at the beginning, and `SFilterDetachTarget`, which
  `SFilterFastIoDetachDevice` calls, with `SFilterDeleteDevExtension`.

A thread here is a request together with whoever works on it: the caller of the
dispatch routine, then the target driver, then the arbitrary thread the
completion routine runs in. What the I/O manager and the target driver settle is
a `DocumentCode.SFilter.Choice`.

The macros that adjust the count call `RtlLargeIntegerAdd` and
`RtlLargeIntegerSubtract` as statements, and these return their result by value –
`read.c` of the file system next to it assigns it. The parameter `stored` says
whether the result goes back into the operand. The code is `stored = false`; what
the comments of `sfilter.h` say the macros do is `stored = true`.
-/

namespace DocumentCode

namespace SFilter

/-! ### The macros -/

/-- `LARGE_INTEGER` -/
abbrev LargeInteger : Type := BitVec 64

/-- `RtlLargeIntegerAdd`, by value. -/
def rtlLargeIntegerAdd (a b : LargeInteger) : LargeInteger := a + b

/-- `RtlLargeIntegerSubtract`, by value. -/
def rtlLargeIntegerSubtract (a b : LargeInteger) : LargeInteger := a - b

/-- `SFilterIncrementLargeInteger(op, inc, lock)`: what `op` holds afterwards. -/
def incrementLargeInteger (stored : Bool) (op inc : LargeInteger) : LargeInteger :=
  if stored then rtlLargeIntegerAdd op inc else op

/-- `SFilterDecrementLargeInteger(op, inc, lock)`: what `op` holds afterwards. -/
def decrementLargeInteger (stored : Bool) (op inc : LargeInteger) : LargeInteger :=
  if stored then rtlLargeIntegerSubtract op inc else op

/-- `SFilterIsLargeIntegerZero(ret, op, lock)`: what `ret` holds afterwards. -/
def isLargeIntegerZero (op : LargeInteger) : Bool := op = 0

/-! ### The device extension -/

/-- `NodeIdentifier.NodeType` -/
inductive NodeType
  /-- The filter driver's own device object: `SFILTER_NODE_TYPE_FILTER_DEVICE`. -/
  | filterDevice
  /-- One attached to a target: `SFILTER_NODE_TYPE_ATTACHED_DEVICE`. -/
  | attachedDevice
  /-- Zero, once the extension has been deleted. -/
  | zero
  deriving DecidableEq, Repr

/-- `SFilterDeviceExtension`, and what the kernel keeps with the device object. -/
structure Extension where
  nodeType : NodeType
  /-- `SFILTER_DEV_EXT_RESOURCE_INITIALIZED` -/
  resourceInitialized : Bool
  /-- `SFILTER_DEV_EXT_INSERTED_GLOBAL_LIST` -/
  insertedGlobalList : Bool
  /-- `SFILTER_DEV_EXT_ATTACHED` -/
  attached : Bool
  /-- `SFILTER_DEV_EXT_ATTACHED_FSD` -/
  attachedFSD : Bool
  outstandingIoRequests : LargeInteger
  /-- `IoInProgressEvent` is signalled. It is a notification event: waiting for it
  does not reset it. -/
  ioInProgressEvent : Bool
  /-- The thread that owns `DeviceExtensionResource`. -/
  deviceExtensionResource : Option ℕ
  /-- `IoDeleteDevice` has returned, and the extension is no longer there. -/
  deleted : Bool
  /-- The `SFilterMountCompletion` structures that have been allocated and not
  freed. -/
  mountCompletions : ℤ
  deriving DecidableEq, Repr

/-! ### Where a request is -/

/-- The dispatch routines; `mount` says that `MinorFunction` is
`IRP_MN_MOUNT_VOLUME`. -/
inductive Routine
  | defaultDispatch
  | create
  | cleanupOrClose
  | fsControl (mount : Bool)
  deriving DecidableEq, Repr

/-- Which code takes a request off the count. -/
inductive CountedBy
  /-- `SFilterDefaultCompletion` -/
  | defaultCompletion
  /-- `SFilterMountVolumeCompletion`, the mount having failed -/
  | mountVolumeCompletion
  /-- `SFilterMountAttach` -/
  | mountAttach
  deriving DecidableEq, Repr

/-- The next thing that is done. -/
inductive PC
  /-- `ExAcquireResourceExclusiveLite(&(PtrDeviceExtension->DeviceExtensionResource), TRUE)` -/
  | acquire (r : Routine)
  /-- the tests under the resource -/
  | test (r : Routine)
  /-- release the resource, then `SFilterDefaultDispatch(DeviceObject, Irp)` -/
  | handOn
  /-- `SFilterIncrementLargeInteger(PtrDeviceExtension->OutstandingIoRequests, ...)` -/
  | increment (mount : Bool)
  /-- `KeClearEvent(&(PtrDeviceExtension->IoInProgressEvent))` -/
  | clearEvent (mount : Bool)
  /-- `SFilterReleaseResource(...)`, before forwarding the request -/
  | release (mount : Bool)
  /-- `IoCallDriver(PtrTargetDeviceObject, Irp)` -/
  | callDriver (mount : Bool)
  /-- `finally`: release the resource -/
  | unwind (RC : NTSTATUS) (information : ℕ)
  /-- `finally`: fill in `Irp->IoStatus` and `IoCompleteRequest(Irp, ...)` -/
  | complete (RC : NTSTATUS) (information : ℕ)
  /-- the target driver has the request -/
  | target (mount : Bool)
  /-- the completion routine compares the device objects -/
  | completion (mount : Bool)
  /-- the work item of a mount has been queued -/
  | workItem
  /-- `SFilterDecrementLargeInteger(...)` -/
  | decrement (a : CountedBy)
  /-- `SFilterIsLargeIntegerZero(CanDetachProceed, ...)` -/
  | isZero (a : CountedBy)
  /-- `if (CanDetachProceed) KeSetEvent(...)` -/
  | setEvent (a : CountedBy) (canDetachProceed : Bool)
  /-- what is left of the routine that took the request off the count -/
  | finish (a : CountedBy)
  /-- the request is finished -/
  | finished
  /-- `SFilterAttachTarget` or `SFilterDetachTarget` has returned -/
  | returned
  /-- `RC = IoAttachDeviceByPointer(PtrNewDeviceObject, PtrTargetDeviceObject)` -/
  | attach
  /-- set the flags of the extension -/
  | setAttached (ok : Bool)
  /-- `finally` of `SFilterAttachTarget` -/
  | leaveAttach (ok : Bool)
  /-- `SFilterDetachTarget`: acquire the resource -/
  | detachAcquire
  /-- `SFilterIsLargeIntegerZero(NoRequestsOutstanding, ...)` -/
  | detachIsZero
  /-- drop the resource and go to sleep -/
  | detachRelease
  /-- `KeWaitForSingleObject(&(PtrDeviceExtension->IoInProgressEvent), ...)` -/
  | detachWait
  /-- `IoDetachDevice(PtrDeviceExtension->TargetDeviceObject)`, if attached -/
  | detach
  /-- `SFilterDeleteDevExtension(PtrDeviceExtension, TRUE)`, up to the release -/
  | deleteExtension
  /-- its rest: clear the signature and `ExDeleteResourceLite` -/
  | deleteResource
  /-- `IoDeleteDevice(SourceDeviceObject)` -/
  | deleteDevice
  deriving DecidableEq, Repr

namespace PC

/-- The code at this point works on the device extension. -/
def touches : PC → Bool
  | callDriver _ | complete _ _ | target _ | workItem | finish _ | finished | returned => false
  | _ => true

/-- The thread owns the resource. -/
def holds : PC → Bool
  | test _ | handOn | increment _ | clearEvent _ | release _ | unwind _ _ | attach
  | setAttached _ | leaveAttach _ | detachIsZero | detachRelease | detach
  | deleteExtension => true
  | _ => false

/-- The request has been added to the count and not been taken off it. -/
def counted : PC → Bool
  | clearEvent _ | release _ | callDriver _ | target _ | completion _ | workItem
  | decrement _ => true
  | _ => false

/-- The request is about to be added to the count. -/
def incrementing : PC → Bool
  | increment _ => true
  | _ => false

/-- The device is being attached. -/
def attaching : PC → Bool
  | attach | setAttached _ => true
  | _ => false

/-- The extension is being taken down. -/
def tearing : PC → Bool
  | deleteExtension | deleteResource | deleteDevice => true
  | _ => false

/-- A detacher that waits, or is about to. -/
def sleeping : PC → Bool
  | detachRelease | detachWait => true
  | _ => false

/-- The request will yet look at the count, or is about to set the event. -/
def waking : PC → Bool
  | isZero _ => true
  | setEvent _ canDetachProceed => canDetachProceed
  | pc => pc.counted

end PC

/-- A request: where it is, how often it has been completed, and the status the
filter driver has given it. -/
structure Request where
  pc : PC
  completions : ℕ
  ioStatus : Option (NTSTATUS × ℕ)
  deriving DecidableEq, Repr

/-- A request, or a call of `SFilterDetachTarget`, at its beginning. -/
def Request.entering (pc : PC) : Request := ⟨pc, 0, none⟩

def Request.goto (t : Request) (pc : PC) : Request := { t with pc }

/-- What is not up to the filter driver. -/
structure Choice where
  /-- `Irp->CurrentLocation == 1`: there is no stack location left. -/
  lastLocation : Bool
  /-- `ExAllocatePool` returns memory. -/
  memory : Bool
  /-- The completion routine is called with the device object of the extension, not
  with that of a driver that has copied the stack location. -/
  sameDevice : Bool
  /-- The mount, or the attach, succeeds. -/
  success : Bool
  deriving DecidableEq, Repr

/-! ### The routines -/

/-- `FILE_OPENED` -/
def FILE_OPENED : ℕ := 1

section Dispatch

variable (x : Extension) (c : Choice)

/-- The request is forwarded: the extension is that of an attached device. -/
def Extension.forwards : Bool := x.nodeType = .attachedDevice && x.attached

/-- `SFilterDefaultDispatch`, under the resource. -/
def defaultDispatch : PC :=
  if x.forwards then
    if c.lastLocation then .unwind STATUS_INVALID_DEVICE_REQUEST 0 else .increment false
  else
    .unwind STATUS_INVALID_DEVICE_REQUEST 0

/-- `SFilterCreate`, under the resource. -/
def create : PC :=
  if x.forwards then
    .handOn
  else if x.nodeType = .filterDevice then
    .unwind STATUS_SUCCESS FILE_OPENED
  else
    .unwind STATUS_INVALID_DEVICE_REQUEST FILE_OPENED

/-- `SFilterCleanupOrClose`, under the resource. -/
def cleanupOrClose : PC :=
  if x.forwards then
    .handOn
  else if x.nodeType = .filterDevice then
    .unwind STATUS_SUCCESS 0
  else
    .unwind STATUS_INVALID_DEVICE_REQUEST 0

/-- `SFilterFSControl`, under the resource. A mount gets a context of its own. -/
def fsControl (mount : Bool) : Extension × PC :=
  if x.forwards then
    if !mount then
      (x, .handOn)
    else if c.lastLocation then
      (x, .unwind STATUS_INVALID_DEVICE_REQUEST 0)
    else if !c.memory then
      (x, .unwind STATUS_INSUFFICIENT_RESOURCES 0)
    else
      ({ x with mountCompletions := x.mountCompletions + 1 }, .increment true)
  else
    (x, .unwind STATUS_INVALID_DEVICE_REQUEST 0)

/-- The tests of a dispatch routine. -/
def dispatch : Routine → Extension × PC
  | .defaultDispatch => (x, defaultDispatch x c)
  | .create => (x, create x)
  | .cleanupOrClose => (x, cleanupOrClose x)
  | .fsControl mount => fsControl x c mount

/-- The completion routines, up to the count: `SFilterDefaultCompletion` and, for a
mount, `SFilterMountVolumeCompletion`. Called with another device object they
return `STATUS_SUCCESS` at once, and the I/O manager goes on to the next stack
location: the call with the device object of the extension is still to come. -/
def completion (mount : Bool) : PC :=
  if !c.sameDevice then .completion mount
  else if !mount then .decrement .defaultCompletion
  else if c.success then .workItem
  else .decrement .mountVolumeCompletion

end Dispatch

/-- What is left when the request is off the count: the completion routines return
`STATUS_SUCCESS`, and the I/O manager goes on completing the request;
`SFilterMountAttach` calls `IoCompleteRequest` itself. A mount frees its context. -/
def finish (x : Extension) : CountedBy → Extension
  | .defaultCompletion => x
  | .mountVolumeCompletion | .mountAttach => { x with mountCompletions := x.mountCompletions - 1 }

/-- The next step of thread `i`, and none where it has to wait. -/
def move (stored : Bool) (c : Choice) (i : ℕ) (x : Extension) (t : Request) :
    Option (Extension × Request) :=
  match t.pc with
  | .acquire r =>
    if x.deviceExtensionResource = none ∧ x.resourceInitialized = true then
      some ({ x with deviceExtensionResource := some i }, t.goto (.test r))
    else none
  | .test r => some ((dispatch x c r).1, t.goto (dispatch x c r).2)
  | .handOn => some ({ x with deviceExtensionResource := none }, t.goto (.acquire .defaultDispatch))
  | .increment mount => some
      ({ x with outstandingIoRequests := incrementLargeInteger stored x.outstandingIoRequests 1 },
        t.goto (.clearEvent mount))
  | .clearEvent mount => some ({ x with ioInProgressEvent := false }, t.goto (.release mount))
  | .release mount => some ({ x with deviceExtensionResource := none }, t.goto (.callDriver mount))
  | .callDriver mount => some (x, t.goto (.target mount))
  | .unwind RC info => some ({ x with deviceExtensionResource := none }, t.goto (.complete RC info))
  | .complete RC info => some
      (x, { pc := .finished, completions := t.completions + 1, ioStatus := some (RC, info) })
  | .target mount => some (x, t.goto (.completion mount))
  | .completion mount => some (x, t.goto (completion c mount))
  | .workItem => some (x, t.goto (.decrement .mountAttach))
  | .decrement a => some
      ({ x with outstandingIoRequests := decrementLargeInteger stored x.outstandingIoRequests 1 },
        t.goto (.isZero a))
  | .isZero a => some (x, t.goto (.setEvent a (isLargeIntegerZero x.outstandingIoRequests)))
  | .setEvent a canDetachProceed => some
      ({ x with ioInProgressEvent := x.ioInProgressEvent || canDetachProceed }, t.goto (.finish a))
  | .finish a => some (finish x a, { t with pc := .finished, completions := t.completions + 1 })
  | .finished | .returned => none
  -- `SFilterAttachTarget`: the flags are set whatever the attach has returned
  | .attach => some (x, t.goto (.setAttached c.success))
  | .setAttached ok => some
      ({ x with attached := true, attachedFSD := true }, t.goto (.leaveAttach ok))
  | .leaveAttach ok => some
      ({ x with deviceExtensionResource := none },
      t.goto (if ok then .returned else .detachAcquire))
  -- `SFilterDetachTarget`
  | .detachAcquire =>
    if x.deviceExtensionResource = none ∧ x.resourceInitialized = true then
      some ({ x with deviceExtensionResource := some i }, t.goto .detachIsZero)
    else none
  | .detachIsZero => some
      (x, t.goto (if isLargeIntegerZero x.outstandingIoRequests then .detach else .detachRelease))
  | .detachRelease => some ({ x with deviceExtensionResource := none }, t.goto .detachWait)
  | .detachWait => if x.ioInProgressEvent then some (x, t.goto .detachAcquire) else none
  | .detach => some ({ x with attached := false, attachedFSD := false }, t.goto .deleteExtension)
  | .deleteExtension => some
      ({ x with insertedGlobalList := false, deviceExtensionResource := none },
        t.goto .deleteResource)
  | .deleteResource => some
      ({ x with nodeType := .zero, resourceInitialized := false }, t.goto .deleteDevice)
  | .deleteDevice => some ({ x with deleted := true }, t.goto .returned)

/-- The next step of thread `i`. There is none that would work on an extension that
has been deleted. -/
def next (stored : Bool) (c : Choice) (i : ℕ) (x : Extension) (t : Request) :
    Option (Extension × Request) :=
  if x.deleted && t.pc.touches then none else move stored c i x t

/-! ### The system -/

/-- The extension as `SFilterInitDevExtension` leaves it. An attached device has its
resource acquired by `SFilterAttachTarget`, thread 0. -/
def initDevExtension (node : NodeType) : Extension where
  nodeType := node
  resourceInitialized := true
  insertedGlobalList := true
  attached := false
  attachedFSD := false
  outstandingIoRequests := 0
  ioInProgressEvent := false
  deviceExtensionResource := if node = .attachedDevice then some 0 else none
  deleted := false
  mountCompletions := 0

/-- Where the I/O manager enters: with a request, or to have the device detached. -/
def PC.entry : PC → Bool
  | acquire _ | detachAcquire => true
  | _ => false

/-- At the start there is the thread that attaches the device, if it is to be. -/
def initialRequests (node : NodeType) : List Request :=
  if node = .attachedDevice then [.entering .attach] else []

/-- The device object and its requests. A request may be sent to it at any time
before it is gone. -/
def device (stored : Bool) (node : NodeType) : Threads Extension Request Choice where
  start := initDevExtension node
  initial := initialRequests node
  spawns x t := x.deleted = false ∧ t.pc.entry = true ∧ t = .entering t.pc
  next := next stored

instance (stored : Bool) (node : NodeType) (x : Extension) (t : Request) :
    Decidable ((device stored node).spawns x t) :=
  inferInstanceAs (Decidable (_ ∧ _ ∧ _))

end SFilter

end DocumentCode
