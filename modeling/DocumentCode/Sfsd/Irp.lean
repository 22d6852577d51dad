import DocumentCode.Custody
import DocumentCode.Nt
import DocumentCode.Seh
import Mathlib.Order.Nat

/-!
# A request of the file system driver

The sample file system driver gets its work as I/O request packets. This module is
what its routines work on: the request as the I/O manager sends it
(`DocumentCode.Sfsd.Request`), which does not change; the answers of the kernel during
one pass over it (`DocumentCode.Sfsd.Kernel`); and what changes
(`DocumentCode.Sfsd.World`), the packet with its context, the file object, and the list
of everything that has been done to the packet, its context and the resources of the
file so far.

Most kernel functions report trouble by their result, and `CcFlushCache` by a status block.
The others of the cache manager and that of the notification package raise an exception,
which is an `Except` here. A function that is told to wait does so, and then its answer is
that of one that need not.
-/

namespace DocumentCode

namespace Sfsd

/-! ### Requests -/

/-- `MajorFunction`, as far as `SFsdInitializeFunctionPointers` fills the table. -/
inductive MajorFunction
  | create | close | read | write | queryInformation | setInformation | flushBuffers
  | directoryControl | deviceControl | shutdown | cleanup
  deriving DecidableEq, Repr

def IRP_MN_DPC : UInt8 := 0x01
def IRP_MN_MDL : UInt8 := 0x02
def IRP_MN_COMPLETE : UInt8 := 0x04
def IRP_MN_QUERY_DIRECTORY : UInt8 := 0x01
def IRP_MN_NOTIFY_CHANGE_DIRECTORY : UInt8 := 0x02

def SFSD_FCB_PAGE_FILE : UInt32 := 0x00000004
def SFSD_FCB_DIRECTORY : UInt32 := 0x00000008
def SFSD_FCB_ROOT_DIRECTORY : UInt32 := 0x00000018

/-- `NodeIdentifier.NodeType` of what the file object's CCB points to. -/
inductive NodeType
  /-- `SFSD_NODE_TYPE_VCB`: the volume itself is open. -/
  | vcb
  /-- `SFSD_NODE_TYPE_FCB` -/
  | fcb
  deriving DecidableEq, Repr

/-- `FILE_INFORMATION_CLASS`, as far as `SFsdCommonFileInfo` knows it. -/
inductive FileInformationClass
  | basic | standard | internal | ea | name | alternateName | compression | position
  | stream | all | disposition | rename | link | allocation | endOfFile
  /-- Any other. -/
  | other
  deriving DecidableEq, Repr

/-- `FILE_BASIC_INFORMATION`, as far as the driver fills it in or looks at it. -/
structure BasicInformation where
  creationTime : ℤ
  lastAccessTime : ℤ
  lastWriteTime : ℤ
  fileAttributes : UInt32
  deriving DecidableEq, Repr

/-- `UNICODE_STRING`: its length in bytes, and what is at its buffer. -/
structure UnicodeString where
  length : ℕ
  /-- `Length` is a `USHORT`. -/
  length_lt : length < 65536
  buffer : List UInt16

/-- The file object that the name of a create is relative to. -/
structure Related where
  name : UnicodeString
  /-- `FsContext2 != NULL`: it has been opened. -/
  fsContext : Bool
  nodeType : NodeType
  fcbFlags : UInt32

/-- What a create asks for. -/
structure Open where
  /-- `DeviceObject` is the one of the driver itself, and not that of a volume. -/
  ownDevice : Bool
  /-- `Irp->Overlay.AllocationSize.HighPart` -/
  allocationHigh : UInt32
  /-- `Parameters.Create.Options` -/
  options : UInt32
  /-- `AssociatedIrp.SystemBuffer != NULL` -/
  extAttrBuffer : Bool
  /-- `SL_OPEN_TARGET_DIRECTORY` -/
  openTargetDirectory : Bool
  /-- `FileObject->FileName` -/
  target : UnicodeString
  /-- `FileObject->RelatedFileObject` -/
  related : Option Related
  /-- `SFSD_VCB_FLAGS_VOLUME_LOCKED` -/
  volumeLocked : Bool

/-- A request, and the file it is for, as far as the driver looks at them. -/
structure Request where
  majorFunction : MajorFunction
  minorFunction : UInt8
  create : Open
  /-- `IoIsOperationSynchronous(Irp)` -/
  synchronous : Bool
  /-- `Irp->Flags & IRP_PAGING_IO` -/
  pagingIo : Bool
  /-- `Irp->Flags & IRP_NOCACHE` -/
  noCache : Bool
  /-- `FileObject->Flags & FO_SYNCHRONOUS_IO` -/
  synchronousIo : Bool
  /-- `Parameters.Read.ByteOffset`, or that of a write -/
  byteOffset : ℤ
  /-- `Parameters.Read.Length`, or that of a write or a query -/
  length : ℕ
  fileInformationClass : FileInformationClass
  /-- The information that is to be set: `FILE_BASIC_INFORMATION`, -/
  basicInformation : BasicInformation
  /-- `FILE_POSITION_INFORMATION`, -/
  position : ℤ
  /-- and `FILE_ALLOCATION_INFORMATION`. -/
  allocationSize : ℤ
  /-- `FileObject->Flags & FO_NO_INTERMEDIATE_BUFFERING` -/
  noIntermediateBuffering : Bool
  /-- `DeviceObject->AlignmentRequirement` -/
  alignmentRequirement : UInt32
  nodeType : NodeType
  fcbFlags : UInt32
  /-- `CreationTime`, `LastAccessTime` and `LastWriteTime` of the FCB -/
  times : ℤ × ℤ × ℤ
  /-- `SectionObject.DataSectionObject != NULL` -/
  dataSectionObject : Bool
  /-- `SectionObject.ImageSectionObject != NULL` -/
  imageSectionObject : Bool

/-- `MinorFunction & m` -/
def Request.minor (q : Request) (m : UInt8) : Bool := q.minorFunction &&& m ≠ 0

/-- `FCBFlags & m` -/
def Request.flag (q : Request) (m : UInt32) : Bool := q.fcbFlags &&& m ≠ 0

/-! ### What the kernel answers -/

/-- `EXCEPTION_RECORD` -/
structure ExceptionRecord where
  exceptionCode : NTSTATUS
  exceptionInformation : List NTSTATUS
  deriving DecidableEq, Repr

/-- `IO_STATUS_BLOCK` of an operation that is over. -/
structure IoStatusBlock where
  status : NTSTATUS
  information : ℕ
  /-- The operation is over. -/
  status_ne : status ≠ STATUS_PENDING
  deriving DecidableEq, Repr

/-- What comes back from a function that may raise an exception. -/
abbrev Answer (β : Type) := Except ExceptionRecord β

/-- `VCBResource`, `MainResource` and `PagingIoResource`, in the order in which they have
to be acquired. -/
inductive Resource
  | vcb | main | pagingIo
  deriving Repr

/-- The place of a resource in the order. -/
def Resource.rank : Resource → ℕ
  | vcb => 0
  | main => 1
  | pagingIo => 2

instance : LinearOrder Resource :=
  LinearOrder.lift' Resource.rank fun r s h => by cases r <;> cases s <;> first | rfl | cases h

/-- What is not up to the driver, during one pass. -/
structure Kernel where
  /-- There is an IRP context left in its zone. -/
  zone : Bool
  /-- There is a CCB left in its zone. -/
  ccbZone : Bool
  /-- `ExAllocatePool` returns memory. -/
  pool : Bool
  /-- The resource can be acquired without waiting. -/
  free : Resource → Bool
  /-- `IoAllocateMdl` returns an MDL. -/
  mdl : Bool
  /-- `MmProbeAndLockPages` -/
  probe : Answer Unit
  /-- `MmIsRecursiveIoFault()` -/
  recursiveIoFault : Bool
  /-- What `CcFlushCache` leaves in the status block it is given. -/
  flushCache : IoStatusBlock
  /-- `CcInitializeCacheMap` -/
  initializeCacheMap : Answer Unit
  /-- `CcMdlRead`, or `CcPrepareMdlWrite` -/
  mdlTransfer : Answer IoStatusBlock
  /-- `CcCopyRead`, or `CcCopyWrite` -/
  copy : Answer IoStatusBlock
  /-- The data is in the cache, or there is room for it. -/
  inCache : Bool
  /-- `CcCanIWrite` need not wait. -/
  canWrite : Bool
  /-- `FsRtlNotifyFullChangeDirectory` -/
  notify : Answer Unit
  /-- `MmCanFileBeTruncated` -/
  canTruncate : Bool
  /-- `CcSetFileSizes` -/
  setFileSizes : Answer Unit
  /-- What is on the stack where a local variable is not initialised. -/
  stack : ℕ
  /-- What `IoCallDriver` returns. -/
  callDriver : NTSTATUS

/-! ### What changes -/

/-- Who may have a request, besides the driver. -/
inductive Holder
  | ioManager | workQueue | lowerDriver | notifyList | cacheManager
  deriving DecidableEq, Repr

/-- A request that has been completed does not come back. -/
instance : Custody.Holders Holder := ⟨fun h => h = .ioManager⟩

/-- One thing that is done. -/
abbrev Act := Custody.Act Holder Resource

/-- The books of one request. -/
abbrev Ledger := Custody.Ledger Holder Resource

/-- `SFsdIrpContext` -/
structure IrpContext where
  /-- `SFSD_IRP_CONTEXT_CAN_BLOCK` -/
  canBlock : Bool
  /-- `SFSD_IRP_CONTEXT_EXCEPTION` -/
  exception : Bool
  /-- `SFSD_IRP_CONTEXT_DEFERRED_WRITE` -/
  deferredWrite : Bool
  /-- `SFSD_IRP_CONTEXT_NOT_TOP_LEVEL` -/
  notTopLevel : Bool
  /-- `SFSD_IRP_CONTEXT_NOT_FROM_ZONE` -/
  notFromZone : Bool
  savedExceptionCode : NTSTATUS
  deriving DecidableEq, Repr

/-- Why a thread does not come back. -/
inductive Halt
  /-- `KeBugCheckEx`, or an exception nobody takes up -/
  | bugCheck
  /-- A loop without an end. -/
  | loop
  /-- Something C gives no meaning to. -/
  | undefined
  deriving DecidableEq, Repr

/-- The sizes in the `CommonFCBHeader` of a file. -/
structure Sizes where
  allocationSize : ℤ
  fileSize : ℤ
  validDataLength : ℤ
  deriving DecidableEq, Repr

def SFSD_CCB_ACCESSED : UInt32 := 0x00000010
def SFSD_CCB_MODIFIED : UInt32 := 0x00000020

/-- What changes: the packet, its context, and the file. -/
structure World where
  /-- `Irp->IoStatus` -/
  ioStatus : NTSTATUS × ℕ
  /-- `Irp->MdlAddress != NULL` -/
  mdlAddress : Bool
  /-- `IoMarkIrpPending` has been called. -/
  pending : Bool
  context : IrpContext
  /-- `FileObject->CurrentByteOffset` -/
  currentByteOffset : ℤ
  /-- `FileObject->PrivateCacheMap != NULL` -/
  privateCacheMap : Bool
  /-- `FileObject->Flags & FO_TEMPORARY_FILE` -/
  temporaryFile : Bool
  /-- `FileObject->Flags & FO_WRITE_THROUGH` -/
  writeThrough : Bool
  /-- `FileObject->FsContext2 != NULL` -/
  fsContext : Bool
  ccbFlags : UInt32
  /-- `VCBOpenCount` -/
  openCount : ℕ
  sizes : Sizes
  /-- What a query has written to the caller's buffer. -/
  basicReply : Option BasicInformation
  positionReply : Option ℤ
  /-- The lengths of the transfers that have been asked of the cache manager, added up. -/
  cacheLength : ℕ
  /-- What has been done so far. -/
  acts : List Act
  halted : Option Halt
  deriving DecidableEq, Repr

/-- The books at the beginning: the driver has the request, and nothing else. -/
def opened : Ledger := ⟨none, false, []⟩

/-- **The books of the request**, or none if something has been done that is not
allowed. -/
def World.ledger (w : World) : Option Ledger := opened.run w.acts

namespace World

/-- Enter one act. -/
@[simps] def enter (w : World) (a : Act) : World := { w with acts := w.acts ++ [a] }

@[simps] def setIoStatus (w : World) (s : NTSTATUS × ℕ) : World := { w with ioStatus := s }

@[simps] def setMdlAddress (w : World) (b : Bool) : World := { w with mdlAddress := b }

@[simps] def setPending (w : World) : World := { w with pending := true }

@[simps] def setContext (w : World) (c : IrpContext) : World := { w with context := c }

@[simps] def setCurrentByteOffset (w : World) (o : ℤ) : World := { w with currentByteOffset := o }

@[simps] def setPrivateCacheMap (w : World) : World := { w with privateCacheMap := true }

@[simps] def setTemporaryFile (w : World) (b : Bool) : World := { w with temporaryFile := b }

@[simps] def setWriteThrough (w : World) : World := { w with writeThrough := true }

/-- The volume is open once more, with a CCB of its own. -/
@[simps] def openVolume (w : World) (flag : UInt32) : World :=
  { w with fsContext := true, ccbFlags := flag, openCount := w.openCount + 1 }

@[simps] def setCcbFlag (w : World) (m : UInt32) : World := { w with ccbFlags := w.ccbFlags ||| m }

@[simps] def setSizes (w : World) (s : Sizes) : World := { w with sizes := s }

@[simps] def setBasicReply (w : World) (b : BasicInformation) : World :=
  { w with basicReply := some b }

@[simps] def setPositionReply (w : World) (o : ℤ) : World := { w with positionReply := some o }

@[simps] def addCacheLength (w : World) (n : ℕ) : World :=
  { w with cacheLength := w.cacheLength + n }

@[simps] def setHalted (w : World) (h : Halt) : World := { w with halted := some h }

section Books

variable (w : World)

/-- **One act is one entry in the books.** -/
@[simp] theorem ledger_enter (a : Act) : (w.enter a).ledger = w.ledger.bind (·.step a) :=
  Custody.Ledger.run_concat

@[simp] theorem ledger_setIoStatus (s : NTSTATUS × ℕ) : (w.setIoStatus s).ledger = w.ledger := rfl
@[simp] theorem ledger_setMdlAddress (b : Bool) : (w.setMdlAddress b).ledger = w.ledger := rfl
@[simp] theorem ledger_setPending : w.setPending.ledger = w.ledger := rfl
@[simp] theorem ledger_setContext (c : IrpContext) : (w.setContext c).ledger = w.ledger := rfl
@[simp] theorem ledger_setCurrentByteOffset (o : ℤ) :
    (w.setCurrentByteOffset o).ledger = w.ledger := rfl
@[simp] theorem ledger_setPrivateCacheMap : w.setPrivateCacheMap.ledger = w.ledger := rfl
@[simp] theorem ledger_setTemporaryFile (b : Bool) : (w.setTemporaryFile b).ledger = w.ledger := rfl
@[simp] theorem ledger_setWriteThrough : w.setWriteThrough.ledger = w.ledger := rfl
@[simp] theorem ledger_openVolume (m : UInt32) : (w.openVolume m).ledger = w.ledger := rfl
@[simp] theorem ledger_setCcbFlag (m : UInt32) : (w.setCcbFlag m).ledger = w.ledger := rfl
@[simp] theorem ledger_setSizes (s : Sizes) : (w.setSizes s).ledger = w.ledger := rfl
@[simp] theorem ledger_setBasicReply (b : BasicInformation) :
    (w.setBasicReply b).ledger = w.ledger := rfl
@[simp] theorem ledger_setPositionReply (o : ℤ) : (w.setPositionReply o).ledger = w.ledger := rfl
@[simp] theorem ledger_addCacheLength (n : ℕ) : (w.addCacheLength n).ledger = w.ledger := rfl
@[simp] theorem ledger_setHalted (h : Halt) : (w.setHalted h).ledger = w.ledger := rfl

end Books

end World

/-- Code of the driver. -/
abbrev Code (β : Type) := Seh ExceptionRecord World β

end Sfsd

end DocumentCode
