import DocumentCode.Sfsd.Allocation
import DocumentCode.Sfsd.Forward

/-!
# Information about a file

`SFsdCommonFileInfo` answers queries and sets information. To set anything it acquires
the paging resource of the file after the main resource, and does not note that it has, so
that it is held from then on, also when `CcSetFileSizes` raises an exception
(`DocumentCode.Sfsd.commonFileInfo_spec`).
-/

namespace DocumentCode

namespace Sfsd

open Seh

def FILE_ATTRIBUTE_DIRECTORY : UInt32 := 0x00000010
def FILE_ATTRIBUTE_NORMAL : UInt32 := 0x00000080
def FILE_ATTRIBUTE_TEMPORARY : UInt32 := 0x00000100
def FILE_ATTRIBUTE_VALID_SET_FLAGS : UInt32 := 0x000031A7
def SFSD_CCB_CREATE_TIME_SET : UInt32 := 0x00000100

/-- `sizeof(FILE_BASIC_INFORMATION)` -/
def sizeofBasic : ℤ := 40

/-- `sizeof(FILE_POSITION_INFORMATION)` -/
def sizeofPosition : ℤ := 8

/-- `sizeof(FILE_MODE_INFORMATION) + sizeof(FILE_ACCESS_INFORMATION) +
sizeof(FILE_ALIGNMENT_INFORMATION)` -/
def sizeofModes : ℤ := 12

/-! ### The routine -/

/-- The local variables of `SFsdCommonFileInfo`. -/
structure FileInfo where
  RC : NTSTATUS := STATUS_SUCCESS
  mainResourceAcquired : Bool := false
  pagingIoResourceAcquired : Bool := false
  vcbResourceAcquired : Bool := false
  bufferLength : ℤ := 0
  canWait : Bool := false
  postRequest : Bool := false
  deriving DecidableEq, Repr

abbrev FileInfoCode := Seh ExceptionRecord (World × FileInfo) Unit

namespace FileInfo

/-- `try_return(RC)` -/
def tryReturn (RC : NTSTATUS) : FileInfoCode := do
  vars fun l => { l with RC }
  leave

/-- `PostRequest = TRUE; try_return(RC = STATUS_PENDING)` -/
def tryPost : FileInfoCode := do
  vars fun l => { l with postRequest := true }
  tryReturn STATUS_PENDING

end FileInfo

section

variable (q : Request) (k : Kernel)

/-- `FileAttributes` of a query -/
def Request.attributes : UInt32 :=
  if q.flag SFSD_FCB_DIRECTORY then FILE_ATTRIBUTE_NORMAL ||| FILE_ATTRIBUTE_DIRECTORY
  else FILE_ATTRIBUTE_NORMAL

/-- `SFsdGetBasicInformation(PtrFCB, PtrBuffer, &BufferLength)`. The comparison is one of
unsigned numbers. -/
def getBasicInformation : FileInfoCode := do
  let l ← getVars
  if l.bufferLength % 4294967296 < sizeofBasic then
    vars fun l => { l with RC := STATUS_BUFFER_OVERFLOW }
  else do
    update fun w => w.setBasicReply ⟨q.times.1, q.times.2.1, q.times.2.2, q.attributes⟩
    vars fun l => { l with RC := STATUS_SUCCESS, bufferLength := l.bufferLength - sizeofBasic }

/-- `FilePositionInformation` of a query -/
def getPosition : FileInfoCode := do
  update fun w => w.setPositionReply w.currentByteOffset
  vars fun l => { l with bufferLength := l.bufferLength - sizeofPosition }

/-- The classes of a query. -/
def queryClass : FileInformationClass → FileInfoCode
  | .basic => getBasicInformation q
  | .position => getPosition
  | .all => do
    vars fun l => { l with bufferLength := l.bufferLength - sizeofModes }
    getPosition
    getBasicInformation q
    when (!NT_SUCCESS (← getVars).RC) leave
  | .standard | .internal | .ea | .name | .alternateName | .compression | .stream => pure ()
  | .disposition | .rename | .link | .allocation | .endOfFile | .other =>
    FileInfo.tryReturn STATUS_INVALID_PARAMETER

/-- A page file has no use for its main resource. -/
def acquireMain : FileInfoCode :=
  when (!q.flag SFSD_FCB_PAGE_FILE) do
    let acquired ← exAcquireResource k .main (← getVars).canWait
    when (!acquired) FileInfo.tryPost
    vars fun l => { l with mainResourceAcquired := true }

/-- `IRP_MJ_QUERY_INFORMATION` -/
def queryInformation : FileInfoCode := do
  vars fun l => { l with bufferLength := q.length }
  acquireMain q k
  queryClass q q.fileInformationClass
  let l ← getVars
  act .use
  update fun w => w.setIoStatus
    (w.ioStatus.1, if NT_SUCCESS l.RC then (q.length - l.bufferLength).toNat else 0)

/-- `SFsdSetBasicInformation(PtrFCB, PtrCCB, PtrFileObject, PtrBuffer)` -/
def setBasicInformation : FileInfoCode := do
  when (q.basicInformation.creationTime ≠ 0) do
    update fun w => w.setCcbFlag SFSD_CCB_CREATE_TIME_SET
  when (q.basicInformation.fileAttributes ≠ 0) do
    update fun w => w.setTemporaryFile
      (q.basicInformation.fileAttributes &&& FILE_ATTRIBUTE_VALID_SET_FLAGS &&&
        ~~~FILE_ATTRIBUTE_NORMAL &&& FILE_ATTRIBUTE_TEMPORARY ≠ 0)
  vars fun l => { l with RC := STATUS_SUCCESS }

/-- `FilePositionInformation` that is to be set -/
def setPosition : FileInfoCode := do
  when (q.noIntermediateBuffering &&
      UInt32.ofNat (q.position % 4294967296).toNat &&& q.alignmentRequirement ≠ 0)
    (FileInfo.tryReturn STATUS_INVALID_PARAMETER)
  update fun w => w.setCurrentByteOffset q.position

/-- `FileAllocationInformation` that is to be set. The cache manager is told of the sizes
where `SFsdSetAllocationInformation` has changed one (`ModifiedAllocSize`). -/
def setAllocation : FileInfoCode := do
  let s := (← get).1.sizes
  let (RC, s') := setAllocationInformation s q.allocationSize k.canTruncate
  update fun w => w.setSizes s'
  when (q.allocationSize ≠ s.allocationSize && NT_SUCCESS RC) (call k.setFileSizes)
  vars fun l => { l with RC }

/-- The classes of information that can be set. -/
def setClass : FileInformationClass → FileInfoCode
  | .basic => setBasicInformation q
  | .position => setPosition q
  | .allocation => setAllocation q k
  | .rename | .link | .disposition | .endOfFile => pure ()
  | .standard | .internal | .ea | .name | .alternateName | .compression | .stream | .all | .other =>
    FileInfo.tryReturn STATUS_INVALID_PARAMETER

/-- The classes for which the volume is acquired. -/
def FileInformationClass.volume : FileInformationClass → Bool
  | .disposition | .rename | .link => true
  | _ => false

/-- `IRP_MJ_SET_INFORMATION` -/
def setInformation : FileInfoCode := do
  -- `PtrVCB` is `NULL`
  when q.fileInformationClass.volume nullPointer
  acquireMain q k
  let acquired ← exAcquireResource k .pagingIo (← getVars).canWait
  when (!acquired) FileInfo.tryPost
  -- `PagingIoResourceAcquired` stays `FALSE`
  setClass q k q.fileInformationClass

/-- The `try` part of `SFsdCommonFileInfo`. -/
def fileInfoBody : FileInfoCode := do
  getFCB
  let canWait ← readContext (·.canBlock)
  vars fun l => { l with canWait }
  when (q.nodeType = .vcb) (FileInfo.tryReturn STATUS_INVALID_PARAMETER)
  if q.majorFunction = .queryInformation then queryInformation q k else setInformation q k

/-- The `finally` part of `SFsdCommonFileInfo`. -/
def fileInfoFinally : FileInfoCode := do
  let l ← getVars
  when l.pagingIoResourceAcquired (releaseResource .pagingIo)
  when l.mainResourceAcquired (releaseResource .main)
  when l.vcbResourceAcquired (releaseResource .vcb)
  if l.postRequest then do
    let RC ← postRequest
    vars fun l => { l with RC }
  else do
    let exception ← readContext (·.exception)
    when (!exception) do
      act .use
      update fun w => w.setIoStatus (l.RC, w.ioStatus.2)
      releaseIrpContext
      ioCompleteRequest

/-- `SFsdCommonFileInfo(PtrIrpContext, PtrIrp)` -/
def commonFileInfo : Code NTSTATUS := locals {} do
  tryFinally (fileInfoBody q k) fileInfoFinally
  return (← getVars).RC

end

/-! ### How a pass ends -/

/-- A request that sets information about a file. -/
def Request.sets (q : Request) : Bool := q.majorFunction ≠ .queryInformation && q.nodeType = .fcb

/-- What is held with the main resource, the paging resource, or both. -/
def heldWith (main paging : Bool) : List Resource :=
  (if paging then [.pagingIo] else []) ++ if main then [.main] else []

/-- **How a pass over a request for information ends.** -/
inductive FileInfoEnds (q : Request) (wait : Bool) (RC : NTSTATUS) (w : World) : Prop
  /-- Completed, and whatever has been set, the paging resource is still held. -/
  | completed (ledger : w.ledger = some ⟨some .ioManager, false, heldWith false q.sets⟩)
      (ioStatus : w.ioStatus.1 = RC)
  /-- On the work queue. -/
  | posted (ledger : w.ledger = some ⟨some .workQueue, true, []⟩) (eq : RC = STATUS_PENDING)
      (pending : w.pending = true) (wait_eq : wait = false) (node : q.nodeType = .fcb)

/-- The request at hand, with the resources that are held. -/
structure Informing (wait main paging : Bool) (p : World × FileInfo) : Prop where
  ledger : p.1.ledger = some ⟨none, true, heldWith main paging⟩
  exception : p.1.context.exception = false
  halted : p.1.halted = none
  canWait : p.2.canWait = wait
  mainResourceAcquired : p.2.mainResourceAcquired = main
  pagingIoResourceAcquired : p.2.pagingIoResourceAcquired = false
  vcbResourceAcquired : p.2.vcbResourceAcquired = false

/-- How the `try` part ends. -/
def InformEnds (q : Request) (wait : Bool) : Exit ExceptionRecord Unit → World × FileInfo → Prop
  | .done _, p => ∃ main, Informing wait main q.sets p ∧ p.2.postRequest = false
  | .leave, p => (∃ main, Informing wait main q.sets p ∧ p.2.postRequest = false) ∨
      ∃ main, Informing wait main false p ∧ p.2.postRequest = true ∧ wait = false ∧
        q.nodeType = .fcb
  | .raised x, p => q.sets = true ∧ ∃ w main, p.1 = w.noted x ∧
      Informing wait main true (w, p.2) ∧ p.2.postRequest = false
  | .stopped, p => p.1.halted ≠ none ∧ p.1.ledger ≠ none

variable {q : Request} {k : Kernel} {w : World} {wait main paging : Bool} {p : World × FileInfo}

/-- What one class of information does: it leaves the resources and the request alone. -/
structure Looked (p p' : World × FileInfo) : Prop where
  world : Kept p.1 p'.1
  canWait : p'.2.canWait = p.2.canWait
  main : p'.2.mainResourceAcquired = p.2.mainResourceAcquired
  pagingIo : p'.2.pagingIoResourceAcquired = p.2.pagingIoResourceAcquired
  vcb : p'.2.vcbResourceAcquired = p.2.vcbResourceAcquired
  post : p'.2.postRequest = p.2.postRequest

theorem Looked.refl (p : World × FileInfo) : Looked p p :=
  ⟨⟨rfl, rfl, rfl⟩, rfl, rfl, rfl, rfl, rfl⟩

/-- It comes to its end, or to the label. -/
def Looks (p : World × FileInfo) (r : Exit ExceptionRecord Unit) (p' : World × FileInfo) : Prop :=
  (r = .done () ∨ r = .leave) ∧ Looked p p'

/-- Or it raises an exception. -/
def LooksOrRaises (p : World × FileInfo) (r : Exit ExceptionRecord Unit)
    (p' : World × FileInfo) : Prop :=
  Looks p r p' ∨ ∃ w x, Looked p (w, p'.2) ∧
    (r = .raised x ∧ p'.1 = w.noted x ∨
      r = .stopped ∧ p'.1 = ((w.noted x).enter .free).setHalted .bugCheck)

theorem Informing.looked {p' : World × FileInfo} (h : Informing wait main paging p)
    (hk : Looked p p') : Informing wait main paging p' where
  ledger := hk.world.ledger.trans h.ledger
  exception := by rw [hk.world.context, h.exception]
  halted := hk.world.halted.trans h.halted
  canWait := hk.canWait.trans h.canWait
  mainResourceAcquired := hk.main.trans h.mainResourceAcquired
  pagingIoResourceAcquired := hk.pagingIo.trans h.pagingIoResourceAcquired
  vcbResourceAcquired := hk.vcb.trans h.vcbResourceAcquired

theorem getBasicInformation_spec :
    (getBasicInformation q).wp (fun r p' => r = .done () ∧ Looked p p') p := by
  rw [getBasicInformation, wp_bind, wp_getVars, next_done, wp_ite]
  exact ⟨fun _ => ⟨rfl, ⟨rfl, rfl, rfl⟩, rfl, rfl, rfl, rfl, rfl⟩,
    fun _ => ⟨rfl, ⟨rfl, rfl, rfl⟩, rfl, rfl, rfl, rfl, rfl⟩⟩

theorem queryClass_spec (c : FileInformationClass) : (queryClass q c).wp (Looks p) p := by
  cases c
  case basic =>
    refine getBasicInformation_spec.mono ?_
    rintro r p' ⟨rfl, h⟩
    exact ⟨Or.inl rfl, h⟩
  case position => exact ⟨Or.inl rfl, ⟨rfl, rfl, rfl⟩, rfl, rfl, rfl, rfl, rfl⟩
  case all =>
    simp only [queryClass, getPosition, wp_bind, wp_vars, next_done, wp_liftM, wp_update]
    refine getBasicInformation_spec.mono ?_
    rintro r p' ⟨rfl, hw, hc, hm, hp, hv, hpost⟩
    simp
    exact ⟨fun _ => ⟨Or.inr rfl, ⟨hw.1, hw.2, hw.3⟩, hc, hm, hp, hv, hpost⟩,
      fun _ => ⟨Or.inl rfl, ⟨hw.1, hw.2, hw.3⟩, hc, hm, hp, hv, hpost⟩⟩
  all_goals first
    | exact ⟨Or.inl rfl, Looked.refl p⟩
    | exact ⟨Or.inr rfl, ⟨rfl, rfl, rfl⟩, rfl, rfl, rfl, rfl, rfl⟩

/-- Only `CcSetFileSizes` may raise an exception. -/
theorem setAllocation_spec : (setAllocation q k).wp (LooksOrRaises p) p := by
  have hlooked (s : Sizes) : Looked p (p.1.setSizes s, p.2) :=
    ⟨⟨rfl, rfl, rfl⟩, rfl, rfl, rfl, rfl, rfl⟩
  rw [setAllocation, wp_bind, wp_get, next_done]
  simp only [wp_bind, wp_liftM, wp_update, next_done, wp_when, wp_call, wp_raiseException, wp_vars]
  refine ⟨fun _ => ⟨fun _ _ => ?_, fun x _ => ⟨fun _ => ?_, fun _ => ?_⟩⟩, fun _ => ?_⟩
  · exact Or.inl ⟨Or.inl rfl, ⟨rfl, rfl, rfl⟩, rfl, rfl, rfl, rfl, rfl⟩
  · exact Or.inr ⟨_, x, hlooked _, Or.inl ⟨rfl, rfl⟩⟩
  · exact Or.inr ⟨_, x, hlooked _, Or.inr ⟨rfl, rfl⟩⟩
  · exact Or.inl ⟨Or.inl rfl, ⟨rfl, rfl, rfl⟩, rfl, rfl, rfl, rfl, rfl⟩

theorem setClass_spec (c : FileInformationClass) : (setClass q k c).wp (LooksOrRaises p) p := by
  cases c
  case basic =>
    simp [setClass, setBasicInformation]
    refine ⟨fun _ => ⟨fun _ => ?_, fun _ => ?_⟩, fun _ => ⟨fun _ => ?_, fun _ => ?_⟩⟩ <;>
    exact Or.inl ⟨Or.inl rfl, ⟨rfl, rfl, rfl⟩, rfl, rfl, rfl, rfl, rfl⟩
  case position =>
    simp [setClass, setPosition, FileInfo.tryReturn]
    exact ⟨fun _ _ => Or.inl ⟨Or.inr rfl, ⟨rfl, rfl, rfl⟩, rfl, rfl, rfl, rfl, rfl⟩,
      fun _ => Or.inl ⟨Or.inl rfl, ⟨rfl, rfl, rfl⟩, rfl, rfl, rfl, rfl, rfl⟩⟩
  case allocation => exact setAllocation_spec
  all_goals first
    | exact Or.inl ⟨Or.inl rfl, Looked.refl p⟩
    | exact Or.inl ⟨Or.inr rfl, ⟨rfl, rfl, rfl⟩, rfl, rfl, rfl, rfl, rfl⟩

/-- The main resource is acquired, or the request is to be posted. -/
theorem acquireMain_spec (h : Informing wait false false p) (hpost : p.2.postRequest = false)
    (hnode : q.nodeType = .fcb) :
    (acquireMain q k).wp (upTo (fun _ p' => ∃ main, Informing wait main false p' ∧
      p'.2.postRequest = false) (InformEnds q wait)) p := by
  have h' := h
  obtain ⟨hl, he, hh, hw, hm, hp, hv⟩ := h
  simp [acquireMain, FileInfo.tryPost, FileInfo.tryReturn, -Bool.exists_bool]
  refine ⟨fun _ => ⟨fun _ => ?_, fun hwait _ => ?_⟩, fun _ => ⟨⟨false, h'⟩, hpost⟩⟩
  · exact ⟨⟨true, ⟨by simp [hl, heldWith], he, hh, hw, rfl, hp, hv⟩⟩, hpost⟩
  · exact Or.inr ⟨false, ⟨hl, he, hh, hw, hm, hp, hv⟩, rfl, hw.symm.trans hwait, hnode⟩

/-- The paging resource comes after the main one. -/
theorem Informing.acquirePaging (h : Informing wait main false p) :
    Informing wait main true (p.1.enter (.acquire .pagingIo), p.2) := by
  obtain ⟨hl, he, hh, hw, hm, hp, hv⟩ := h
  refine ⟨?_, he, hh, hw, hm, hp, hv⟩
  rw [World.ledger_enter, hl]
  cases main <;> decide

theorem queryInformation_spec (h : Informing wait false false p) (hpost : p.2.postRequest = false)
    (hnode : q.nodeType = .fcb) (hq : q.sets = false) :
    (queryInformation q k).wp (InformEnds q wait) p := by
  refine wp.seq (P := fun _ p' => Informing wait false false p' ∧ p'.2.postRequest = false)
    ⟨h.looked ⟨⟨rfl, rfl, rfl⟩, rfl, rfl, rfl, rfl, rfl⟩, hpost⟩ ?_
  rintro - p' ⟨h, hpost⟩
  refine wp.seq (acquireMain_spec h hpost hnode) ?_
  rintro - p' ⟨main, h, hpost⟩
  rw [wp_bind]
  refine (queryClass_spec _).mono ?_
  rintro r p'' ⟨rfl | rfl, hk⟩
  · obtain ⟨hl, he, hh, hw, hm, hp, hv⟩ := h.looked hk
    simp
    exact ⟨main, ⟨by simp [hl, hq], he, hh, hw, hm, hp, hv⟩, hk.post.trans hpost⟩
  · exact Or.inl ⟨main, hq ▸ h.looked hk, hk.post.trans hpost⟩

theorem setInformation_spec (h : Informing wait false false p) (hpost : p.2.postRequest = false)
    (hnode : q.nodeType = .fcb) (hq : q.sets = true) :
    (setInformation q k).wp (InformEnds q wait) p := by
  refine wp.seq (P := fun _ p' => p' = p) ?_ ?_
  · rw [wp_when]
    refine ⟨fun _ => ?_, fun _ => rfl⟩
    rw [wp_liftM, wp_nullPointer]
    exact World.crashed_stopped h.ledger
  rintro - p' rfl
  refine wp.seq (acquireMain_spec h hpost hnode) ?_
  rintro - p' ⟨main, h, hpost⟩
  have hpaging := h.acquirePaging
  obtain ⟨hl, he, hh, hw, hm, hp, hv⟩ := h
  simp [FileInfo.tryPost, FileInfo.tryReturn]
  refine ⟨fun _ => ?_, fun hwait _ => ?_⟩
  · refine (setClass_spec _).mono ?_
    rintro r ⟨w', l'⟩ (⟨rfl | rfl, hk⟩ | ⟨w, x, hk, ⟨rfl, rfl⟩ | ⟨rfl, rfl⟩⟩)
    · exact ⟨main, hq ▸ hpaging.looked hk, hk.post.trans hpost⟩
    · exact Or.inl ⟨main, hq ▸ hpaging.looked hk, hk.post.trans hpost⟩
    · exact ⟨hq, w, main, rfl, hpaging.looked hk, hk.post.trans hpost⟩
    · exact ⟨Option.some_ne_none _, by simp [(hpaging.looked hk).ledger]⟩
  · exact Or.inr ⟨main, ⟨hl, he, hh, hw, hm, hp, hv⟩, rfl, hw.symm.trans hwait, hnode⟩

theorem fileInfoBody_spec (hl : p.1.ledger = some ⟨none, true, []⟩)
    (he : p.1.context.exception = false) (hh : p.1.halted = none) (hvars : p.2 = {}) :
    (fileInfoBody q k).wp (InformEnds q p.1.context.canBlock) p := by
  obtain ⟨w, l⟩ := p
  obtain rfl : l = {} := hvars
  simp only [fileInfoBody, wp_bind, wp_liftM, wp_getFCB, wp_readContext, next_done, wp_vars,
    wp_when, decide_eq_true_eq, decide_eq_false_iff_not]
  refine ⟨fun _ => ?_, fun _ => World.crashed_stopped hl⟩
  have h : Informing w.context.canBlock false false
      (w.enter .consult, { canWait := w.context.canBlock }) :=
    ⟨by simp_all [heldWith], he, hh, rfl, rfl, rfl, rfl⟩
  refine ⟨fun hvcb => ?_, fun hnode => ?_⟩
  · have hsets : q.sets = false := by simp [Request.sets, hvcb]
    refine Or.inl ⟨false, ?_, rfl⟩
    rw [hsets]
    exact h.looked ⟨⟨rfl, rfl, rfl⟩, rfl, rfl, rfl, rfl, rfl⟩
  · have hfcb : q.nodeType = .fcb := by
      cases hn : q.nodeType with
      | vcb => exact absurd hn hnode
      | fcb => rfl
    rw [wp_ite]
    refine ⟨fun hq => ?_, fun hq => ?_⟩
    · exact queryInformation_spec h rfl hfcb (by simp [Request.sets, hq])
    · exact setInformation_spec h rfl hfcb (by simp [Request.sets, hq, hfcb])

theorem fileInfoFinally_complete (h : Informing wait main paging p)
    (hpost : p.2.postRequest = false) :
    fileInfoFinally.wp (fun r p' => r = .done () ∧ p'.1.halted = none ∧ p'.2.RC = p.2.RC ∧
      p'.1.ledger = some ⟨some .ioManager, false, heldWith false paging⟩ ∧
      p'.1.ioStatus.1 = p.2.RC) p := by
  obtain ⟨hl, he, hh, hw, hm, hp, hv⟩ := h
  cases main <;> cases paging <;>
  simp [fileInfoFinally, releaseResource, releaseIrpContext, ioCompleteRequest, *, heldWith]

theorem fileInfoFinally_post (h : Informing wait main false p) (hpost : p.2.postRequest = true) :
    fileInfoFinally.wp (fun r p' => r = .done () ∧ p'.1.halted = none ∧
      p'.1.ledger = some ⟨some .workQueue, true, []⟩ ∧ p'.2.RC = STATUS_PENDING ∧
      p'.1.pending = true) p := by
  obtain ⟨hl, he, hh, hw, hm, hp, hv⟩ := h
  cases main <;>
  simp [fileInfoFinally, releaseResource, postRequest, ioMarkIrpPending, *, heldWith]

/-- The handler completes the request. -/
theorem fileInfoFinally_unwind {x : ExceptionRecord} (h : Informing wait main paging (w, p.2))
    (hp : p.1 = w.noted x) (hpost : p.2.postRequest = false) :
    fileInfoFinally.wp (fun r p' => r = .done () ∧ p'.1.halted = none ∧
      p'.1.context.exception = true ∧ p'.1.ledger = some ⟨none, true, heldWith false paging⟩)
      p := by
  obtain ⟨w', l⟩ := p
  obtain rfl : w' = w.noted x := hp
  obtain ⟨hl, he, hh, hw, hm, hp, hv⟩ := h
  cases main <;> cases paging <;>
  simp_all [fileInfoFinally, releaseResource, heldWith]

/-- **A pass over a request for information.** An exception leaves the paging resource held
as well. -/
theorem commonFileInfo_spec (hl : w.ledger = some ⟨none, true, []⟩)
    (he : w.context.exception = false) (hh : w.halted = none) :
    (commonFileInfo q k).wp (CommonEnds (FileInfoEnds q w.context.canBlock)
      fun w => q.sets = true ∧ w.ledger = some ⟨none, true, [.pagingIo]⟩) w := by
  rw [commonFileInfo, wp_locals, wp_bind, wp_tryFinally]
  refine (fileInfoBody_spec (p := (w, {})) hl he hh rfl).mono fun r p h => ?_
  have hcomplete (h : ∃ main, Informing w.context.canBlock main q.sets p ∧
      p.2.postRequest = false) : fileInfoFinally.wp (fun r p' => r = .done () ∧
        p'.1.halted = none ∧ FileInfoEnds q w.context.canBlock p'.2.RC p'.1) p := by
    obtain ⟨main, h, hpost⟩ := h
    refine (fileInfoFinally_complete h hpost).mono ?_
    rintro r p' ⟨rfl, hh', hRC, hl', hs⟩
    exact ⟨rfl, hh', .completed hl' (hs.trans hRC.symm)⟩
  rcases r with _ | _ | _ | _
  · rw [atFinally_done]
    refine (hcomplete h).mono ?_
    rintro r p' ⟨rfl, hh', hends⟩
    exact ⟨hh', hends⟩
  · rw [atFinally_leave]
    rcases h with h | ⟨main, h, hpost, hwait, hnode⟩
    · refine (hcomplete h).mono ?_
      rintro r p' ⟨rfl, hh', hends⟩
      exact ⟨hh', hends⟩
    · refine (fileInfoFinally_post h hpost).mono ?_
      rintro r p' ⟨rfl, hh', hl', hRC, hpend⟩
      exact ⟨hh', .posted hl' hRC hpend hwait hnode⟩
  · rw [atFinally_raised]
    obtain ⟨hq, w', main, hw', h, hpost⟩ := h
    refine (fileInfoFinally_unwind h hw' hpost).mono ?_
    rintro r p' ⟨rfl, hh', he', hl'⟩
    exact ⟨hh', he', hq, hl'⟩
  · exact h

end Sfsd

end DocumentCode
