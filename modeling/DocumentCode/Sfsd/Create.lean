import DocumentCode.Sfsd.Transfer

/-!
# Opening

`SFsdCommonCreate`. What cannot wait is posted. What can acquires the volume, and is
refused, or opens the volume, or has the name of the root directory; any other name leads
into a loop that is never left, with the volume acquired.

The main statement is `DocumentCode.Sfsd.commonCreate_spec`: how a pass over a create can
end, which opens are reported as successful, and which are in the loop.
-/

namespace DocumentCode

namespace Sfsd

open Seh

def FILE_VALID_OPTION_FLAGS : UInt32 := 0x00ffffff
def FILE_DIRECTORY_FILE : UInt32 := 0x00000001
def FILE_WRITE_THROUGH : UInt32 := 0x00000002
def FILE_NON_DIRECTORY_FILE : UInt32 := 0x00000040

def FILE_SUPERSEDE : ℕ := 0
def FILE_OPEN : ℕ := 1
def FILE_OPEN_IF : ℕ := 3
def FILE_OVERWRITE : ℕ := 4
def FILE_OVERWRITE_IF : ℕ := 5

/-- `FILE_OPENED`, which is reported for a volume. -/
def FILE_OPENED : ℕ := 1

def SFSD_CCB_VOLUME_OPEN : UInt32 := 0x00000100

/-- `L'\\'` -/
def backslash : UInt16 := 0x5C

/-! ### Names and options -/

namespace Open

variable (c : Open)

/-- `RequestedOptions & m` -/
def option (m : UInt32) : Bool := c.options &&& FILE_VALID_OPTION_FLAGS &&& m ≠ 0

/-- `RequestedDisposition`. The source has `(Options >> 24) && 0xFF`, which is a truth
value. -/
def disposition : ℕ := if c.options >>> 24 ≠ 0 then 1 else 0

/-- A name of length zero, relative to the volume or to nothing. -/
def opensVolume : Bool :=
  c.target.length = 0 && match c.related with
    | none => true
    | some r => r.nodeType = .vcb

end Open

/-- `RtlAppendUnicodeToString(&AbsolutePathName, Source)`, for the lengths in bytes: the
string stays as it is where `Source` does not fit. -/
def appendLength (maximumLength length source : ℕ) : ℕ :=
  if length + source ≤ maximumLength then length + source else length

/-- Twice the number of characters before the terminating null. -/
def sourceLength (buffer : List UInt16) : ℕ := 2 * (buffer.takeWhile (· ≠ 0)).length

/-- `AbsolutePathName.Length`, once the name has been put together. The length of the
buffer of a relative name is a `USHORT`. -/
def Open.pathLength (c : Open) : ℕ :=
  match c.related with
  | some r =>
    let maximumLength := (c.target.length + r.name.length + 2) % 65536
    appendLength maximumLength (appendLength maximumLength r.name.length 2)
      (sourceLength c.target.buffer)
  | none => c.target.length

/-- The name can be put together. -/
def Open.wellFormed (c : Open) : Bool :=
  match c.related with
  | some r =>
    r.nodeType = .fcb && r.fcbFlags &&& SFSD_FCB_DIRECTORY ≠ 0 && r.name.length ≠ 0 &&
      r.name.buffer.head? = some backslash &&
      (c.target.length = 0 || c.target.buffer.head? ≠ some backslash) &&
      r.name.length ≤ (c.target.length + r.name.length + 2) % 65536
  | none => c.target.buffer.head? = some backslash

/-- `PtrRelatedCCB == NULL`: the name is relative to a file that has not been opened. -/
def Open.relatedNull (c : Open) : Bool := c.related.any fun r => !r.fsContext

/-- There is nothing to refuse before the name is looked up, and it is not that of the root
directory. -/
def Open.looksUp (c : Open) : Bool :=
  !c.relatedNull && c.allocationHigh = 0 && !c.volumeLocked && !c.opensVolume && c.wellFormed &&
    c.pathLength ≠ 2

/-! ### The routine -/

/-- The local variables of `SFsdCommonCreate`. -/
structure Create where
  RC : NTSTATUS := STATUS_SUCCESS
  returnedInformation : ℕ
  acquiredVCB : Bool := false
  writeThroughRequested : Bool := false
  /-- `AbsolutePathName.Length` -/
  pathLength : ℕ := 0

abbrev CreateCode := Seh ExceptionRecord (World × Create) Unit

namespace Create

/-- `try_return(RC)` -/
def tryReturn (RC : NTSTATUS) : CreateCode := do
  vars fun l => { l with RC }
  leave

end Create

section

variable (q : Request) (k : Kernel)

/-- What is checked before the volume is acquired. -/
def createArguments : CreateCode := do
  let canBlock ← readContext (·.canBlock)
  when (!canBlock) do
    let RC ← postRequest
    Create.tryReturn RC
  -- `PtrRelatedCCB->PtrFCB`
  when q.create.relatedNull nullPointer
  when (q.create.allocationHigh ≠ 0) (Create.tryReturn STATUS_INVALID_PARAMETER)
  vars fun l => { l with writeThroughRequested := q.create.option FILE_WRITE_THROUGH }

/-- The volume is acquired, and must not be locked. -/
def createAcquire : CreateCode := do
  let _ ← exAcquireResource k .vcb true
  vars fun l => { l with acquiredVCB := true }
  when q.create.volumeLocked (Create.tryReturn STATUS_ACCESS_DENIED)

/-- `SFsdOpenVolume(PtrVCB, ...)` -/
def openVolume : CreateCode := do
  when (!k.ccbZone && !k.pool) (halt .bugCheck)
  update fun w => w.openVolume SFSD_CCB_VOLUME_OPEN
  setIoStatus (← get).1.ioStatus.1 FILE_OPENED

/-- A request to open the volume itself. -/
def createVolume : CreateCode :=
  when q.create.opensVolume do
    when (q.create.openTargetDirectory || q.create.extAttrBuffer)
      (Create.tryReturn STATUS_INVALID_PARAMETER)
    when (q.create.option FILE_DIRECTORY_FILE) (Create.tryReturn STATUS_NOT_A_DIRECTORY)
    when (q.create.disposition ≠ FILE_OPEN && q.create.disposition ≠ FILE_OPEN_IF)
      (Create.tryReturn STATUS_ACCESS_DENIED)
    openVolume k
    vars fun l => { l with returnedInformation := FILE_OPENED }
    Create.tryReturn STATUS_SUCCESS

/-- `AbsolutePathName`, for a name that is relative to another. -/
def relativePath (r : Related) : CreateCode := do
  -- `FCBFlags` of what may be a VCB
  when (r.nodeType = .vcb) (halt .undefined)
  when (r.fcbFlags &&& SFSD_FCB_DIRECTORY = 0) (Create.tryReturn STATUS_INVALID_PARAMETER)
  when (r.name.length = 0 || r.name.buffer.head? ≠ some backslash)
    (Create.tryReturn STATUS_INVALID_PARAMETER)
  when (q.create.target.length ≠ 0 && q.create.target.buffer.head? = some backslash)
    (Create.tryReturn STATUS_INVALID_PARAMETER)
  when (!k.pool) (Create.tryReturn STATUS_INSUFFICIENT_RESOURCES)
  -- `RtlCopyMemory` into a buffer of `MaximumLength`, a `USHORT`
  when ((q.create.target.length + r.name.length + 2) % 65536 < r.name.length) (halt .undefined)
  vars fun l => { l with pathLength := q.create.pathLength }

/-- `AbsolutePathName`, for a name that is not relative. -/
def absolutePath : CreateCode := do
  when (q.create.target.buffer.head? ≠ some backslash) (Create.tryReturn STATUS_INVALID_PARAMETER)
  when (!k.pool) (Create.tryReturn STATUS_INSUFFICIENT_RESOURCES)
  vars fun l => { l with pathLength := q.create.pathLength }

/-- `AbsolutePathName` -/
def createPath : CreateCode :=
  match q.create.related with
  | some r => relativePath q k r
  | none => absolutePath q k

/-- A name of two bytes is that of the root directory, which is taken for opened. The loop
that should look up any other name is empty. -/
def createLookup : CreateCode := do
  if (← getVars).pathLength = 2 then do
    when (q.create.option FILE_NON_DIRECTORY_FILE || q.create.disposition = FILE_SUPERSEDE ||
        q.create.disposition = FILE_OVERWRITE || q.create.disposition = FILE_OVERWRITE_IF)
      (Create.tryReturn STATUS_FILE_IS_A_DIRECTORY)
    leave
  else
    halt .loop

/-- The `try` part of `SFsdCommonCreate`. -/
def createBody : CreateCode := do
  createArguments q
  createAcquire q k
  createVolume q k
  createPath q k
  createLookup q

/-- The end of a request that has not been posted. -/
def createEnd : CreateCode := do
  let l ← getVars
  when (NT_SUCCESS l.RC && l.writeThroughRequested) (update World.setWriteThrough)
  let exception ← readContext (·.exception)
  when (!exception) do
    setIoStatus l.RC l.returnedInformation
    releaseIrpContext
    ioCompleteRequest

/-- The `finally` part of `SFsdCommonCreate`. -/
def createFinally : CreateCode := do
  when ((← getVars).RC ≠ STATUS_PENDING) createEnd
  when (← getVars).acquiredVCB (releaseResource .vcb)

/-- `SFsdCommonCreate(PtrIrpContext, PtrIrp)` -/
def commonCreate : Code NTSTATUS := locals { returnedInformation := k.stack } do
  tryFinally (createBody q k) createFinally
  return (← getVars).RC

end

/-! ### How a pass ends -/

/-- How an open may be reported as successful: the volume is open, or the name is that of
the root directory and nothing is. -/
def OpenedBy (q : Request) (w : World) : Prop :=
  q.create.opensVolume = true ∧ w.fsContext = true ∨
    q.create.opensVolume = false ∧ q.create.pathLength = 2 ∧ w.fsContext = false

/-- **How a pass over a create ends.** -/
inductive CreateEnds (q : Request) (wait : Bool) (RC : NTSTATUS) (w : World) : Prop
  /-- Completed, with the status that is returned. -/
  | completed (ledger : w.ledger = some ⟨some .ioManager, false, []⟩) (ioStatus : w.ioStatus.1 = RC)
      (ne : RC ≠ STATUS_PENDING) (success : NT_SUCCESS RC = true → OpenedBy q w)
  /-- On the work queue. -/
  | posted (ledger : w.ledger = some ⟨some .workQueue, true, []⟩) (eq : RC = STATUS_PENDING)
      (pending : w.pending = true) (wait_eq : wait = false)
      (exception : w.context.exception = false)
      (fsContext : w.fsContext = false)

/-- What is held with the volume. -/
def heldVcb (acquired : Bool) : List Resource := if acquired then [.vcb] else []

/-- The create at hand. -/
structure Opening (acquired : Bool) (p : World × Create) : Prop where
  ledger : p.1.ledger = some ⟨none, true, heldVcb acquired⟩
  exception : p.1.context.exception = false
  halted : p.1.halted = none
  acquiredVCB : p.2.acquiredVCB = acquired

/-- How the `try` part ends. -/
def OpenEnds (q : Request) (wait : Bool) : Exit ExceptionRecord Unit → World × Create → Prop
  | .done _, _ => False
  | .leave, p =>
    (∃ acquired, Opening acquired p ∧ p.2.RC ≠ STATUS_PENDING ∧
      (NT_SUCCESS p.2.RC = true → OpenedBy q p.1)) ∨
    (p.1.ledger = some ⟨some .workQueue, true, []⟩ ∧ p.1.halted = none ∧
      p.2.RC = STATUS_PENDING ∧ p.1.pending = true ∧ p.2.acquiredVCB = false ∧ wait = false ∧
      p.1.context.exception = false ∧ p.1.fsContext = false)
  | .raised _, _ => False
  | .stopped, p => (p.1.halted ≠ none ∧ p.1.ledger ≠ none) ∧
      (p.1.halted = some .loop →
        p.1.ledger = some ⟨none, true, [.vcb]⟩ ∧ q.create.looksUp = true ∧ wait = true)

variable {q : Request} {k : Kernel} {w : World} {wait acquired : Bool} {p : World × Create}

/-- A create that is refused. -/
theorem tryReturn_spec {RC : NTSTATUS} {P : World × Create → Prop} (h : Opening acquired p)
    (hRC : NT_SUCCESS RC = false) :
    (Create.tryReturn RC).wp (upTo (fun _ => P) (OpenEnds q wait)) p := by
  obtain ⟨hl, he, hh, ha⟩ := h
  refine Or.inl ⟨acquired, ⟨hl, he, hh, ha⟩, fun hcon => ?_, fun hcon => ?_⟩
  · replace hcon : RC = STATUS_PENDING := hcon
    rw [hcon] at hRC
    exact absurd hRC (by decide)
  · exact absurd (hRC.symm.trans hcon) (by decide)

/-- A test that may refuse a create. -/
theorem refuse_spec {b : Bool} {RC : NTSTATUS} (h : Opening acquired p)
    (hRC : NT_SUCCESS RC = false) :
    (when b (Create.tryReturn RC)).wp (upTo (fun _ p' => p' = p ∧ b = false) (OpenEnds q wait))
      p := by
  rw [wp_when]
  exact ⟨fun _ => tryReturn_spec h hRC, fun hb => ⟨rfl, hb⟩⟩

/-- The file that the name is relative to has been opened. -/
theorem relatedNull_spec (h : Opening false p) :
    (when q.create.relatedNull nullPointer : CreateCode).wp
      (upTo (fun _ p' => p' = p ∧ q.create.relatedNull = false) (OpenEnds q wait)) p := by
  rw [wp_when, wp_liftM, wp_nullPointer]
  exact ⟨fun _ => ⟨World.crashed_stopped h.ledger, by simp⟩, fun hrelated => ⟨rfl, hrelated⟩⟩

theorem createArguments_spec (hl : w.ledger = some ⟨none, true, []⟩)
    (he : w.context.exception = false) (hh : w.halted = none) (hf : w.fsContext = false)
    (info : ℕ) :
    (createArguments q).wp (upTo (fun _ p' => Opening false p' ∧ p'.1.fsContext = false ∧
      p'.2.RC = STATUS_SUCCESS ∧ w.context.canBlock = true ∧ q.create.relatedNull = false ∧
      q.create.allocationHigh = 0) (OpenEnds q w.context.canBlock))
      (w, { returnedInformation := info }) := by
  rw [createArguments, wp_bind, wp_liftM, wp_readContext, next_done]
  refine wp.seq (P := fun _ p' => p' = (w.enter .consult, { returnedInformation := info }) ∧
    w.context.canBlock = true) ?_ ?_
  · simp [postRequest, ioMarkIrpPending, Create.tryReturn]
    exact fun hwait => Or.inr ⟨by simp [hl], by simp [hh], rfl, rfl, rfl, hwait, he, hf⟩
  rintro - p ⟨rfl, hwait⟩
  have h : Opening false (w.enter .consult, ({ returnedInformation := info } : Create)) :=
    ⟨by simp [hl, heldVcb], he, hh, rfl⟩
  refine wp.seq (relatedNull_spec h) ?_
  rintro - p ⟨rfl, hrelated⟩
  refine wp.seq (refuse_spec h (by decide)) ?_
  rintro - p ⟨rfl, hhigh⟩
  obtain ⟨hl, he, hh, ha⟩ := h
  exact ⟨⟨hl, he, hh, ha⟩, hf, rfl, hwait, hrelated, by simpa using hhigh⟩

theorem createAcquire_spec (h : Opening false p) (hf : p.1.fsContext = false) :
    (createAcquire q k).wp (upTo (fun _ p' => Opening true p' ∧ p'.1.fsContext = false ∧
      p'.2.RC = p.2.RC ∧ q.create.volumeLocked = false) (OpenEnds q wait)) p := by
  obtain ⟨hl, he, hh, ha⟩ := h
  have h' : Opening true (p.1.enter (.acquire .vcb), { p.2 with acquiredVCB := true }) :=
    ⟨by simp [hl, heldVcb], he, hh, rfl⟩
  refine wp.seq (P := fun _ p' => p' = (p.1.enter (.acquire .vcb), p.2)) ?_ ?_
  · simp
  rintro - p' rfl
  rw [wp_bind, wp_vars, next_done]
  refine (refuse_spec h' (by decide)).weaken ?_
  rintro - p' ⟨rfl, hlocked⟩
  exact ⟨h', hf, rfl, hlocked⟩

theorem createVolume_spec (h : Opening true p) :
    (createVolume q k).wp (upTo (fun _ p' => p' = p ∧ q.create.opensVolume = false)
      (OpenEnds q wait)) p := by
  rw [createVolume, wp_when]
  refine ⟨fun hvolume => ?_, fun hvolume => ⟨rfl, hvolume⟩⟩
  refine wp.seq (P := fun _ p' => p' = p) ?_ ?_
  · rw [upTo_upTo]
    exact (refuse_spec h (by decide)).weaken fun _ _ hp => hp.1
  rintro - p' rfl
  refine wp.seq (P := fun _ p'' => p'' = p') ?_ ?_
  · rw [upTo_upTo]
    exact (refuse_spec h (by decide)).weaken fun _ _ hp => hp.1
  rintro - p rfl
  refine wp.seq (P := fun _ p' => p' = p) ?_ ?_
  · rw [upTo_upTo]
    exact (refuse_spec h (by decide)).weaken fun _ _ hp => hp.1
  rintro - p' rfl
  obtain ⟨hl, he, hh, ha⟩ := h
  simp [openVolume, setIoStatus, Create.tryReturn]
  refine ⟨fun _ _ => ⟨⟨Option.some_ne_none _, by simp [hl]⟩, by simp⟩, fun _ => ?_⟩
  exact Or.inl ⟨true, ⟨by simp [hl], he, hh, ha⟩, STATUS_SUCCESS_ne, fun _ =>
    Or.inl ⟨hvolume, rfl⟩⟩

/-- What the parts that put the name together leave behind. -/
structure Named (q : Request) (RC : NTSTATUS) (p : World × Create) : Prop where
  opening : Opening true p
  fsContext : p.1.fsContext = false
  pathLength : p.2.pathLength = q.create.pathLength
  RC : p.2.RC = RC
  wellFormed : q.create.wellFormed = true

theorem relativePath_spec {r : Related} (h : Opening true p) (hf : p.1.fsContext = false)
    (hr : q.create.related = some r) :
    (relativePath q k r).wp (upTo (fun _ => Named q p.2.RC) (OpenEnds q wait)) p := by
  have hundefined (b : Bool) : (when b (halt .undefined) : CreateCode).wp
      (upTo (fun _ p' => p' = p ∧ b = false) (OpenEnds q wait)) p := by
    rw [wp_when, wp_liftM, wp_halt]
    exact ⟨fun _ => ⟨⟨Option.some_ne_none _, by simp [h.ledger]⟩, by simp⟩, fun hb => ⟨rfl, hb⟩⟩
  refine wp.seq (hundefined _) ?_
  rintro - p' ⟨rfl, hnode⟩
  refine wp.seq (refuse_spec h (by decide)) ?_
  rintro - p ⟨rfl, hdir⟩
  refine wp.seq (refuse_spec h (by decide)) ?_
  rintro - p' ⟨rfl, hname⟩
  refine wp.seq (refuse_spec h (by decide)) ?_
  rintro - p ⟨rfl, htarget⟩
  refine wp.seq (refuse_spec h (by decide)) ?_
  rintro - p' ⟨rfl, -⟩
  refine wp.seq (hundefined _) ?_
  rintro - p ⟨rfl, hlength⟩
  obtain ⟨hl, he, hh, ha⟩ := h
  refine ⟨⟨hl, he, hh, ha⟩, hf, rfl, rfl, ?_⟩
  have hfcb : r.nodeType = .fcb := by
    cases hn : r.nodeType with
    | vcb => simp [hn] at hnode
    | fcb => rfl
  rw [Open.wellFormed, hr]
  simp_all [or_iff_not_imp_left]

theorem absolutePath_spec (h : Opening true p) (hf : p.1.fsContext = false)
    (hr : q.create.related = none) :
    (absolutePath q k).wp (upTo (fun _ => Named q p.2.RC) (OpenEnds q wait)) p := by
  refine wp.seq (refuse_spec h (by decide)) ?_
  rintro - p' ⟨rfl, htarget⟩
  refine wp.seq (refuse_spec h (by decide)) ?_
  rintro - p ⟨rfl, -⟩
  obtain ⟨hl, he, hh, ha⟩ := h
  refine ⟨⟨hl, he, hh, ha⟩, hf, rfl, rfl, ?_⟩
  rw [Open.wellFormed, hr]
  simpa using htarget

theorem createPath_spec (h : Opening true p) (hf : p.1.fsContext = false) :
    (createPath q k).wp (upTo (fun _ => Named q p.2.RC) (OpenEnds q wait)) p := by
  rw [createPath]
  cases hr : q.create.related with
  | none => exact absolutePath_spec h hf hr
  | some r => exact relativePath_spec h hf hr

theorem createLookup_spec (h : Named q STATUS_SUCCESS p) (hwait : wait = true)
    (hrelated : q.create.relatedNull = false) (hhigh : q.create.allocationHigh = 0)
    (hlocked : q.create.volumeLocked = false) (hvolume : q.create.opensVolume = false) :
    (createLookup q).wp (OpenEnds q wait) p := by
  rw [createLookup, wp_bind, wp_getVars, next_done, wp_ite, h.pathLength]
  refine ⟨fun hroot => ?_, fun hroot => ?_⟩
  · refine wp.seq (refuse_spec h.opening (by decide)) ?_
    rintro - p' ⟨rfl, -⟩
    exact Or.inl ⟨true, h.opening, h.RC ▸ STATUS_SUCCESS_ne,
      fun _ => Or.inr ⟨hvolume, hroot, h.fsContext⟩⟩
  · rw [wp_liftM, wp_halt]
    refine ⟨⟨Option.some_ne_none _, by simp [h.opening.ledger]⟩,
      fun _ => ⟨h.opening.ledger, ?_, hwait⟩⟩
    simp [Open.looksUp, hrelated, hhigh, hlocked, hvolume, h.wellFormed, hroot]

theorem createBody_spec (hl : w.ledger = some ⟨none, true, []⟩)
    (he : w.context.exception = false) (hh : w.halted = none) (hf : w.fsContext = false)
    (info : ℕ) :
    (createBody q k).wp (OpenEnds q w.context.canBlock) (w, { returnedInformation := info }) := by
  refine wp.seq (createArguments_spec hl he hh hf info) ?_
  rintro - p ⟨h, hf, hRC, hwait, hrelated, hhigh⟩
  refine wp.seq (createAcquire_spec h hf) ?_
  rintro - p ⟨h, hf, hRC', hlocked⟩
  refine wp.seq (createVolume_spec h) ?_
  rintro - p' ⟨rfl, hvolume⟩
  refine wp.seq (createPath_spec h hf) ?_
  rintro - p h
  exact createLookup_spec ((hRC'.trans hRC) ▸ h) hwait hrelated hhigh hlocked hvolume

/-- The request is completed, the volume still being held. -/
theorem createEnd_spec (h : Opening acquired p) :
    createEnd.wp (fun r p' => r = .done () ∧ p'.1.halted = none ∧
      p'.1.ledger = some ⟨some .ioManager, false, heldVcb acquired⟩ ∧ p'.1.ioStatus.1 = p.2.RC ∧
      p'.1.fsContext = p.1.fsContext ∧ p'.2 = p.2) p := by
  obtain ⟨hl, he, hh, ha⟩ := h
  rw [createEnd, wp_bind, wp_getVars, next_done]
  refine wp.seq (P := fun _ p' => Kept p.1 p'.1 ∧ p'.1.fsContext = p.1.fsContext ∧ p'.2 = p.2)
    ?_ ?_
  · rw [wp_when]
    exact ⟨fun _ => ⟨⟨rfl, rfl, rfl⟩, rfl, rfl⟩, fun _ => ⟨⟨rfl, rfl, rfl⟩, rfl, rfl⟩⟩
  rintro - p' ⟨⟨hl', hc', hh'⟩, hf', hvars⟩
  simp [setIoStatus, releaseIrpContext, ioCompleteRequest, hl', hc', hh', hl, he, hh, hf', hvars]

/-- Where the request has been completed, or is on the work queue. -/
theorem createFinally_spec (hp : OpenEnds q wait .leave p) :
    createFinally.wp (fun r p' => r = .done () ∧ p'.1.halted = none ∧
      CreateEnds q wait p'.2.RC p'.1) p := by
  rw [createFinally, wp_bind, wp_getVars, next_done]
  rcases hp with ⟨acquired, h, hRC, hsuccess⟩ | ⟨hl, hh, hRC, hpend, ha, hwait, he, hf⟩
  · refine wp.seq (P := fun _ p' => p'.1.halted = none ∧
      p'.1.ledger = some ⟨some .ioManager, false, heldVcb acquired⟩ ∧ p'.1.ioStatus.1 = p.2.RC ∧
      p'.1.fsContext = p.1.fsContext ∧ p'.2 = p.2) ?_ ?_
    · rw [wp_when]
      refine ⟨fun _ => (createEnd_spec h).mono ?_, fun hcon => absurd hRC (by simpa using hcon)⟩
      rintro r p' ⟨rfl, h'⟩
      exact h'
    · rintro - p' ⟨hh', hl', hs, hf', hvars⟩
      have hends : ∀ w, w.ledger = some ⟨some .ioManager, false, []⟩ → w.ioStatus = p'.1.ioStatus →
          w.fsContext = p'.1.fsContext → CreateEnds q wait p.2.RC w := by
        intro w hlw hsw hfw
        refine .completed hlw (by rw [hsw, hs]) hRC fun hsuccess' => ?_
        simpa only [OpenedBy, hfw, hf'] using hsuccess hsuccess'
      rw [wp_bind, wp_getVars, next_done, wp_when, hvars, h.acquiredVCB]
      refine ⟨fun hv => ⟨rfl, hh', ?_⟩, fun hv => ⟨rfl, hh', ?_⟩⟩
      · exact hvars ▸ hends (p'.1.enter (.release .vcb)) (by simp [hl', hv, heldVcb]) rfl rfl
      · exact hvars ▸ hends _ (by rw [hl', hv]; rfl) rfl rfl
  · simp [hRC, ha, hh]
    exact .posted hl rfl hpend hwait he hf

/-- **A pass over a create.** The loop is entered by a thread that may wait, with the volume
acquired, and for a name that is to be looked up. -/
theorem commonCreate_spec (hl : w.ledger = some ⟨none, true, []⟩)
    (he : w.context.exception = false) (hh : w.halted = none) (hf : w.fsContext = false) :
    (commonCreate q k).wp (fun r w' =>
      CommonEnds (CreateEnds q w.context.canBlock) (fun _ => False) r w' ∧
        (w'.halted = some .loop → w'.ledger = some ⟨none, true, [.vcb]⟩ ∧
          q.create.looksUp = true ∧ w.context.canBlock = true)) w := by
  rw [commonCreate, wp_locals, wp_bind, wp_tryFinally]
  refine (createBody_spec hl he hh hf k.stack).mono fun r p hp => ?_
  rcases r with _ | _ | _ | _
  · exact hp.elim
  · rw [atFinally_leave]
    refine (createFinally_spec hp).mono ?_
    rintro r p' ⟨rfl, hh', hends⟩
    exact ⟨⟨hh', hends⟩, fun hloop => absurd (hh'.symm.trans hloop) (by simp)⟩
  · exact hp.elim
  · exact hp

end Sfsd

end DocumentCode
