import DocumentCode.Sfsd.Misc

/-!
# What reads and writes have in common

`SFsdCommonRead` and `SFsdCommonWrite` are one `try` block each, with a `finally` part
that decides by four local variables what becomes of the request: `PostRequest`,
`CompleteIrp`, `RC` and the resource that has been acquired. This module holds the parts
of the block that the two routines share, and for each part what it may leave behind:
it comes to its last line with the request still at hand
(`DocumentCode.Sfsd.Running`), or at the label `try_exit` with one of three things to be
done (`DocumentCode.Sfsd.AtTryExit`), or it raises an exception with the resource still
held.
-/

namespace DocumentCode

namespace Sfsd

open Seh

/-! ### The caller's buffer -/

/-- `SFsdLockCallersBuffer(PtrIrp, ...)` -/
def lockCallersBuffer (k : Kernel) : Code NTSTATUS := do
  if (← get).mdlAddress then
    return STATUS_SUCCESS
  else if !k.mdl then
    return STATUS_INSUFFICIENT_RESOURCES
  else do
    -- `IoAllocateMdl` stores the MDL in the packet
    act .use
    update fun w => w.setMdlAddress true
    match k.probe with
    | .ok () => return STATUS_SUCCESS
    | .error _ => do
      act .use
      update fun w => w.setMdlAddress false
      return STATUS_INVALID_USER_BUFFER

/-- `SFsdMdlComplete(PtrIrpContext, PtrIrp, PtrIoStackLocation, ...)` -/
def mdlComplete : Code Unit := do
  act .use
  update fun w => w.setMdlAddress false
  releaseIrpContext
  setIoStatus STATUS_SUCCESS 0
  ioCompleteRequest

/-! ### Parts of the routines -/

/-- The local variables of `SFsdCommonRead`, and of `SFsdCommonWrite`. -/
structure Transfer where
  RC : NTSTATUS := STATUS_SUCCESS
  /-- `NumberBytesRead`, or `NumberBytesWritten` -/
  numberBytes : ℕ := 0
  /-- `TruncatedReadLength`, or `TruncatedWriteLength` -/
  truncatedLength : ℕ := 0
  ptrResourceAcquired : Option Resource := none
  completeIrp : Bool := true
  postRequest : Bool := false
  canWait : Bool := false
  pagingIo : Bool := false
  nonBufferedIo : Bool := false
  synchronousIo : Bool := false
  deriving DecidableEq, Repr

/-- Code of one of these routines. -/
abbrev TransferCode := Seh ExceptionRecord (World × Transfer) Unit

/-- `try_return(RC)` -/
def tryReturn (RC : NTSTATUS) : TransferCode := do
  vars fun l => { l with RC }
  leave

/-- `CompleteIrp = FALSE; PostRequest = TRUE; try_return(RC = STATUS_PENDING)` -/
def tryPost : TransferCode := do
  vars fun l => { l with completeIrp := false, postRequest := true }
  tryReturn STATUS_PENDING

/-- `IoMarkIrpPending(PtrIrp); CompleteIrp = FALSE; try_return(RC = STATUS_PENDING)`, where
the request should be sent on to the disk. -/
def tryPending : TransferCode := do
  ioMarkIrpPending
  vars fun l => { l with completeIrp := false }
  tryReturn STATUS_PENDING

/-- Release the resource that has been acquired. -/
def releaseAcquired : TransferCode := do
  match (← getVars).ptrResourceAcquired with
  | some r => releaseResource r
  | none => pure ()

/-- Acquire the resource, or have the request posted. -/
def acquireOrPost (k : Kernel) (r : Resource) : TransferCode := do
  if ← exAcquireResource k r (← getVars).canWait then
    vars fun l => { l with ptrResourceAcquired := some r }
  else
    tryPost

section

variable (q : Request) (k : Kernel)

/-- The minor functions that are not transfers. -/
def transferMinor : TransferCode := do
  when (q.minor IRP_MN_COMPLETE) do
    mdlComplete
    vars fun l => { l with completeIrp := false }
    tryReturn STATUS_SUCCESS
  when (q.minor IRP_MN_DPC) tryPost

/-- The arguments of the request. -/
def transferArguments : TransferCode := do
  let canWait ← readContext (·.canBlock)
  vars fun l => { l with
    canWait
    pagingIo := q.pagingIo
    nonBufferedIo := q.noCache
    synchronousIo := q.synchronousIo }
  when (q.length = 0) leave

/-- A transfer from or to the volume itself. -/
def transferVolume : TransferCode :=
  when (q.nodeType = .vcb) do
    acquireOrPost k .vcb
    let RC ← lockCallersBuffer k
    tryReturn RC

/-- What cannot be read or written here. -/
def transferKind : TransferCode := do
  when (q.flag SFSD_FCB_PAGE_FILE) tryPending
  when (q.flag SFSD_FCB_DIRECTORY) (tryReturn STATUS_INVALID_DEVICE_REQUEST)

/-- `CcFlushCache(..., &(PtrIrp->IoStatus))`, and out with its status if it failed. -/
def flushCache : TransferCode := do
  setIoStatus k.flushCache.status k.flushCache.information
  vars fun l => { l with RC := k.flushCache.status }
  when (!NT_SUCCESS k.flushCache.status) leave

/-- The resource of the file that is acquired. -/
def transferAcquire : TransferCode := do
  if (← getVars).pagingIo then
    acquireOrPost k .pagingIo
  else
    acquireOrPost k .main

/-- `CcInitializeCacheMap`, for the first transfer of a file object. -/
def transferCacheMap : TransferCode := do
  when (!(← get).1.privateCacheMap) do
    call k.initializeCacheMap
    update World.setPrivateCacheMap

/-- `CcMdlRead`, or `CcPrepareMdlWrite`, whose status is that of the request. -/
def transferMdl : TransferCode :=
  when (q.minor IRP_MN_MDL) do
    let s ← call k.mdlTransfer
    let l ← getVars
    update fun w => w.addCacheLength l.truncatedLength
    setIoStatus s.status s.information
    vars fun l => { l with numberBytes := s.information }
    tryReturn s.status

/-- What a request leaves with its file object and, by `ccb`, its CCB. -/
def transferNote (ccb : World → World) : TransferCode := do
  let l ← getVars
  when (l.synchronousIo && !l.pagingIo && NT_SUCCESS l.RC) do
    update fun w => w.setCurrentByteOffset (q.byteOffset + l.numberBytes)
  when (NT_SUCCESS l.RC && !l.pagingIo) (update ccb)

/-- The end of a request that is to be completed. -/
def transferEnd (ccb : World → World) : TransferCode := do
  transferNote q ccb
  releaseAcquired
  let exception ← readContext (·.exception)
  when (!exception) do
    setIoStatus (← getVars).RC (← getVars).numberBytes
    releaseIrpContext
    ioCompleteRequest

end

/-- The resource of the file that a transfer acquires. -/
def Request.fileResource (q : Request) : Resource := if q.pagingIo then .pagingIo else .main

/-- A read or write, and one that is not of length zero. -/
def Request.transfers (q : Request) : Prop :=
  q.minor IRP_MN_COMPLETE = false ∧ q.minor IRP_MN_DPC = false ∧ q.length ≠ 0

/-- A read or write that may be posted. -/
def Request.posts (q : Request) (wait : Bool) : Prop :=
  q.minor IRP_MN_COMPLETE = false ∧ (q.minor IRP_MN_DPC = true ∨ wait = false ∧ q.length ≠ 0 ∧
    (q.nodeType = .vcb ∨ q.flag SFSD_FCB_PAGE_FILE = false ∧ q.flag SFSD_FCB_DIRECTORY = false))

/-! ### How a `try` block is left -/

/-- The request at hand: nothing has been done about its end so far. -/
structure Running (wait : Bool) (acquired : Option Resource) (p : World × Transfer) : Prop where
  ledger : p.1.ledger = some ⟨none, true, acquired.toList⟩
  canBlock : p.1.context.canBlock = wait
  exception : p.1.context.exception = false
  halted : p.1.halted = none
  resource : p.2.ptrResourceAcquired = acquired
  completeIrp : p.2.completeIrp = true
  postRequest : p.2.postRequest = false
  RC : p.2.RC ≠ STATUS_PENDING

/-- The arguments have been looked at. -/
structure Arguments (q : Request) (wait : Bool) (l : Transfer) : Prop where
  canWait : l.canWait = wait
  pagingIo : l.pagingIo = q.pagingIo
  nonBufferedIo : l.nonBufferedIo = q.noCache

/-- What the label `try_exit` is reached with. `Ends` is how the routine may end. -/
inductive AtTryExit (Posts : Prop) (Ends : NTSTATUS → World → Prop) (p : World × Transfer) : Prop
  /-- Nothing is left to be done. -/
  | resting (halted : p.1.halted = none) (completeIrp : p.2.completeIrp = false)
      (postRequest : p.2.postRequest = false) (ends : Ends p.2.RC p.1)
  /-- The request is to be completed. -/
  | completing (wait : Bool) (acquired : Option Resource) (running : Running wait acquired p)
  /-- The request is to be posted. -/
  | posting (acquired : Option Resource) (ledger : p.1.ledger = some ⟨none, true, acquired.toList⟩)
      (exception : p.1.context.exception = false) (halted : p.1.halted = none)
      (resource : p.2.ptrResourceAcquired = acquired) (postRequest : p.2.postRequest = true)
    (RC : p.2.RC = STATUS_PENDING) (posts : Posts)

/-- An exception is on its way out of the `try` part. -/
structure Unwinding (p : World × Transfer) : Prop where
  ledger : p.1.ledger = some ⟨none, true, p.2.ptrResourceAcquired.toList⟩
  exception : p.1.context.exception = true
  halted : p.1.halted = none
  completeIrp : p.2.completeIrp = true
  postRequest : p.2.postRequest = false
  RC : p.2.RC ≠ STATUS_PENDING

/-- How the `try` part ends. -/
def TryEnds (Posts : Prop) (Ends : NTSTATUS → World → Prop) :
    Exit ExceptionRecord Unit → World × Transfer → Prop
  | .done _, p => AtTryExit Posts Ends p
  | .leave, p => AtTryExit Posts Ends p
  | .raised _, p => Unwinding p
  | .stopped, p => p.1.halted ≠ none ∧ p.1.ledger ≠ none

/-- The books and the context are as they were. -/
structure Kept (w w' : World) : Prop where
  ledger : w'.ledger = w.ledger
  context : w'.context = w.context
  halted : w'.halted = w.halted

variable {q : Request} {k : Kernel} {wait : Bool} {acquired : Option Resource} {r : Resource}
  {w : World} {held : List Resource} {p : World × Transfer} {Posts : Prop}
  {Ends : NTSTATUS → World → Prop}

theorem STATUS_SUCCESS_ne : STATUS_SUCCESS ≠ STATUS_PENDING := by decide

theorem Running.kept (h : Running wait acquired p) (hk : Kept p.1 w) :
    Running wait acquired (w, p.2) where
  ledger := hk.ledger.trans h.ledger
  canBlock := by rw [hk.context, h.canBlock]
  exception := by rw [hk.context, h.exception]
  halted := hk.halted.trans h.halted
  resource := h.resource
  completeIrp := h.completeIrp
  postRequest := h.postRequest
  RC := h.RC

/-- A call that raises an exception ends the `try` part. -/
theorem wp_call_of_running {β : Type} {a : Answer β} {P : β → World × Transfer → Prop}
    (h : Running wait acquired p) (hP : ∀ b, a = .ok b → P b p) :
    (liftM (call a) : Seh ExceptionRecord (World × Transfer) β).wp
      (upTo P (TryEnds Posts Ends)) p := by
  obtain ⟨hl, hb, he, hh, hr, hc, hp, hRC⟩ := h
  rw [wp_liftM, wp_call]
  refine ⟨hP, fun x _ => ?_⟩
  rw [wp_raiseException]
  refine ⟨fun _ => ?_, fun _ => ⟨Option.some_ne_none _, by simp [hl]⟩⟩
  exact ⟨by simp_all, rfl, hh, hc, hp, hRC⟩

/-- Whatever becomes of the buffer, the packet and its context stay where they are. -/
theorem lockCallersBuffer_spec (hl : w.ledger = some ⟨none, true, held⟩) :
    (lockCallersBuffer k).wp (fun r w' => ∃ RC, r = .done RC ∧ RC ≠ STATUS_PENDING ∧ Kept w w')
      w := by
  simp only [lockCallersBuffer, wp_bind, wp_get, next_done, wp_ite]
  refine ⟨fun _ => ?_, fun _ => ⟨fun _ => ?_, fun _ => ?_⟩⟩
  · exact ⟨_, rfl, by decide, rfl, rfl, rfl⟩
  · exact ⟨_, rfl, by decide, rfl, rfl, rfl⟩
  · cases k.probe with
    | ok =>
      simp
      exact ⟨by decide, by simp [hl], rfl, rfl⟩
    | error =>
      simp
      exact ⟨by decide, by simp [hl], rfl, rfl⟩

theorem releaseAcquired_spec (hl : p.1.ledger = some ⟨none, true, acquired.toList⟩)
    (hr : p.2.ptrResourceAcquired = acquired) :
    releaseAcquired.wp (fun r p' => r = .done () ∧ p'.1.ledger = some ⟨none, true, []⟩ ∧
      p'.1.context = p.1.context ∧ p'.1.halted = p.1.halted ∧ p'.2 = p.2) p := by
  rw [releaseAcquired, wp_bind, wp_getVars, next_done, hr]
  cases acquired with
  | none => exact ⟨rfl, hl, rfl, rfl, rfl⟩
  | some r =>
    simp [releaseResource]
    simp_all

theorem tryPending_spec (h : Running wait acquired p)
    (hends : ∀ w, w.ledger = some ⟨none, true, acquired.toList⟩ → w.pending = true →
      Ends STATUS_PENDING w) : tryPending.wp (upTo (fun _ _ => False) (TryEnds Posts Ends)) p := by
  obtain ⟨hl, hb, he, hh, hr, hc, hp, hRC⟩ := h
  simp [tryPending, ioMarkIrpPending, tryReturn]
  exact .resting hh rfl hp (hends _ (by simp_all) rfl)

theorem acquireOrPost_spec (h : Running wait none p) (hargs : Arguments q wait p.2)
    (hposts : wait = false → Posts) :
    (acquireOrPost k r).wp (upTo (fun _ p' => Running wait (some r) p' ∧ Arguments q wait p'.2)
      (TryEnds Posts Ends)) p := by
  obtain ⟨hl, hb, he, hh, hr, hc, hp, hRC⟩ := h
  obtain ⟨hw, hpg, hn⟩ := hargs
  simp [acquireOrPost, tryPost, tryReturn]
  refine ⟨fun _ => ⟨?_, hw, hpg, hn⟩, fun hwait hfree => ?_⟩
  · exact ⟨by simp_all, hb, he, hh, rfl, hc, hp, hRC⟩
  · exact .posting none hl he hh hr rfl rfl (hposts (hw.symm.trans hwait))

theorem transferMinor_spec (h : Running wait none p)
    (hends : ∀ w, w.ledger = some ⟨some .ioManager, false, []⟩ → w.ioStatus.1 = STATUS_SUCCESS →
      Ends STATUS_SUCCESS w)
    (hposts : q.minor IRP_MN_COMPLETE = false → q.minor IRP_MN_DPC = true → Posts) :
    (transferMinor q).wp (upTo (fun _ p' => p' = p ∧ q.minor IRP_MN_COMPLETE = false ∧
      q.minor IRP_MN_DPC = false) (TryEnds Posts Ends)) p := by
  obtain ⟨hl, hb, he, hh, hr, hc, hp, hRC⟩ := h
  simp [transferMinor, mdlComplete, releaseIrpContext, setIoStatus, ioCompleteRequest, tryReturn,
    tryPost]
  refine ⟨fun hq => ?_, fun hq => ⟨fun hdpc => ?_, fun hdpc => ⟨hq, hdpc⟩⟩⟩
  · exact .resting (by simp [hh]) rfl hp (hends _ (by simp_all) rfl)
  · exact .posting none hl he hh hr rfl rfl (hposts hq hdpc)

theorem getFCB_spec (h : Running wait none p) :
    (liftM getFCB : TransferCode).wp (upTo (fun _ p' => p' = p) (TryEnds Posts Ends)) p := by
  rw [wp_liftM, wp_getFCB]
  exact ⟨fun _ => rfl, fun _ => World.crashed_stopped h.ledger⟩

theorem transferArguments_spec (h : Running wait none p) :
    (transferArguments q).wp (upTo (fun _ p' => Running wait none p' ∧ Arguments q wait p'.2 ∧
      q.length ≠ 0) (TryEnds Posts Ends)) p := by
  obtain ⟨hl, hb, he, hh, hr, hc, hp, hRC⟩ := h
  simp [transferArguments]
  refine ⟨fun hq => ?_, fun hq => ⟨?_, ?_, hq⟩⟩
  · exact .completing wait none ⟨by simp_all, hb, he, hh, hr, hc, hp, hRC⟩
  · exact ⟨by simp_all, hb, he, hh, hr, hc, hp, hRC⟩
  · exact ⟨hb, rfl, rfl⟩

theorem transferVolume_spec (h : Running wait none p) (hargs : Arguments q wait p.2)
    (hposts : wait = false → q.nodeType = .vcb → Posts) :
    (transferVolume q k).wp (upTo (fun _ p' => p' = p ∧ q.nodeType = .fcb)
      (TryEnds Posts Ends)) p := by
  rw [transferVolume, wp_when, decide_eq_true_eq, decide_eq_false_iff_not]
  refine ⟨fun hq => ?_, fun hq => ?_⟩
  · refine wp.seq (P := fun _ p' => Running wait (some .vcb) p') ?_ fun _ p' h' => ?_
    · rw [upTo_upTo]
      exact (acquireOrPost_spec h hargs fun hw => hposts hw hq).weaken fun _ _ h' => h'.1
    · rw [wp_bind, wp_liftM]
      refine (lockCallersBuffer_spec h'.ledger).mono ?_
      rintro - w ⟨RC, rfl, hRC, hk⟩
      obtain ⟨hl, hb, he, hh, hr, hc, hp, -⟩ := h'.kept hk
      exact .completing wait _ ⟨hl, hb, he, hh, hr, hc, hp, hRC⟩
  · refine ⟨rfl, ?_⟩
    cases hn : q.nodeType with
    | vcb => exact absurd hn hq
    | fcb => rfl

theorem transferKind_spec (h : Running wait none p)
    (hends : ∀ w, q.flag SFSD_FCB_PAGE_FILE = true → w.ledger = some ⟨none, true, []⟩ →
      w.pending = true → Ends STATUS_PENDING w) :
    (transferKind q).wp (upTo (fun _ p' => p' = p ∧ q.flag SFSD_FCB_PAGE_FILE = false ∧
      q.flag SFSD_FCB_DIRECTORY = false) (TryEnds Posts Ends)) p := by
  refine wp.seq (P := fun _ p' => p' = p ∧ q.flag SFSD_FCB_PAGE_FILE = false) ?_ ?_
  · rw [wp_when]
    refine ⟨fun hpage => ?_, fun hpage => ⟨rfl, hpage⟩⟩
    rw [upTo_upTo]
    exact (tryPending_spec h fun w => hends w hpage).weaken fun _ _ => False.elim
  · rintro - p' ⟨rfl, hpage⟩
    obtain ⟨hl, hb, he, hh, hr, hc, hp, hRC⟩ := h
    simp [tryReturn, hpage]
    intro _
    exact .completing wait none ⟨hl, hb, he, hh, hr, hc, hp,
      show STATUS_INVALID_DEVICE_REQUEST ≠ STATUS_PENDING by decide⟩

theorem flushCache_spec (h : Running wait acquired p) (hargs : Arguments q wait p.2) :
    (flushCache k).wp (upTo (fun _ p' => Running wait acquired p' ∧ Arguments q wait p'.2)
      (TryEnds Posts Ends)) p := by
  obtain ⟨hl, hb, he, hh, hr, hc, hp, hRC⟩ := h
  obtain ⟨hw, hpg, hn⟩ := hargs
  have hne := k.flushCache.status_ne
  simp [flushCache, setIoStatus]
  refine ⟨fun _ => ?_, fun _ => ⟨?_, hw, hpg, hn⟩⟩
  · exact .completing wait acquired ⟨by simp_all, hb, he, hh, hr, hc, hp, hne⟩
  · exact ⟨by simp_all, hb, he, hh, hr, hc, hp, hne⟩

theorem transferAcquire_spec (h : Running wait none p) (hargs : Arguments q wait p.2)
    (hposts : wait = false → Posts) :
    (transferAcquire k).wp (upTo (fun _ p' => Running wait (some q.fileResource) p' ∧
      Arguments q wait p'.2) (TryEnds Posts Ends)) p := by
  rw [transferAcquire, wp_bind, wp_getVars, next_done, hargs.pagingIo, wp_ite]
  refine ⟨fun hpg => ?_, fun hpg => ?_⟩
  · simpa [hpg, Request.fileResource] using acquireOrPost_spec h hargs hposts
  · simpa [hpg, Request.fileResource] using acquireOrPost_spec h hargs hposts

theorem transferCacheMap_spec (h : Running wait acquired p) (hargs : Arguments q wait p.2) :
    (transferCacheMap k).wp (upTo (fun _ p' => Running wait acquired p' ∧ Arguments q wait p'.2)
      (TryEnds Posts Ends)) p := by
  rw [transferCacheMap, wp_bind, wp_get, next_done, wp_when]
  refine ⟨fun _ => ?_, fun _ => ⟨h, hargs⟩⟩
  refine wp.seq (P := fun _ p' => p' = p) ?_ ?_
  · rw [upTo_upTo]
    exact wp_call_of_running h fun _ _ => rfl
  · rintro - p' rfl
    obtain ⟨hl, hb, he, hh, hr, hc, hp, hRC⟩ := h
    exact ⟨⟨hl, hb, he, hh, hr, hc, hp, hRC⟩, hargs⟩

theorem transferMdl_spec (h : Running wait acquired p) :
    (transferMdl q k).wp (upTo (fun _ p' => p' = p) (TryEnds Posts Ends)) p := by
  rw [transferMdl, wp_when]
  refine ⟨fun _ => ?_, fun _ => rfl⟩
  refine wp.seq (P := fun _ p' => p' = p) ?_ ?_
  · rw [upTo_upTo]
    exact wp_call_of_running h fun _ _ => rfl
  · rintro s p' rfl
    obtain ⟨hl, hb, he, hh, hr, hc, hp, hRC⟩ := h
    simp [setIoStatus, tryReturn]
    exact .completing wait acquired ⟨by simp_all, hb, he, hh, hr, hc, hp, s.status_ne⟩

/-! ### The `finally` part -/

theorem transferNote_spec {ccb : World → World} (hccb : ∀ w, Kept w (ccb w)) :
    (transferNote q ccb).wp (fun r p' => r = .done () ∧ Kept p.1 p'.1 ∧ p'.2 = p.2) p := by
  rw [transferNote, wp_bind, wp_getVars, next_done]
  simp
  refine ⟨fun _ _ _ => ⟨fun _ _ => ?_, fun _ => ⟨rfl, rfl, rfl⟩⟩,
    fun _ => ⟨fun _ _ => hccb p.1, fun _ => ⟨rfl, rfl, rfl⟩⟩⟩
  have h := hccb (p.1.setCurrentByteOffset (q.byteOffset + p.2.numberBytes))
  exact ⟨h.ledger, h.context, h.halted⟩

/-- **The resource is released in any case, and the request is completed unless the
handler of an exception will do that.** -/
theorem transferEnd_spec {ccb : World → World} (hccb : ∀ w, Kept w (ccb w))
    (hl : p.1.ledger = some ⟨none, true, acquired.toList⟩)
    (hr : p.2.ptrResourceAcquired = acquired) :
    (transferEnd q ccb).wp (fun r p' => r = .done () ∧ p'.1.halted = p.1.halted ∧
      p'.1.context = p.1.context ∧ p'.2 = p.2 ∧
      if p.1.context.exception then p'.1.ledger = some ⟨none, true, []⟩
      else p'.1.ledger = some ⟨some .ioManager, false, []⟩ ∧ p'.1.ioStatus.1 = p.2.RC) p := by
  rw [transferEnd, wp_bind]
  refine (transferNote_spec hccb).mono ?_
  rintro r p₁ ⟨rfl, hkept, hvars⟩
  rw [next_done, wp_bind]
  refine (releaseAcquired_spec (hkept.ledger.trans hl) (hvars ▸ hr)).mono ?_
  rintro r p₂ ⟨rfl, hl₂, hc₂, hh₂, hvars₂⟩
  have hcontext := hc₂.trans hkept.context
  have hhalted := hh₂.trans hkept.halted
  simp [setIoStatus, releaseIrpContext, ioCompleteRequest, hcontext, hhalted, hl₂, hvars, hvars₂]

/-- The request as the block left it is completed. -/
theorem transferEnd_of_running {ccb : World → World} (hccb : ∀ w, Kept w (ccb w))
    (h : Running wait acquired p)
    (hends : ∀ w, w.ledger = some ⟨some .ioManager, false, []⟩ → w.ioStatus.1 = p.2.RC →
      Ends p.2.RC w) :
    (transferEnd q ccb).wp (fun r p' => r = .done () ∧ p'.1.halted = none ∧ Ends p'.2.RC p'.1)
      p := by
  refine (transferEnd_spec hccb h.ledger h.resource).mono ?_
  rintro r p' ⟨rfl, hh, -, hvars, hend⟩
  rw [h.exception, if_neg (by decide)] at hend
  exact ⟨rfl, hh.trans h.halted, by rw [hvars]; exact hends _ hend.1 hend.2⟩

/-- The resource is released, and the handler does the rest. -/
theorem transferEnd_of_unwinding {ccb : World → World} (hccb : ∀ w, Kept w (ccb w))
    (h : Unwinding p) :
    (transferEnd q ccb).wp (fun r p' => r = .done () ∧ p'.1.halted = none ∧
      p'.1.context.exception = true ∧ p'.1.ledger = some ⟨none, true, []⟩) p := by
  refine (transferEnd_spec hccb h.ledger rfl).mono ?_
  rintro r p' ⟨rfl, hh, hcontext, -, hend⟩
  rw [h.exception, if_pos rfl] at hend
  exact ⟨rfl, hh.trans h.halted, by rw [hcontext, h.exception], hend⟩

/-- How one of the routines ends that the dispatch routines watch over. -/
def CommonEnds (Ends : NTSTATUS → World → Prop) (Unwound : World → Prop) :
    Exit ExceptionRecord NTSTATUS → World → Prop
  | .done RC, w => w.halted = none ∧ Ends RC w
  | .leave, _ => False
  | .raised _, w => w.halted = none ∧ w.context.exception = true ∧ Unwound w
  | .stopped, w => w.halted ≠ none ∧ w.ledger ≠ none

/-- **A `try` block and its `finally` part.** -/
theorem transfer_spec {body fin : TransferCode} {Unwound : World → Prop}
    (hbody : body.wp (TryEnds Posts Ends) p)
    (hexit : ∀ p, AtTryExit Posts Ends p →
      fin.wp (fun r p' => r = .done () ∧ p'.1.halted = none ∧ Ends p'.2.RC p'.1) p)
    (hunwind : ∀ p, Unwinding p → fin.wp (fun r p' => r = .done () ∧ p'.1.halted = none ∧
      p'.1.context.exception = true ∧ Unwound p'.1) p) :
    ((do tryFinally body fin; return (← getVars).RC) :
      Seh ExceptionRecord (World × Transfer) NTSTATUS).wp
      (fun r p' => CommonEnds Ends Unwound r p'.1) p := by
  rw [wp_bind, wp_tryFinally]
  refine hbody.mono fun r p hp => ?_
  rcases r with _ | _ | x | _
  · rw [atFinally_done]
    refine (hexit p hp).mono ?_
    rintro r p' ⟨rfl, hh, hends⟩
    exact ⟨hh, hends⟩
  · rw [atFinally_leave]
    refine (hexit p hp).mono ?_
    rintro r p' ⟨rfl, hh, hends⟩
    exact ⟨hh, hends⟩
  · rw [atFinally_raised]
    refine (hunwind p hp).mono ?_
    rintro r p' ⟨rfl, hh, he, hu⟩
    exact ⟨hh, he, hu⟩
  · exact hp

end Sfsd

end DocumentCode
