import DocumentCode.Sfsd.Runs

/-!
# What is written

`SFsdCommonWrite` hands the cache manager `TruncatedWriteLength`, which is zero at first and
never assigned. No part of the routine changes that variable or asks for a single byte to be
transferred, and nothing around the routine does, in any run of a write
(`DocumentCode.Sfsd.cacheLength_eq_zero`); but a write that goes through the cache is
reported as successful, with its full length.
-/

namespace DocumentCode

namespace Sfsd

open Seh

variable {q : Request} {k : Kernel} {s : Flow} {w : World}

/-- The cache manager has not been asked for a single byte. -/
def Unasked (w : World) : Prop := w.cacheLength = 0

/-! ### Part by part -/

@[simp] theorem keeps_raiseException {β : Type} (x : ExceptionRecord) :
    (raiseException x : Code β).Keeps Unasked := by
  intro w hw
  rw [Unasked] at hw
  simp [raiseException, exceptionFilter, releaseIrpContext, Unasked, hw]

theorem keeps_call {β : Type} (a : Answer β) : (call a).Keeps Unasked := by
  cases a with
  | ok b => exact keeps_pure b
  | error x => exact keeps_raiseException x

theorem keeps_exceptionHandler : exceptionHandler.Keeps Unasked := by
  intro w hw
  rw [Unasked] at hw
  simp [exceptionHandler, releaseIrpContext, setIoStatus, ioCompleteRequest, Unasked, hw]

theorem keeps_lockCallersBuffer : (lockCallersBuffer k).Keeps Unasked := by
  intro w hw
  rw [Unasked] at hw
  unfold lockCallersBuffer
  cases k.probe <;> simp [Unasked, hw]

section Transfer

/-- Nor is it to be: the length that a write hands it is still what it was at first. -/
abbrev UnaskedBeside (p : World × Transfer) : Prop := p.1.cacheLength = 0 ∧ p.2.truncatedLength = 0

theorem keeps_beside {β : Type} {c : Code β} (hc : c.Keeps Unasked) :
    (liftM c : Seh ExceptionRecord (World × Transfer) β).Keeps UnaskedBeside :=
  keeps_liftM_beside (J := fun l : Transfer => l.truncatedLength = 0) hc

theorem keeps_transferMinor : (transferMinor q).Keeps UnaskedBeside := by
  rintro p ⟨hp, hl⟩
  simp [transferMinor, mdlComplete, releaseIrpContext, setIoStatus, ioCompleteRequest, tryReturn,
    tryPost, UnaskedBeside, hp, hl]

theorem keeps_getFCB : getFCB.Keeps Unasked := by
  intro w hw
  rw [Unasked] at hw
  simp [World.crashed, Unasked, hw]

theorem keeps_transferArguments : (transferArguments q).Keeps UnaskedBeside := by
  rintro p ⟨hp, hl⟩
  simp [transferArguments, UnaskedBeside, hp, hl]

theorem keeps_acquireOrPost {r : Resource} : (acquireOrPost k r).Keeps UnaskedBeside := by
  rintro p ⟨hp, hl⟩
  simp [acquireOrPost, tryPost, tryReturn, UnaskedBeside, hp, hl]

theorem keeps_tryReturn {RC : NTSTATUS} : (tryReturn RC).Keeps UnaskedBeside := fun _ hp => hp

theorem keeps_transferVolume : (transferVolume q k).Keeps UnaskedBeside :=
  keeps_when (keeps_bind keeps_acquireOrPost fun _ =>
    keeps_bind (keeps_beside keeps_lockCallersBuffer) fun _ => keeps_tryReturn)

theorem keeps_writeDefer : (writeDefer k).Keeps UnaskedBeside := by
  rintro p ⟨hp, hl⟩
  simp [writeDefer, tryReturn, UnaskedBeside, hp, hl]

theorem keeps_tryPending : tryPending.Keeps UnaskedBeside := by
  rintro p ⟨hp, hl⟩
  simp [tryPending, ioMarkIrpPending, tryReturn, UnaskedBeside, hp, hl]

theorem keeps_transferKind : (transferKind q).Keeps UnaskedBeside :=
  keeps_bind (keeps_when keeps_tryPending) fun _ => keeps_when keeps_tryReturn

theorem keeps_transferAcquire : (transferAcquire k).Keeps UnaskedBeside :=
  keeps_bind keeps_getVars fun _ => keeps_ite keeps_acquireOrPost keeps_acquireOrPost

theorem keeps_flushCache : (flushCache k).Keeps UnaskedBeside := by
  rintro p ⟨hp, hl⟩
  simp [flushCache, setIoStatus, UnaskedBeside, hp, hl]

theorem keeps_writeFlush : (writeFlush q k).Keeps UnaskedBeside :=
  keeps_bind keeps_getVars fun _ => keeps_when keeps_flushCache

theorem keeps_transferCacheMap : (transferCacheMap k).Keeps UnaskedBeside := by
  refine keeps_bind keeps_get fun _ => keeps_when (keeps_bind (keeps_beside (keeps_call _)) ?_)
  exact fun _ p hp => hp

/-- What it is asked for is `TruncatedWriteLength`. -/
theorem keeps_transferMdl : (transferMdl q k).Keeps UnaskedBeside := by
  refine keeps_when (keeps_bind (keeps_beside (keeps_call _)) fun s => ?_)
  rintro p ⟨hp, hl⟩
  simp [setIoStatus, tryReturn, UnaskedBeside, hp, hl]

/-- And here. -/
theorem keeps_writeCopy : (writeCopy q k).Keeps UnaskedBeside := by
  refine keeps_bind (keeps_beside (keeps_call _)) fun s => ?_
  rintro p ⟨hp, hl⟩
  simp [setIoStatus, tryPost, tryReturn, UnaskedBeside, hp, hl]

theorem keeps_writeTransfer : (writeTransfer q k).Keeps UnaskedBeside :=
  keeps_bind keeps_getVars fun _ => keeps_ite keeps_tryPending <|
    keeps_bind keeps_transferCacheMap fun _ => keeps_bind keeps_transferMdl fun _ => keeps_writeCopy

theorem keeps_writeBody : (writeBody q k).Keeps UnaskedBeside :=
  keeps_bind keeps_transferMinor fun _ => keeps_bind (keeps_beside keeps_getFCB) fun _ =>
    keeps_bind keeps_transferArguments fun _ =>
    keeps_bind keeps_transferVolume fun _ => keeps_bind keeps_writeDefer fun _ =>
    keeps_bind keeps_transferKind fun _ => keeps_bind keeps_transferAcquire fun _ =>
    keeps_bind keeps_writeFlush fun _ => keeps_writeTransfer

theorem keeps_releaseAcquired : releaseAcquired.Keeps UnaskedBeside := by
  refine keeps_bind keeps_getVars fun l => ?_
  cases l.ptrResourceAcquired with
  | none => exact keeps_pure ()
  | some r => exact keeps_beside fun w hw => hw

theorem keeps_transferEnd :
    (transferEnd q (·.setCcbFlag SFSD_CCB_MODIFIED)).Keeps UnaskedBeside := by
  refine keeps_bind ?_ fun _ => keeps_bind keeps_releaseAcquired fun _ => ?_
  · rintro p ⟨hp, hl⟩
    simp [transferNote, UnaskedBeside, hp, hl]
  · rintro p ⟨hp, hl⟩
    simp [setIoStatus, releaseIrpContext, ioCompleteRequest, UnaskedBeside, hp, hl]

theorem keeps_writeFinally : (writeFinally q).Keeps UnaskedBeside :=
  keeps_bind keeps_getVars fun _ => keeps_ite keeps_releaseAcquired (keeps_when keeps_transferEnd)

end Transfer

/-- **No write asks the cache manager for anything.** -/
theorem keeps_commonWrite : (commonWrite q k).Keeps Unasked :=
  keeps_locals (J := fun l : Transfer => l.truncatedLength = 0) rfl
    (keeps_bind (keeps_tryFinally keeps_writeBody keeps_writeFinally) fun _ =>
      keeps_bind keeps_getVars fun _ => keeps_pure _)

/-! ### In runs -/

theorem keeps_allocateIrpContext {top : Bool} : (allocateIrpContext q k top).Keeps Unasked := by
  intro w hw
  rw [Unasked] at hw
  simp [allocateIrpContext, Unasked, hw]

theorem keeps_dispatch (hq : q.majorFunction = .write) :
    (dispatch q k).Keeps fun p => Unasked p.1 := by
  simp only [dispatch, hq]
  refine keeps_bind keeps_vars fun _ => keeps_bind ?_ fun top => keeps_bind ?_ fun RC => ?_
  · exact keeps_bind keeps_getVars fun _ => keeps_ite
      (keeps_bind keeps_vars fun _ => keeps_pure _) (keeps_pure _)
  · refine keeps_tryExcept (keeps_bind keeps_getVars fun _ => ?_) fun _ =>
      keeps_liftM keeps_exceptionHandler
    exact keeps_bind (keeps_liftM keeps_allocateIrpContext) fun _ => keeps_liftM keeps_commonWrite
  · exact keeps_bind (keeps_when keeps_vars) fun _ => keeps_bind keeps_vars fun _ => keeps_pure _

theorem keeps_commonDispatch (hq : q.majorFunction = .write) :
    (commonDispatch q k).Keeps fun p => Unasked p.1 := by
  intro p hp
  rw [Unasked] at hp
  simp [commonDispatch, dispatchCommon, hq, ioSetTopLevelIrp, fsRtlEnterFileSystem,
    fsRtlExitFileSystem, setIoStatus, ioCompleteRequest, Unasked, hp]

theorem unasked_of_reachable (hq : q.majorFunction = .write) (h : (requests q).Reachable s) :
    Unasked s.world := by
  refine h.invariant (I := fun s => Unasked s.world) (fun s h => ?_) fun s e s' hs _ hstep => ?_
  · exact h.1.cacheLength
  cases e with
  | send k t =>
    obtain ⟨-, hstep⟩ := Option.ite_none_right_eq_some.mp hstep
    obtain rfl := Option.some.inj hstep
    exact keeps_dispatch hq (s.world, t) hs
  | work k t =>
    obtain ⟨-, hstep⟩ := Option.ite_none_right_eq_some.mp hstep
    obtain rfl := Option.some.inj hstep
    exact keeps_commonDispatch hq (s.world.enter (.take .workQueue), t) hs
  | lower b pendingReturned =>
    obtain ⟨-, hstep⟩ := Option.ite_none_right_eq_some.mp hstep
    obtain rfl := Option.some.inj hstep
    have hkeeps : (do
        act (.take .lowerDriver)
        setIoStatus b.status b.information
        completion q pendingReturned
        ioCompleteRequest : Code Unit).Keeps Unasked := by
      intro w hw
      rw [Unasked] at hw
      simp [setIoStatus, completion, hq, ioMarkIrpPending, ioCompleteRequest, Unasked, hw]
    exact hkeeps s.world hs
  | report | callBack =>
    obtain ⟨-, hstep⟩ := Option.ite_none_right_eq_some.mp hstep
    obtain rfl := Option.some.inj hstep
    exact hs

/-- A write that goes through the cache, a file like any other being its target. -/
structure Request.Cached (q : Request) : Prop where
  write : q.majorFunction = .write
  transfers : q.transfers
  nodeType : q.nodeType = .fcb
  pageFile : q.flag SFSD_FCB_PAGE_FILE = false
  directory : q.flag SFSD_FCB_DIRECTORY = false
  noCache : q.noCache = false
  mdl : q.minor IRP_MN_MDL = false

theorem commonWrite_acknowledges (h : Ready q q.synchronous w) (hf : w.fsContext = true)
    (hq : q.Cached) :
    (commonWrite q idle).wp (atExcept (fun _ => exceptionHandler) fun _ w' =>
      w'.halted = none ∧ w'.ledger = some ⟨some .ioManager, false, []⟩ ∧
        w'.ioStatus = (STATUS_SUCCESS, q.length)) w := by
  obtain ⟨-, ⟨hcomplete, hdpc, hlength⟩, hnode, hpage, hdir, hcache, hmdl⟩ := hq
  have hsuccess : NT_SUCCESS STATUS_SUCCESS = true := by decide
  have hpending : STATUS_SUCCESS ≠ STATUS_PENDING := STATUS_SUCCESS_ne
  rw [commonWrite, wp_locals, wp_bind, wp_tryFinally]
  cases hpaging : q.pagingIo <;>
  simp [writeBody, transferMinor, hcomplete, hdpc, hf, transferArguments, hlength, transferVolume,
    hnode, writeDefer, transferKind, hpage, hdir, writeFlush, hcache, setIoStatus, transferAcquire,
    acquireOrPost, hpaging, writeTransfer, transferCacheMap, transferMdl, hmdl, writeCopy,
    writeFinally, transferEnd, transferNote, releaseAcquired, releaseResource, releaseIrpContext,
    ioCompleteRequest, hsuccess, hpending, h.halted, h.ledger, h.exception]

/-- **No write asks the cache manager for a byte, in any run; and every write that goes
through the cache is reported as successful, with its full length, in some run.** -/
theorem cacheLength_eq_zero (hq : q.majorFunction = .write) :
    (∀ s, (requests q).Reachable s → s.world.cacheLength = 0) ∧
      (q.Cached → ∃ s, (requests q).Reachable s ∧ s.world.isWith .ioManager = true ∧
        s.world.ioStatus = (STATUS_SUCCESS, q.length)) := by
  refine ⟨fun s h => unasked_of_reachable hq h, fun hcached => ?_⟩
  suffices h : (dispatch q idle).wp (Served (fun _ w => w.halted = none ∧
      w.ledger = some ⟨some .ioManager, false, []⟩ ∧
      w.ioStatus = (STATUS_SUCCESS, q.length)) .start)
      (World.start q 0, .start) by
    obtain ⟨s, hs, -, hh, hl, hio⟩ := exists_of_dispatch h
    exact ⟨s, hs, World.isWith_iff.mpr ⟨hh, _, hl, rfl⟩, hio⟩
  simp only [dispatch, hq]
  refine dispatchRoutine_spec (World.fresh_start q _) (fun hk => ?_) ?_
  · simp at hk
  · rintro w hw ⟨c, rfl⟩
    exact commonWrite_acknowledges hw (World.fsContext_start (by simp [hq]) 0) hcached

theorem cacheLength_eq_zero_plain :
    (∀ s, (requests (plain .write)).Reachable s → s.world.cacheLength = 0) ∧
      ((plain .write).Cached → ∃ s, (requests (plain .write)).Reachable s ∧
        s.world.isWith .ioManager = true ∧
        s.world.ioStatus = (STATUS_SUCCESS, (plain .write).length)) :=
  cacheLength_eq_zero rfl

end Sfsd

end DocumentCode
