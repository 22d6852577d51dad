import DocumentCode.Sfsd.Transfer

/-!
# Writing

`SFsdCommonWrite` is cut out like `SFsdCommonRead`, and differs from it in what becomes
of a request that is not done at once. A write that the cache manager cannot take yet is
given to it, to be called back. A write that is to be posted is not: the `finally` part
releases the resource and does not call `SFsdPostRequest`.

The main statement is `DocumentCode.Sfsd.commonWrite_spec`.
-/

namespace DocumentCode

namespace Sfsd

open Seh

section

variable (q : Request) (k : Kernel)

/-- A write that the cache manager cannot take yet. -/
def writeDefer : TransferCode := do
  let _isThisADeferredWrite ← readContext (·.deferredWrite)
  let l ← getVars
  -- `CcCanIWrite`, which waits if it may
  when (!l.nonBufferedIo && !(l.canWait || k.canWrite)) do
    act .consult
    update fun w => w.setContext { w.context with deferredWrite := true }
    -- `CcDeferWrite(PtrFileObject, SFsdDeferredWriteCallBack, PtrIrpContext, PtrIrp, ...)`
    act (.give .cacheManager)
    vars fun l => { l with completeIrp := false }
    tryReturn STATUS_PENDING

/-- A write past the cache has the cache flushed and purged first. -/
def writeFlush : TransferCode := do
  let l ← getVars
  when (l.nonBufferedIo && !l.pagingIo && q.dataSectionObject) (flushCache k)

/-- `CcCopyWrite`, which reports `FALSE` where it would have to wait and must not. -/
def writeCopy : TransferCode := do
  let _ ← call k.copy
  when (!((← getVars).canWait || k.inCache)) tryPost
  let l ← getVars
  update fun w => w.addCacheLength l.truncatedLength
  setIoStatus l.RC q.length
  vars fun l => { l with numberBytes := q.length }

/-- The transfer. -/
def writeTransfer : TransferCode := do
  if (← getVars).nonBufferedIo then
    tryPending
  else do
    transferCacheMap k
    transferMdl q k
    writeCopy q k

/-- The `try` part of `SFsdCommonWrite`. -/
def writeBody : TransferCode := do
  transferMinor q
  getFCB
  transferArguments q
  transferVolume q k
  writeDefer k
  transferKind q
  transferAcquire k
  writeFlush q k
  writeTransfer q k

/-- The `finally` part of `SFsdCommonWrite`. -/
def writeFinally : TransferCode := do
  let l ← getVars
  if l.postRequest then
    releaseAcquired
  else
    when (l.completeIrp && l.RC ≠ STATUS_PENDING) (transferEnd q (·.setCcbFlag SFSD_CCB_MODIFIED))

/-- `SFsdCommonWrite(PtrIrpContext, PtrIrp)` -/
def commonWrite : Code NTSTATUS := locals {} do
  tryFinally (writeBody q k) (writeFinally q)
  return (← getVars).RC

end

/-! ### How a pass ends -/

/-- A write that the cache manager may be given. -/
def Request.writeDefers (q : Request) (wait : Bool) : Prop :=
  q.transfers ∧ q.nodeType = .fcb ∧ q.noCache = false ∧ wait = false

/-- A write that should be sent on to the disk, with the resources held then. -/
def Request.writeLoses (q : Request) (held : List Resource) : Prop :=
  q.transfers ∧ q.nodeType = .fcb ∧
    (q.flag SFSD_FCB_PAGE_FILE = true ∧ held = [] ∨
      q.flag SFSD_FCB_PAGE_FILE = false ∧ q.flag SFSD_FCB_DIRECTORY = false ∧ q.noCache = true ∧
        held = [q.fileResource])

/-- **How a pass over a write ends.** -/
inductive WriteEnds (q : Request) (wait : Bool) (RC : NTSTATUS) (w : World) : Prop
  /-- Completed, with the status that is returned. -/
  | completed (ledger : w.ledger = some ⟨some .ioManager, false, []⟩) (ioStatus : w.ioStatus.1 = RC)
      (ne : RC ≠ STATUS_PENDING)
  /-- With the cache manager. -/
  | deferred (ledger : w.ledger = some ⟨some .cacheManager, true, []⟩) (eq : RC = STATUS_PENDING)
      (defers : q.writeDefers wait)
  /-- Nowhere: `STATUS_PENDING` is returned, and nobody has been given the request. -/
  | lost (held : List Resource) (ledger : w.ledger = some ⟨none, true, held⟩)
      (eq : RC = STATUS_PENDING) (loses : q.posts wait ∧ held = [] ∨ q.writeLoses held)

variable {q : Request} {k : Kernel} {wait : Bool} {acquired : Option Resource} {r : Resource}
  {w : World} {p : World × Transfer} {Posts : Prop} {Ends : NTSTATUS → World → Prop}

theorem writeDefer_spec (h : Running wait none p) (hargs : Arguments q wait p.2)
    (hends : ∀ w, wait = false → q.noCache = false →
      w.ledger = some ⟨some .cacheManager, true, []⟩ → Ends STATUS_PENDING w) :
    (writeDefer k).wp (upTo (fun _ p' => Running wait none p' ∧ Arguments q wait p'.2)
      (TryEnds Posts Ends)) p := by
  obtain ⟨hl, hb, he, hh, hr, hc, hp, hRC⟩ := h
  obtain ⟨hw, hpg, hn⟩ := hargs
  simp [writeDefer, tryReturn]
  refine ⟨fun hcache hwait _ => ?_, fun _ => ⟨?_, hw, hpg, hn⟩⟩
  · exact .resting (by simp [hh]) rfl hp
      (hends _ (hw.symm.trans hwait) (hn.symm.trans hcache) (by simp_all))
  · exact ⟨by simp_all, hb, he, hh, hr, hc, hp, hRC⟩

theorem writeFlush_spec (h : Running wait acquired p) (hargs : Arguments q wait p.2) :
    (writeFlush q k).wp (upTo (fun _ p' => Running wait acquired p' ∧ Arguments q wait p'.2)
      (TryEnds Posts Ends)) p := by
  rw [writeFlush, wp_bind, wp_getVars, next_done, wp_when]
  exact ⟨fun _ => flushCache_spec h hargs, fun _ => ⟨h, hargs⟩⟩

theorem writeCopy_spec (h : Running wait acquired p) (hargs : Arguments q wait p.2)
    (hposts : wait = false → Posts) : (writeCopy q k).wp (TryEnds Posts Ends) p := by
  refine wp.seq (P := fun _ p' => p' = p) (wp_call_of_running h fun _ _ => rfl) ?_
  rintro s p' rfl
  obtain ⟨hl, hb, he, hh, hr, hc, hp, hRC⟩ := h
  simp [setIoStatus, tryReturn, tryPost]
  refine ⟨fun hwait _ => ?_, fun _ => ?_⟩
  · exact .posting acquired hl he hh hr rfl rfl (hposts (hargs.canWait.symm.trans hwait))
  · exact .completing wait acquired ⟨by simp_all, hb, he, hh, hr, hc, hp, hRC⟩

theorem writeTransfer_spec (h : Running wait (some r) p) (hargs : Arguments q wait p.2)
    (hposts : wait = false → Posts)
    (hends : ∀ w, q.noCache = true → w.ledger = some ⟨none, true, [r]⟩ → Ends STATUS_PENDING w) :
    (writeTransfer q k).wp (TryEnds Posts Ends) p := by
  rw [writeTransfer, wp_bind, wp_getVars, next_done, wp_ite, hargs.nonBufferedIo]
  refine ⟨fun hcache => ?_, fun hcache => ?_⟩
  · exact (tryPending_spec h fun w hl _ => hends w hcache hl).last fun _ _ => False.elim
  · refine wp.seq (transferCacheMap_spec h hargs) ?_
    rintro - p' ⟨h', hargs'⟩
    refine wp.seq (transferMdl_spec h') fun _ p'' hp'' => ?_
    subst hp''
    exact writeCopy_spec h' hargs' hposts

theorem writeBody_spec (h : Running wait none p) :
    (writeBody q k).wp (TryEnds (q.posts wait) (WriteEnds q wait)) p := by
  refine wp.seq (transferMinor_spec h (fun w hl hs => .completed hl hs STATUS_SUCCESS_ne)
    fun hcomplete hdpc => ⟨hcomplete, Or.inl hdpc⟩) ?_
  rintro - p' ⟨hp', hcomplete, hdpc⟩
  subst hp'
  refine wp.seq (getFCB_spec h) ?_
  rintro - p rfl
  refine wp.seq (transferArguments_spec h) ?_
  rintro - p' ⟨h', hargs, hlength⟩
  have htransfers : q.transfers := ⟨hcomplete, hdpc, hlength⟩
  refine wp.seq (transferVolume_spec h' hargs fun hw hvcb =>
    ⟨hcomplete, Or.inr ⟨hw, hlength, Or.inl hvcb⟩⟩) ?_
  rintro - p'' ⟨hp'', hnode⟩
  subst hp''
  refine wp.seq (writeDefer_spec h' hargs fun w hw hcache hl =>
    .deferred hl rfl ⟨htransfers, hnode, hcache, hw⟩) ?_
  rintro - p' ⟨h', hargs⟩
  refine wp.seq (transferKind_spec h' fun w hpage hl _ =>
    .lost [] hl rfl (Or.inr ⟨htransfers, hnode, Or.inl ⟨hpage, rfl⟩⟩)) ?_
  rintro - p'' ⟨hp'', hpage, hdir⟩
  subst hp''
  have hposts (hw : wait = false) : q.posts wait :=
    ⟨hcomplete, Or.inr ⟨hw, hlength, Or.inr ⟨hpage, hdir⟩⟩⟩
  refine wp.seq (transferAcquire_spec h' hargs hposts) ?_
  rintro - p' ⟨h', hargs⟩
  refine wp.seq (writeFlush_spec h' hargs) ?_
  rintro - p' ⟨h', hargs⟩
  exact writeTransfer_spec h' hargs hposts fun w hcache hl =>
    .lost _ hl rfl (Or.inr ⟨htransfers, hnode, Or.inr ⟨hpage, hdir, hcache, rfl⟩⟩)

theorem writeFinally_spec (h : AtTryExit (q.posts wait) (WriteEnds q wait) p) :
    (writeFinally q).wp (fun r p' => r = .done () ∧ p'.1.halted = none ∧
      WriteEnds q wait p'.2.RC p'.1) p := by
  rw [writeFinally, wp_bind, wp_getVars, next_done]
  cases h with
  | resting hh hc hp hends =>
    simp [hp, hc, hh]
    exact hends
  | completing wait' acquired h =>
    simp only [h.postRequest, Bool.false_eq_true, if_false, wp_when, h.completeIrp, Bool.true_and]
    refine ⟨fun _ => ?_, fun hcon => absurd h.RC (by simpa using hcon)⟩
    exact transferEnd_of_running (fun w => ⟨rfl, rfl, rfl⟩) h fun w hl hs => .completed hl hs h.RC
  | posting acquired hl he hh hr hp hRC hposts =>
    rw [if_pos hp]
    refine (releaseAcquired_spec hl hr).mono ?_
    rintro r p' ⟨rfl, hl', -, hh', hvars⟩
    exact ⟨rfl, hh'.trans hh, .lost [] hl' (by rw [hvars, hRC]) (Or.inl ⟨hposts, rfl⟩)⟩

/-- **A pass over a write.** -/
theorem commonWrite_spec (hl : w.ledger = some ⟨none, true, []⟩)
    (he : w.context.exception = false) (hh : w.halted = none) :
    (commonWrite q k).wp (CommonEnds (WriteEnds q w.context.canBlock)
      fun w => w.ledger = some ⟨none, true, []⟩) w := by
  refine transfer_spec (p := (w, {})) (writeBody_spec ?_) (fun p => writeFinally_spec) fun p h => ?_
  · exact ⟨hl, rfl, he, hh, rfl, rfl, rfl, STATUS_SUCCESS_ne⟩
  · rw [writeFinally, wp_bind, wp_getVars, next_done]
    simp only [h.postRequest, Bool.false_eq_true, if_false, wp_when, h.completeIrp, Bool.true_and]
    refine ⟨fun _ => ?_, fun hcon => absurd h.RC (by simpa using hcon)⟩
    exact transferEnd_of_unwinding (fun w => ⟨rfl, rfl, rfl⟩) h

end Sfsd

end DocumentCode
