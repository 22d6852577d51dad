import DocumentCode.Sfsd.Transfer

/-!
# Reading

`SFsdCommonRead`. What cannot be done at once and must not be waited for is posted, and
a worker does it again. What should be sent on to the disk – the page file, and reads
past the cache – is marked pending and left where it is.

The main statement is `DocumentCode.Sfsd.commonRead_spec`: a pass over a read ends with
the request completed, on the work queue, or nowhere, and it says when each can be; and
an exception leaves the request and its context to the handler, with every resource
released.
-/

namespace DocumentCode

namespace Sfsd

open Seh

section

variable (q : Request) (k : Kernel)

/-- `SFSD_REQ_NOT_VIA_CACHE_MGR(&(PtrReqdFCB->SectionObject))` -/
def reqNotViaCacheMgr : Bool := !k.recursiveIoFault && q.imageSectionObject

/-- A read past the cache has the cache flushed first. -/
def readFlush : TransferCode := do
  let l ← getVars
  when (l.nonBufferedIo && q.dataSectionObject && (!l.pagingIo || reqNotViaCacheMgr q k))
    (flushCache k)

/-- `CcCopyRead`, which reports `FALSE` where it would have to wait and must not. -/
def readCopy : TransferCode := do
  let s ← call k.copy
  when (!((← getVars).canWait || k.inCache)) tryPost
  update fun w => w.addCacheLength q.length
  setIoStatus s.status s.information
  vars fun l => { l with numberBytes := s.information }
  tryReturn s.status

/-- The transfer. -/
def readTransfer : TransferCode := do
  let fileSize := (← get).1.sizes.fileSize
  when (q.byteOffset > fileSize) (tryReturn STATUS_END_OF_FILE)
  if (← getVars).nonBufferedIo then
    tryPending
  else do
    transferCacheMap k
    transferMdl q k
    readCopy q k

/-- The `try` part of `SFsdCommonRead`. -/
def readBody : TransferCode := do
  transferMinor q
  getFCB
  transferArguments q
  transferVolume q k
  transferKind q
  readFlush q k
  transferAcquire k
  readTransfer q k

/-- The `finally` part of `SFsdCommonRead`. -/
def readFinally : TransferCode := do
  let l ← getVars
  if l.postRequest then do
    releaseAcquired
    when (!q.minor IRP_MN_MDL) do
      -- the result is only looked at by an assertion
      let _ ← lockCallersBuffer k
    let RC ← postRequest
    vars fun l => { l with RC }
  else
    when (l.completeIrp && l.RC ≠ STATUS_PENDING) (transferEnd q (·.setCcbFlag SFSD_CCB_ACCESSED))

/-- `SFsdCommonRead(PtrIrpContext, PtrIrp)` -/
def commonRead : Code NTSTATUS := locals {} do
  tryFinally (readBody q k) (readFinally q k)
  return (← getVars).RC

end

/-! ### How a pass ends -/

/-- A read that should be sent on to the disk, with the resources held then. -/
def Request.readLoses (q : Request) (held : List Resource) : Prop :=
  q.transfers ∧ q.nodeType = .fcb ∧
    (q.flag SFSD_FCB_PAGE_FILE = true ∧ held = [] ∨
      q.flag SFSD_FCB_PAGE_FILE = false ∧ q.flag SFSD_FCB_DIRECTORY = false ∧ q.noCache = true ∧
        held = [q.fileResource])

/-- **How a pass over a read ends.** -/
inductive ReadEnds (q : Request) (wait : Bool) (RC : NTSTATUS) (w : World) : Prop
  /-- Completed, with the status that is returned. -/
  | completed (ledger : w.ledger = some ⟨some .ioManager, false, []⟩) (ioStatus : w.ioStatus.1 = RC)
      (ne : RC ≠ STATUS_PENDING)
  /-- On the work queue. -/
  | posted (ledger : w.ledger = some ⟨some .workQueue, true, []⟩) (eq : RC = STATUS_PENDING)
      (pending : w.pending = true) (exception : w.context.exception = false) (posts : q.posts wait)
  /-- Nowhere. -/
  | lost (held : List Resource) (ledger : w.ledger = some ⟨none, true, held⟩)
      (eq : RC = STATUS_PENDING) (pending : w.pending = true) (loses : q.readLoses held)

variable {q : Request} {k : Kernel} {wait : Bool} {acquired : Option Resource} {r : Resource}
  {w : World} {p : World × Transfer} {Posts : Prop} {Ends : NTSTATUS → World → Prop}

theorem readFlush_spec (h : Running wait none p) (hargs : Arguments q wait p.2) :
    (readFlush q k).wp (upTo (fun _ p' => Running wait none p' ∧ Arguments q wait p'.2)
      (TryEnds Posts Ends)) p := by
  rw [readFlush, wp_bind, wp_getVars, next_done, wp_when]
  exact ⟨fun _ => flushCache_spec h hargs, fun _ => ⟨h, hargs⟩⟩

theorem readCopy_spec (h : Running wait acquired p) (hargs : Arguments q wait p.2)
    (hposts : wait = false → Posts) : (readCopy q k).wp (TryEnds Posts Ends) p := by
  refine wp.seq (P := fun _ p' => p' = p) (wp_call_of_running h fun _ _ => rfl) ?_
  rintro s p' rfl
  obtain ⟨hl, hb, he, hh, hr, hc, hp, hRC⟩ := h
  simp [setIoStatus, tryReturn, tryPost]
  refine ⟨fun hwait _ => ?_, fun _ => ?_⟩
  · exact .posting acquired hl he hh hr rfl rfl (hposts (hargs.canWait.symm.trans hwait))
  · exact .completing wait acquired ⟨by simp_all, hb, he, hh, hr, hc, hp, s.status_ne⟩

theorem readTransfer_spec (h : Running wait (some r) p) (hargs : Arguments q wait p.2)
    (hposts : wait = false → Posts)
    (hends : ∀ w, q.noCache = true → w.ledger = some ⟨none, true, [r]⟩ → w.pending = true →
      Ends STATUS_PENDING w) : (readTransfer q k).wp (TryEnds Posts Ends) p := by
  rw [readTransfer, wp_bind, wp_get, next_done]
  refine wp.seq (P := fun _ p' => p' = p) ?_ ?_
  · obtain ⟨hl, hb, he, hh, hr, hc, hp, hRC⟩ := h
    simp [tryReturn]
    intro _
    exact .completing wait _ ⟨hl, hb, he, hh, hr, hc, hp,
      show STATUS_END_OF_FILE ≠ STATUS_PENDING by decide⟩
  rintro - p' rfl
  rw [wp_bind, wp_getVars, next_done, wp_ite, hargs.nonBufferedIo]
  refine ⟨fun hcache => ?_, fun hcache => ?_⟩
  · exact (tryPending_spec h fun w => hends w hcache).last fun _ _ => False.elim
  · refine wp.seq (transferCacheMap_spec h hargs) ?_
    rintro - p' ⟨h', hargs'⟩
    refine wp.seq (transferMdl_spec h') fun _ p'' hp'' => ?_
    subst hp''
    exact readCopy_spec h' hargs' hposts

theorem readBody_spec (h : Running wait none p) :
    (readBody q k).wp (TryEnds (q.posts wait) (ReadEnds q wait)) p := by
  refine wp.seq (transferMinor_spec h (fun w hl hs => .completed hl hs STATUS_SUCCESS_ne)
    fun hcomplete hdpc => ⟨hcomplete, Or.inl hdpc⟩) ?_
  rintro - p' ⟨hp', hcomplete, hdpc⟩
  subst hp'
  refine wp.seq (getFCB_spec h) ?_
  rintro - p rfl
  refine wp.seq (transferArguments_spec h) ?_
  rintro - p' ⟨h', hargs, hlength⟩
  have htransfers : q.transfers := ⟨hcomplete, hdpc, hlength⟩
  refine wp.seq (transferVolume_spec h' hargs fun hw hvcb =>
    ⟨hcomplete, Or.inr ⟨hw, hlength, Or.inl hvcb⟩⟩) ?_
  rintro - p'' ⟨hp'', hnode⟩
  subst hp''
  refine wp.seq (transferKind_spec h' fun w hpage hl hpend =>
    .lost [] hl rfl hpend ⟨htransfers, hnode, Or.inl ⟨hpage, rfl⟩⟩) ?_
  rintro - p'' ⟨hp'', hpage, hdir⟩
  subst hp''
  have hposts (hw : wait = false) : q.posts wait :=
    ⟨hcomplete, Or.inr ⟨hw, hlength, Or.inr ⟨hpage, hdir⟩⟩⟩
  refine wp.seq (readFlush_spec h' hargs) ?_
  rintro - p' ⟨h', hargs⟩
  refine wp.seq (transferAcquire_spec h' hargs hposts) ?_
  rintro - p' ⟨h', hargs⟩
  exact readTransfer_spec h' hargs hposts fun w hcache hl hpend =>
    .lost _ hl rfl hpend ⟨htransfers, hnode, Or.inr ⟨hpage, hdir, hcache, rfl⟩⟩

/-- Whatever has been acquired is released before the request is posted. -/
theorem readFinally_posts (hl : p.1.ledger = some ⟨none, true, acquired.toList⟩)
    (he : p.1.context.exception = false) (hh : p.1.halted = none)
    (hr : p.2.ptrResourceAcquired = acquired) (hp : p.2.postRequest = true) :
    (readFinally q k).wp (fun r p' => r = .done () ∧
      p'.1.ledger = some ⟨some .workQueue, true, []⟩ ∧ p'.1.context.exception = false ∧
      p'.1.halted = none ∧ p'.1.pending = true ∧ p'.2.RC = STATUS_PENDING) p := by
  rw [readFinally, wp_bind, wp_getVars, next_done, if_pos hp, wp_bind]
  refine (releaseAcquired_spec hl hr).mono ?_
  rintro r p₁ ⟨rfl, hl₁, hc₁, hh₁, -⟩
  rw [next_done]
  refine wp.seq (P := fun _ (p₂ : World × Transfer) => Kept p₁.1 p₂.1) ?_ fun _ p₂ hk => ?_
  · rw [wp_when]
    refine ⟨fun _ => ?_, fun _ => ⟨rfl, rfl, rfl⟩⟩
    rw [wp_bind, wp_liftM]
    refine (lockCallersBuffer_spec hl₁).mono ?_
    rintro r w ⟨RC, rfl, -, hk⟩
    exact hk
  · have hl₂ := hk.ledger.trans hl₁
    have hh₂ := hk.halted.trans (hh₁.trans hh)
    simp [postRequest, ioMarkIrpPending, hh₂, hl₂, hk.context, hc₁, he]

theorem readFinally_spec (h : AtTryExit (q.posts wait) (ReadEnds q wait) p) :
    (readFinally q k).wp (fun r p' => r = .done () ∧ p'.1.halted = none ∧
      ReadEnds q wait p'.2.RC p'.1) p := by
  cases h with
  | resting hh hc hp hends =>
    simp [readFinally, hp, hc, hh]
    exact hends
  | completing wait' acquired h =>
    rw [readFinally, wp_bind, wp_getVars, next_done]
    simp only [h.postRequest, Bool.false_eq_true, if_false, wp_when, h.completeIrp, Bool.true_and]
    refine ⟨fun _ => ?_, fun hcon => absurd h.RC (by simpa using hcon)⟩
    exact transferEnd_of_running (fun w => ⟨rfl, rfl, rfl⟩) h fun w hl hs => .completed hl hs h.RC
  | posting acquired hl he hh hr hp hRC hposts =>
    refine (readFinally_posts hl he hh hr hp).mono ?_
    rintro r p' ⟨rfl, hl', he', hh', hpend, hRC'⟩
    exact ⟨rfl, hh', .posted hl' hRC' hpend he' hposts⟩

/-- **A pass over a read.** -/
theorem commonRead_spec (hl : w.ledger = some ⟨none, true, []⟩)
    (he : w.context.exception = false) (hh : w.halted = none) :
    (commonRead q k).wp (CommonEnds (ReadEnds q w.context.canBlock)
      fun w => w.ledger = some ⟨none, true, []⟩) w := by
  refine transfer_spec (p := (w, {})) (readBody_spec ?_) (fun p => readFinally_spec) fun p h => ?_
  · exact ⟨hl, rfl, he, hh, rfl, rfl, rfl, STATUS_SUCCESS_ne⟩
  · rw [readFinally, wp_bind, wp_getVars, next_done]
    simp only [h.postRequest, Bool.false_eq_true, if_false, wp_when, h.completeIrp, Bool.true_and]
    refine ⟨fun _ => ?_, fun hcon => absurd h.RC (by simpa using hcon)⟩
    exact transferEnd_of_unwinding (fun w => ⟨rfl, rfl, rfl⟩) h

end Sfsd

end DocumentCode
