import DocumentCode.Sfsd.Runs

/-!
# Requests that are forgotten

A dispatch routine that returns without having completed its request must have given it
to somebody who will. `DocumentCode.Sfsd.exists_forgotten_iff` lists the requests of which
this driver keeps no track: it returns, holds the request still, and nothing that can
happen brings it any further.

That each request on the list can be forgotten is shown by a kernel in which it is:
one that has everything to spare, one without a free resource, or one with a full cache.
-/

namespace DocumentCode

namespace Sfsd

open Seh

variable {q : Request} {s : Flow} {wait : Bool} {w : World} {held : List Resource}

/-- The driver has been at the request, and nobody has it. -/
def Flow.Forgotten (s : Flow) : Prop :=
  0 < s.passes ∧ s.world.halted = none ∧ ∃ record held, s.world.ledger = some ⟨none, record, held⟩

/-- A kernel in which no resource is free. -/
def busy : Kernel := { idle with free := fun _ => false }

/-- A kernel whose cache is full. -/
def full : Kernel := { idle with canWrite := false }

/-! ### Each in its kernel -/

theorem commonRead_forgets (h : Ready q wait w) (hf : w.fsContext = true)
    (hq : q.readLoses held) (hsize : q.byteOffset ≤ w.sizes.fileSize) :
    (commonRead q idle).wp (atExcept (fun _ => exceptionHandler) fun _ w' =>
      w'.halted = none ∧ w'.ledger = some ⟨none, true, held⟩) w := by
  rw [commonRead, wp_locals, wp_bind, wp_tryFinally]
  obtain ⟨⟨hcomplete, hdpc, hlength⟩, hnode, ⟨hpage, rfl⟩ | ⟨hpage, hdir, hcache, rfl⟩⟩ := hq
  · simp [readBody, transferMinor, hcomplete, hdpc, hf, transferArguments, hlength, transferVolume,
      hnode, transferKind, hpage, tryPending, ioMarkIrpPending, tryReturn, readFinally, h.halted,
      h.ledger]
  · have hsuccess : NT_SUCCESS STATUS_SUCCESS = true := by decide
    cases hpaging : q.pagingIo <;>
    simp [readBody, transferMinor, hcomplete, hdpc, hf, transferArguments, hlength, transferVolume,
      hnode, transferKind, hpage, hdir, readFlush, hcache, flushCache, setIoStatus, hsuccess,
      transferAcquire, acquireOrPost, hpaging, readTransfer, hsize, tryPending, ioMarkIrpPending,
      tryReturn, readFinally, h.halted, h.ledger, Request.fileResource]

/-- A write that is to be posted. -/
theorem commonWrite_posts (h : Ready q wait w) (hf : w.fsContext = true) (hq : q.posts wait) :
    (commonWrite q busy).wp (atExcept (fun _ => exceptionHandler) fun _ w' =>
      w'.halted = none ∧ w'.ledger = some ⟨none, true, []⟩) w := by
  rw [commonWrite, wp_locals, wp_bind, wp_tryFinally]
  obtain ⟨hcomplete, hposts⟩ := hq
  cases hdpc : q.minor IRP_MN_DPC with
  | true =>
    simp [writeBody, transferMinor, hcomplete, hdpc, tryPost, tryReturn, writeFinally,
      releaseAcquired, h.halted, h.ledger]
  | false =>
    obtain ⟨rfl, hlength, hkind⟩ := hposts.resolve_left (by simp [hdpc])
    cases hnode : q.nodeType with
    | vcb =>
      simp [writeBody, transferMinor, hcomplete, hdpc, hf, transferArguments, hlength,
        transferVolume, hnode, acquireOrPost, h.canBlock, busy, tryPost, tryReturn, writeFinally,
        releaseAcquired, h.halted, h.ledger]
    | fcb =>
      obtain ⟨hpage, hdir⟩ := hkind.resolve_left (by simp [hnode])
      cases hpaging : q.pagingIo <;>
      simp [writeBody, transferMinor, hcomplete, hdpc, hf, transferArguments, hlength,
        transferVolume, hnode, writeDefer, transferKind, hpage, hdir, transferAcquire, hpaging,
        acquireOrPost, h.canBlock, busy, tryPost, tryReturn, writeFinally, releaseAcquired,
        h.halted, h.ledger]

theorem commonWrite_forgets (h : Ready q wait w) (hf : w.fsContext = true)
    (hq : q.writeLoses held) :
    (commonWrite q idle).wp (atExcept (fun _ => exceptionHandler) fun _ w' =>
      w'.halted = none ∧ w'.ledger = some ⟨none, true, held⟩) w := by
  rw [commonWrite, wp_locals, wp_bind, wp_tryFinally]
  obtain ⟨⟨hcomplete, hdpc, hlength⟩, hnode, ⟨hpage, rfl⟩ | ⟨hpage, hdir, hcache, rfl⟩⟩ := hq
  · simp [writeBody, transferMinor, hcomplete, hdpc, hf, transferArguments, hlength, transferVolume,
      hnode, writeDefer, transferKind, hpage, tryPending, ioMarkIrpPending, tryReturn, writeFinally,
      h.halted, h.ledger]
  · have hsuccess : NT_SUCCESS STATUS_SUCCESS = true := by decide
    cases hpaging : q.pagingIo <;>
    simp [writeBody, transferMinor, hcomplete, hdpc, hf, transferArguments, hlength, transferVolume,
      hnode, writeDefer, transferKind, hpage, hdir, writeFlush, hcache, flushCache, setIoStatus,
      hsuccess, transferAcquire, acquireOrPost, hpaging, writeTransfer, tryPending,
      ioMarkIrpPending, tryReturn, writeFinally, h.halted, h.ledger, Request.fileResource]

theorem commonWrite_defers (h : Ready q wait w) (hf : w.fsContext = true)
    (hq : q.writeDefers wait) :
    (commonWrite q full).wp (atExcept (fun _ => exceptionHandler) fun _ w' =>
      w'.halted = none ∧ w'.ledger = some ⟨some .cacheManager, true, []⟩) w := by
  rw [commonWrite, wp_locals, wp_bind, wp_tryFinally]
  obtain ⟨⟨hcomplete, hdpc, hlength⟩, hnode, hcache, rfl⟩ := hq
  simp [writeBody, transferMinor, hcomplete, hdpc, hf, transferArguments, hlength, transferVolume,
    hnode, writeDefer, hcache, h.canBlock, full, tryReturn, writeFinally, h.halted, h.ledger]

/-! ### The list -/

theorem Settled.loses_of_forgotten {RC : NTSTATUS} {record : Bool}
    (hs : Settled q wait RC w) (hl : w.ledger = some ⟨none, record, held⟩) : q.loses wait held := by
  cases hs with
  | lost held' hl' hloses =>
    have heq : held' = held := congrArg Custody.Ledger.held (Option.some.inj (hl'.symm.trans hl))
    exact heq ▸ hloses
  | broken hl' => cases hl'.symm.trans hl
  | completed hl' | posted hl' | forwarded hl' | noted hl' | deferred hl' =>
    cases (Option.some.inj (hl'.symm.trans hl))

/-- What a request may be forgotten for: it is a close, a cleanup or a shutdown; or a transfer
that should go to the disk, past the cache or for the page file; or a write that may have to
be posted, or deferred. -/
def Request.forgettable (q : Request) : Prop :=
  (∃ held, q.loses q.synchronous held) ∨ q.majorFunction = .write ∧ q.writeDefers q.synchronous

theorem forgettable_of_forgotten (h : (requests q).Reachable s) (hs : s.Forgotten) :
    q.forgettable := by
  obtain ⟨hpos, hh, record, held, hl⟩ := hs
  cases standing_of_reachable h with
  | fresh _ hpasses => omega
  | stopped _ hstopped => exact absurd hh hstopped.halted
  | sent RC hsettled => exact Or.inl ⟨held, hsettled.loses_of_forgotten hl⟩
  | worked hworked =>
    cases hworked with
    | rejected _ _ hl' => cases Option.some.inj (hl'.symm.trans hl)
    | settled RC hknows hsettled =>
      refine Or.inl ⟨held, ?_⟩
      have hloses := hsettled.loses_of_forgotten hl
      rcases hknows with hq | hq
      · simp [Request.loses, hq] at hloses
      · simpa [Request.loses, hq] using hloses
  | relayed hl' => cases Option.some.inj (hl'.symm.trans hl)
  | calledBack _ hdefers => exact Or.inr hdefers

/-- Nothing happens to a request any more that has been forgotten. -/
theorem Flow.Forgotten.step_eq_none (hs : s.Forgotten) (e : Event) :
    (requests q).step s e = none := by
  obtain ⟨hpos, hh, record, held, hl⟩ := hs
  have hwith (h : Holder) : ¬s.world.isWith h = true := by
    rw [World.isWith_iff]
    rintro ⟨-, ℓ, hl', hholder⟩
    obtain rfl := Option.some.inj (hl.symm.trans hl')
    cases hholder
  cases e with
  | send => exact if_neg (Nat.pos_iff_ne_zero.mp hpos)
  | work | lower | report | callBack => exact if_neg (hwith _)

theorem lookUp_forgets (h : Ready q wait w) (hf : w.fsContext = true) :
    lookUp.wp (atExcept (fun _ => exceptionHandler) fun _ w' =>
      w'.halted = none ∧ w'.ledger = some ⟨none, true, []⟩) w := by
  simp [lookUp, hf, h.halted, h.ledger]

theorem commonShutdown_forgets (h : Ready q wait w) :
    commonShutdown.wp (atExcept (fun _ => exceptionHandler) fun _ w' =>
      w'.halted = none ∧ w'.ledger = some ⟨none, true, []⟩) w :=
  ⟨h.halted, h.ledger⟩

/-- What a dispatch routine does with the request is done in a run. -/
theorem exists_forgotten_of_common {k : Kernel} (hk : (k.zone || k.pool) = true)
    {common : Code NTSTATUS} (hdispatch : dispatch q k = dispatchRoutine q k common)
    (hmajor : q.majorFunction ≠ .create)
    (hcommon : ∀ w, Ready q q.synchronous w → w.fsContext = true →
      w.sizes.fileSize = q.byteOffset → common.wp (atExcept (fun _ => exceptionHandler)
        fun _ w' => w'.halted = none ∧ w'.ledger = some ⟨none, true, held⟩) w) :
    ∃ s, (requests q).Reachable s ∧ s.Forgotten := by
  suffices h : (dispatch q k).wp (Served (fun _ w =>
      w.halted = none ∧ w.ledger = some ⟨none, true, held⟩) .start)
      (World.start q q.byteOffset, .start) by
    obtain ⟨s, hs, hpasses, hh, hl⟩ := exists_of_dispatch h
    exact ⟨s, hs, by omega, hh, true, held, hl⟩
  rw [hdispatch]
  refine dispatchRoutine_spec (World.fresh_start q _) (fun hk' => ?_) ?_
  · exact absurd (hk'.symm.trans hk) (by decide)
  · rintro w hw ⟨c, rfl⟩
    exact hcommon _ hw (World.fsContext_start hmajor q.byteOffset) rfl

theorem exists_forgotten_of_loses (hq : q.loses q.synchronous held) :
    ∃ s, (requests q).Reachable s ∧ s.Forgotten := by
  rw [Request.loses] at hq
  split at hq
  next hmajor =>
    exact exists_forgotten_of_common (k := idle) rfl (by simp only [dispatch, hmajor]; rfl)
      (by simp [hmajor]) fun w hw hf hsize => commonRead_forgets hw hf hq hsize.ge
  next hmajor =>
    have hcreate : q.majorFunction ≠ .create := by simp [hmajor]
    rcases hq with ⟨hposts, rfl⟩ | hloses
    · exact exists_forgotten_of_common (k := busy) rfl (by simp only [dispatch, hmajor]; rfl)
        hcreate fun w hw hf _ => commonWrite_posts hw hf hposts
    · exact exists_forgotten_of_common (k := idle) rfl (by simp only [dispatch, hmajor]; rfl)
        hcreate fun w hw hf _ => commonWrite_forgets hw hf hloses
  next hmajor =>
    subst hq
    exact exists_forgotten_of_common (k := idle) rfl (by simp only [dispatch, hmajor]; rfl)
      (by simp [hmajor]) fun w hw hf _ => lookUp_forgets hw hf
  next hmajor =>
    subst hq
    exact exists_forgotten_of_common (k := idle) rfl (by simp only [dispatch, hmajor]; rfl)
      (by simp [hmajor]) fun w hw hf _ => lookUp_forgets hw hf
  next hmajor =>
    subst hq
    exact exists_forgotten_of_common (k := idle) rfl (by simp only [dispatch, hmajor]; rfl)
      (by simp [hmajor]) fun w hw _ _ => commonShutdown_forgets hw
  next => exact hq.elim

/-- The cache manager calls back, and nothing is done. -/
theorem exists_forgotten_of_defers (hmajor : q.majorFunction = .write)
    (hq : q.writeDefers q.synchronous) : ∃ s, (requests q).Reachable s ∧ s.Forgotten := by
  suffices h : (dispatch q full).wp (Served (fun _ w =>
      w.halted = none ∧ w.ledger = some ⟨some .cacheManager, true, []⟩) .start)
      (World.start q 0, .start) by
    obtain ⟨s, hs, hpasses, hh, hl⟩ := exists_of_dispatch h
    have hw : s.world.isWith .cacheManager = true := World.isWith_iff.mpr ⟨hh, _, hl, rfl⟩
    refine ⟨_, hs.step trivial (e := .callBack) (if_pos hw), ?_, hh, true, [], ?_⟩
    · show 0 < s.passes
      omega
    · show (s.world.enter (.take .cacheManager)).ledger = _
      simp [hl, Custody.Holders.final]
  simp only [dispatch, hmajor]
  refine dispatchRoutine_spec (World.fresh_start q _) (fun hk => ?_) ?_
  · simp [full] at hk
  · rintro w hw ⟨c, rfl⟩
    exact commonWrite_defers hw (World.fsContext_start (by simp [hmajor]) 0) hq

/-- **The requests that the driver can forget** are those of
`DocumentCode.Sfsd.Request.forgettable`. Each of them is forgotten in some run, for good,
and no other request is in any. -/
theorem exists_forgotten_iff :
    (∃ s, (requests q).Reachable s ∧ s.Forgotten ∧ ∀ e, (requests q).step s e = none) ↔
      q.forgettable := by
  constructor
  · rintro ⟨s, h, hs, -⟩
    exact forgettable_of_forgotten h hs
  intro hq
  obtain ⟨s, h, hs⟩ : ∃ s, (requests q).Reachable s ∧ s.Forgotten := by
    rcases hq with ⟨held, hq⟩ | ⟨hmajor, hq⟩
    · exact exists_forgotten_of_loses hq
    · exact exists_forgotten_of_defers hmajor hq
  exact ⟨s, h, hs, hs.step_eq_none⟩

end Sfsd

end DocumentCode
