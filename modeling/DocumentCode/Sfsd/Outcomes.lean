import DocumentCode.Sfsd.Runs

/-!
# What becomes of requests

The results about all runs of the system `DocumentCode.Sfsd.requests`, for a request that
may ask for anything, kernels that may answer anything, and steps in any order.

The books of a request are in order as long as nobody touches it, or its context, without
holding it. `DocumentCode.Sfsd.exists_ledger_eq_none_iff` says for which requests they can
get out of order: those to watch a directory, or what is taken for one. For all others
`DocumentCode.Sfsd.completed_once` bounds what can have happened, and
`DocumentCode.Sfsd.mayHold_of_reachable` says which resources stay held.

The work queue serves opens and reads only
(`DocumentCode.Sfsd.rejected_of_two_le_passes`), and a read for deferred calls never leaves
it (`DocumentCode.Sfsd.posted_forever`). Opens succeed for the device of the driver, for a
volume and for the name of the root directory (`DocumentCode.Sfsd.openedBy_of_reachable`);
for any other name their thread never returns (`DocumentCode.Sfsd.exists_loop_iff`).

A thread may send many requests; `DocumentCode.Sfsd.criticalRegions_serve` says how far it
gets, and how often it is still in the file system then.
-/

namespace DocumentCode

namespace Sfsd

open Seh

variable {q : Request} {s : Flow} {ℓ : Ledger}

/-! ### Books that stay in order -/

theorem Standing.ledger_ne_none (hs : Standing q s) (hq : ¬q.breaks) :
    s.world.ledger ≠ none := by
  cases hs with
  | fresh hf => simp [hf.ledger]
  | stopped _ hstopped => exact hstopped.ledger
  | sent RC hsettled =>
    cases hsettled with
    | broken _ hbreaks => exact absurd hbreaks hq
    | completed hl | posted hl | forwarded hl | noted hl | deferred hl | lost _ hl => simp [hl]
  | worked hworked =>
    cases hworked with
    | rejected _ _ hl => simp [hl]
    | settled RC _ hsettled =>
      cases hsettled with
      | broken _ hbreaks => exact absurd hbreaks hq
      | completed hl | posted hl | forwarded hl | noted hl | deferred hl | lost _ hl => simp [hl]
  | relayed hl | calledBack hl => simp [hl]

/-- **Whatever a request asks for, it is completed at most once, its context is not freed
more often than allocated, and no resource is released more often than acquired**, in any
run, unless it is to watch a directory, or a file that is taken for one. -/
theorem completed_once (hq : ¬q.breaks) (h : (requests q).Reachable s) :
    s.world.acts.count (.give .ioManager) ≤ 1 ∧
      s.world.acts.count .free ≤ s.world.acts.count .allocate ∧
      ∀ r, s.world.acts.count (.release r) ≤ s.world.acts.count (.acquire r) := by
  obtain ⟨ℓ, hl⟩ := Option.ne_none_iff_exists'.mp
    ((standing_of_reachable h).ledger_ne_none hq)
  rw [World.ledger] at hl
  refine ⟨Custody.Ledger.count_give_le_one hl rfl, ?_, fun r => ?_⟩
  · have hcount := Custody.Ledger.count_allocate hl
    simp only [opened, Bool.toNat_false] at hcount
    omega
  · have hcount := Custody.Ledger.count_acquire (r := r) hl
    simp only [opened, List.count_nil] at hcount
    omega

/-- A query of the position in a file. -/
theorem completed_once_query :
    (sent (plain .queryInformation) idle 0).world.acts.count (.give .ioManager) ≤ 1 ∧
      (sent (plain .queryInformation) idle 0).world.acts.count .free ≤
        (sent (plain .queryInformation) idle 0).world.acts.count .allocate ∧
      ∀ r, (sent (plain .queryInformation) idle 0).world.acts.count (.release r) ≤
        (sent (plain .queryInformation) idle 0).world.acts.count (.acquire r) :=
  completed_once (by simp [Request.breaks, plain])
    (reachable_sent (plain .queryInformation) idle 0)

/-- What may be held when nobody is working on a request: nothing, but **a request that has
set information about a file keeps its paging resource**, and one that should be read from
the disk or written to it keeps the resource it has acquired. -/
def Request.mayHold (q : Request) (ℓ : Ledger) : Prop :=
  ℓ.held = [] ∨
    (ℓ = ⟨some .ioManager, false, [.pagingIo]⟩ ∧ q.majorFunction = .setInformation ∧
      q.nodeType = .fcb) ∨
    (ℓ = ⟨none, true, [q.fileResource]⟩ ∧ q.noCache = true ∧
      (q.majorFunction = .read ∨ q.majorFunction = .write))

theorem Settled.mayHold {wait : Bool} {RC : NTSTATUS} {w : World} (hs : Settled q wait RC w)
    (hl : w.ledger = some ℓ) : q.mayHold ℓ := by
  cases hs with
  | broken hl' => cases hl'.symm.trans hl
  | posted hl' | forwarded hl' | noted hl' | deferred hl' =>
    obtain rfl := Option.some.inj (hl'.symm.trans hl)
    exact Or.inl rfl
  | completed hl' =>
    obtain rfl := Option.some.inj (hl'.symm.trans hl)
    rw [Request.keeps]
    split
    next hq => exact Or.inr (Or.inl ⟨rfl, hq⟩)
    next => exact Or.inl rfl
  | lost held hl' hloses =>
    obtain rfl := Option.some.inj (hl'.symm.trans hl)
    rw [Request.loses] at hloses
    split at hloses
    next hq =>
      obtain ⟨-, -, ⟨-, rfl⟩ | ⟨-, -, hcache, rfl⟩⟩ := hloses
      · exact Or.inl rfl
      · exact Or.inr (Or.inr ⟨rfl, hcache, Or.inl hq⟩)
    next hq =>
      obtain ⟨-, rfl⟩ | ⟨-, -, ⟨-, rfl⟩ | ⟨-, -, hcache, rfl⟩⟩ := hloses
      · exact Or.inl rfl
      · exact Or.inl rfl
      · exact Or.inr (Or.inr ⟨rfl, hcache, Or.inr hq⟩)
    all_goals first | exact Or.inl hloses | exact hloses.elim

/-- **Where the books are in order and no thread is at work on a request, no resource is
held** for it, in any run, but for those that `DocumentCode.Sfsd.Request.mayHold` names. -/
theorem mayHold_of_reachable (h : (requests q).Reachable s) (hh : s.world.halted = none)
    (hl : s.world.ledger = some ℓ) : q.mayHold ℓ := by
  cases standing_of_reachable h with
  | fresh hf =>
    obtain rfl := Option.some.inj (hf.ledger.symm.trans hl)
    exact Or.inl rfl
  | stopped _ hstopped => exact absurd hh hstopped.halted
  | sent RC hsettled => exact hsettled.mayHold hl
  | worked hworked =>
    cases hworked with
    | settled RC _ hsettled => exact hsettled.mayHold hl
    | rejected _ _ hl' =>
      obtain rfl := Option.some.inj (hl'.symm.trans hl)
      exact Or.inl rfl
  | relayed hl' | calledBack hl' =>
    obtain rfl := Option.some.inj (hl'.symm.trans hl)
    exact Or.inl rfl

/-- The paging resource is held for good once a position has been set. -/
theorem mayHold_setInformation :
    (plain .setInformation).mayHold ⟨some .ioManager, false, [.pagingIo]⟩ :=
  mayHold_of_reachable (reachable_sent (plain .setInformation) idle 0) (by decide) (by decide)

/-! ### The work queue -/

/-- **The work queue only serves opens and reads**: any other request that a worker takes up
is completed with an error, and its context is never freed. And no request is taken up
twice but a read that is to be posted in any case. -/
theorem rejected_of_two_le_passes (h : (requests q).Reachable s) (hpasses : 2 ≤ s.passes) :
    (q.majorFunction = .create ∨ q.majorFunction = .read ∨
      s.world.ledger = some ⟨some .ioManager, true, []⟩ ∧
        s.world.ioStatus = (STATUS_INVALID_DEVICE_REQUEST, 0) ∧
        s.world.acts.count .allocate = s.world.acts.count .free + 1) ∧
      (s.passes = 2 ∨ q.postsAgain) := by
  cases standing_of_reachable h with
  | fresh _ h | sent _ _ _ h | relayed _ _ _ h | calledBack _ _ _ h => omega
  | stopped _ _ h =>
    obtain ⟨-, h⟩ | ⟨-, hq, -, hpasses⟩ := h
    · omega
    · exact ⟨hq.imp_right Or.inl, hpasses.imp_right And.left⟩
  | worked hworked _ hpasses =>
    refine ⟨?_, hpasses.imp_right And.left⟩
    cases hworked with
    | settled RC hq => exact hq.imp_right Or.inl
    | rejected _ _ hl hio =>
      refine Or.inr (Or.inr ⟨hl, hio, ?_⟩)
      simpa [opened] using Custody.Ledger.count_allocate hl

/-- A flush by a caller who does not wait. -/
def laterFlush : Request := { plain .flushBuffers with synchronous := false }

theorem rejected_laterFlush :
    (laterFlush.majorFunction = .create ∨ laterFlush.majorFunction = .read ∨
      (worked laterFlush idle 0).world.ledger = some ⟨some .ioManager, true, []⟩ ∧
        (worked laterFlush idle 0).world.ioStatus = (STATUS_INVALID_DEVICE_REQUEST, 0) ∧
        (worked laterFlush idle 0).world.acts.count .allocate =
          (worked laterFlush idle 0).world.acts.count .free + 1) ∧
      ((worked laterFlush idle 0).passes = 2 ∨ laterFlush.postsAgain) :=
  rejected_of_two_le_passes (reachable_worked (by decide)) le_rfl

/-- On the work queue, with a context in order. -/
structure OnQueue (w : World) : Prop where
  ledger : w.ledger = some ⟨some .workQueue, true, []⟩
  exception : w.context.exception = false
  halted : w.halted = none

theorem commonRead_onQueue {k : Kernel} {w : World} (hl : w.ledger = some ⟨none, true, []⟩)
    (he : w.context.exception = false) (hh : w.halted = none) (hq : q.postsAgain) :
    (commonRead q k).wp (fun r w' => r = .done STATUS_PENDING ∧ OnQueue w') w := by
  obtain ⟨-, hcomplete, hdpc⟩ := hq
  rw [commonRead, wp_locals, wp_bind, wp_tryFinally]
  simp [readBody, transferMinor, hcomplete, hdpc, tryPost, tryReturn]
  have hl' : w.ledger = some ⟨none, true, (none : Option Resource).toList⟩ := hl
  refine (readFinally_posts hl' he hh rfl rfl).mono ?_
  rintro r p ⟨rfl, hl', he', hh', -, hRC⟩
  rw [next_done, wp_bind, wp_getVars, next_done, hRC]
  exact ⟨rfl, hl', he', hh'⟩

/-- The first pass posts it, unless there is no memory for its context. -/
theorem send_onQueue {k : Kernel} {t : Thread} (hf : Fresh q s.world) (hq : q.postsAgain) :
    (dispatch q k).wp (Served (fun _ w =>
      (k.zone || k.pool) = true ∨ w.halted = none → OnQueue w) t) (s.world, t) := by
  simp only [dispatch, hq.1]
  refine dispatchRoutine_spec hf (fun hk => ?_) fun w hw _ => ?_
  · rintro (hk' | hh)
    · exact absurd (hk.symm.trans hk') (by decide)
    · cases hh
  refine (commonRead_onQueue hw.ledger hw.exception hw.halted hq).mono ?_
  rintro r w' ⟨rfl, h⟩ -
  exact h

/-- Every later pass posts it again. -/
theorem work_onQueue {k : Kernel} {t : Thread} (h : OnQueue s.world) (hq : q.postsAgain) :
    (commonDispatch q k).wp (fun _ p => OnQueue p.1) (s.world.enter (.take .workQueue), t) := by
  have htaken : Taken q (s.world.enter (.take .workQueue)) :=
    ⟨by simp [h.ledger, Custody.Holders.final], h.halted, fun _ => h.exception,
      fun hcreate => by simp [hq.1] at hcreate⟩
  have hspec : (commonDispatch q k).wp (Dispatched (fun _ w => OnQueue w) t)
      (s.world.enter (.take .workQueue), t) := by
    refine commonDispatch_spec htaken fun w hw _ => ?_
    simp only [dispatchCommon, hq.1]
    refine (commonRead_onQueue hw.ledger (hw.exception (Or.inl hq.1)) hw.halted hq).mono ?_
    rintro r w' ⟨rfl, h⟩
    exact h
  exact hspec.mono fun r p h => h.world

/-- Either it has not been sent, or it is on the work queue. -/
def Circling (q : Request) (s : Flow) : Prop :=
  Fresh q s.world ∧ s.passes = 0 ∨ 0 < s.passes ∧ (s.world.halted = none → OnQueue s.world)

theorem Circling.step {e : Event} {s' : Flow} (hs : Circling q s) (hq : q.postsAgain)
    (hstep : (requests q).step s e = some s') : Circling q s' := by
  have hwith {h : Holder} (hw : s.world.isWith h = true) : OnQueue s.world ∧ h = .workQueue := by
    obtain ⟨hh, ℓ, hl, hholder⟩ := World.isWith_iff.mp hw
    rcases hs with ⟨hf, -⟩ | ⟨-, hs⟩
    · obtain rfl := Option.some.inj (hf.ledger.symm.trans hl)
      cases hholder
    · obtain rfl := Option.some.inj ((hs hh).ledger.symm.trans hl)
      exact ⟨hs hh, (Option.some.inj hholder).symm⟩
  refine Or.inr ?_
  cases e with
  | send k t =>
    obtain ⟨hpasses, hstep⟩ := Option.ite_none_right_eq_some.mp hstep
    obtain rfl := Option.some.inj hstep
    rcases hs with ⟨hf, -⟩ | ⟨hpos, -⟩
    · exact ⟨Nat.one_pos, fun hh => (send_onQueue hf hq).1 (Or.inr hh)⟩
    · omega
  | work k t =>
    obtain ⟨hw, hstep⟩ := Option.ite_none_right_eq_some.mp hstep
    obtain rfl := Option.some.inj hstep
    exact ⟨Nat.succ_pos _, fun _ => work_onQueue (hwith hw).1 hq⟩
  | lower | report | callBack =>
    obtain ⟨hw, -⟩ := Option.ite_none_right_eq_some.mp hstep
    cases (hwith hw).2

/-- **A read with the minor function for deferred calls goes round for ever**: whenever no
thread is at work on it, it is on the work queue, and it is there after any number of
passes. -/
theorem posted_forever (hq : q.postsAgain) :
    (∀ s, (requests q).Reachable s → 0 < s.passes → s.world.halted = none →
      s.world.ledger = some ⟨some .workQueue, true, []⟩) ∧
    ∀ n, ∃ s, (requests q).Reachable s ∧ s.passes = n := by
  have hcircling {s : Flow} (h : (requests q).Reachable s) : Circling q s :=
    h.invariant (fun _ hs => Or.inl hs) fun _ _ _ hs _ => hs.step hq
  refine ⟨fun s h hpos hh => ?_, fun n => ?_⟩
  · rcases hcircling h with ⟨-, hzero⟩ | ⟨-, hs⟩
    · omega
    · exact (hs hh).ledger
  · suffices h : ∃ s, (requests q).Reachable s ∧ s.passes = n ∧ (0 < n → OnQueue s.world) by
      obtain ⟨s, hs, hn, -⟩ := h
      exact ⟨s, hs, hn⟩
    induction n with
    | zero => exact ⟨_, Flow.reachable_start q 0, rfl, fun h => absurd h (lt_irrefl 0)⟩
    | succ n ih =>
      obtain ⟨s, hs, hn, hqueue⟩ := ih
      rcases Nat.eq_zero_or_pos n with rfl | hpos
      · refine ⟨_, hs.step trivial (e := .send idle .start) (if_pos hn), rfl, fun _ => ?_⟩
        rcases hcircling hs with ⟨hf, -⟩ | ⟨hpos, -⟩
        · exact (send_onQueue hf hq).1 (Or.inl rfl)
        · omega
      · obtain ⟨hl, he, hh⟩ := hqueue hpos
        have hw : s.world.isWith .workQueue = true :=
          World.isWith_iff.mpr ⟨hh, _, hl, rfl⟩
        refine ⟨_, hs.step trivial (e := .work idle .start) (if_pos hw), by rw [hn], fun _ => ?_⟩
        exact work_onQueue ⟨hl, he, hh⟩ hq

/-- A read for a deferred call. -/
def dpcRead : Request := { plain .read with minorFunction := IRP_MN_DPC }

theorem posted_forever_dpcRead :
    (∀ s, (requests dpcRead).Reachable s → 0 < s.passes → s.world.halted = none →
      s.world.ledger = some ⟨some .workQueue, true, []⟩) ∧
    ∀ n, ∃ s, (requests dpcRead).Reachable s ∧ s.passes = n :=
  posted_forever (by unfold Request.postsAgain; decide)

/-! ### Books that get out of order -/

/-- **What opens can achieve**: one that is reported as successful is of the device of the
driver itself, and has opened nothing; or it is of a volume and has opened that, or has the
name of the root directory and has opened nothing. -/
theorem openedBy_of_reachable (hq : q.majorFunction = .create)
    (h : (requests q).Reachable s) (hw : s.world.isWith .ioManager = true)
    (hsuccess : NT_SUCCESS s.world.ioStatus.1 = true) :
    q.create.ownDevice = true ∧ s.world.fsContext = false ∨
      q.create.ownDevice = false ∧ OpenedBy q s.world := by
  obtain ⟨hh, ℓ, hl, hholder⟩ := World.isWith_iff.mp hw
  have hsettled {wait : Bool} {RC : NTSTATUS} (hs : Settled q wait RC s.world) :
      q.create.ownDevice = true ∧ s.world.fsContext = false ∨
        q.create.ownDevice = false ∧ OpenedBy q s.world := by
    cases hs with
    | completed _ hio hsuccess' => exact hsuccess' hq (hio ▸ hsuccess)
    | broken hl' => cases hl'.symm.trans hl
    | posted hl' | forwarded hl' | noted hl' | deferred hl' | lost _ hl' =>
      obtain rfl := Option.some.inj (hl'.symm.trans hl)
      cases hholder
  cases standing_of_reachable h with
  | fresh hf =>
    obtain rfl := Option.some.inj (hf.ledger.symm.trans hl)
    cases hholder
  | stopped _ hstopped => exact absurd hh hstopped.halted
  | sent RC hs => exact hsettled hs
  | worked hworked =>
    cases hworked with
    | settled RC _ hs => exact hsettled hs
    | rejected hcreate => exact absurd hq hcreate
  | relayed _ hrelays => simp [hq] at hrelays
  | calledBack _ hdefers => simp [hq] at hdefers

/-- An open of the volume, with the disposition `FILE_OPEN`. -/
def volumeOpen : Request :=
  { plain .create with create := { (plain .create).create with options := 0x01000000 } }

theorem openedBy_volumeOpen :
    volumeOpen.create.ownDevice = true ∧ (sent volumeOpen idle 0).world.fsContext = false ∨
      volumeOpen.create.ownDevice = false ∧ OpenedBy volumeOpen (sent volumeOpen idle 0).world :=
  openedBy_of_reachable rfl (reachable_sent volumeOpen idle 0) (by decide) (by decide)

/-- An open that is in the loop got there as soon as its thread could wait. -/
theorem Standing.loop (hs : Standing q s) (hq : q.majorFunction = .create)
    (hloop : s.world.halted = some .loop) :
    s.world.ledger = some ⟨none, true, [.vcb]⟩ ∧
      (q.create.ownDevice = false ∧ q.create.looksUp = true) ∧
      s.passes = if q.synchronous then 1 else 2 := by
  cases hs with
  | stopped wait hstopped hpasses =>
    obtain ⟨hl, hown, hlooks, rfl⟩ := hstopped.loop hq hloop
    refine ⟨hl, ⟨hown, hlooks⟩, ?_⟩
    have hread : ¬q.postsAgain := fun hread =>
      absurd (hq.symm.trans hread.1) (by decide)
    obtain ⟨hwait, hpasses⟩ | ⟨-, -, hposted, hpasses⟩ := hpasses
    · rw [← hwait, hpasses]
      rfl
    · rw [hposted.resolve_right hread, hpasses.resolve_right fun h => hread h.1]
      rfl
  | fresh hf => simp [hf.halted] at hloop
  | sent _ _ hh | worked _ hh | relayed _ _ hh | calledBack _ _ hh => simp [hh] at hloop

theorem commonCreate_loops {w : World} (h : Ready q true w) (hq : q.create.looksUp = true) :
    (commonCreate q idle).wp (atExcept (fun _ => exceptionHandler) fun _ w' =>
      w'.halted = some .loop) w := by
  rw [commonCreate, wp_locals, wp_bind, wp_tryFinally]
  simp only [Open.looksUp, Bool.and_eq_true, decide_eq_true_eq, Bool.not_eq_true'] at hq
  obtain ⟨⟨⟨⟨⟨hrelated, hhigh⟩, hlocked⟩, hvolume⟩, hformed⟩, hroot⟩ := hq
  rw [Open.wellFormed] at hformed
  simp [createBody, createArguments, h.canBlock, hrelated, hhigh, createAcquire, hlocked,
    createVolume, hvolume, createPath]
  cases hr : q.create.related with
  | some r =>
    simp [hr] at hformed
    obtain ⟨⟨⟨⟨⟨hnode, hdir⟩, hname⟩, hhead⟩, htarget⟩, hlength⟩ := hformed
    simp [relativePath, createLookup, hroot, hnode, hdir, hname, hhead, hlength]
    exact fun hlength htarget' => absurd htarget' (htarget.resolve_left hlength)
  | none =>
    simp [hr] at hformed
    simp [absolutePath, createLookup, hroot, hformed]

/-- An open that cannot wait is posted. -/
theorem commonCreate_onQueue {w : World} (h : Ready q false w) (hf : w.fsContext = false) :
    (commonCreate q idle).wp (atExcept (fun _ => exceptionHandler) fun _ w' =>
      OnQueue w' ∧ w'.fsContext = false) w := by
  rw [commonCreate, wp_locals, wp_bind, wp_tryFinally]
  simp [createBody, createArguments, h.canBlock, postRequest, ioMarkIrpPending, Create.tryReturn,
    createFinally]
  exact ⟨⟨by simp [h.ledger], h.exception, h.halted⟩, hf⟩

/-- **The opens that never return are those of a name that is to be looked up**: on a volume
that is not locked, any well-formed name but that of the root directory. The thread is in an
empty loop then, and holds the volume for good. It is the thread that has sent the request,
if that may wait, and a worker thread otherwise. -/
theorem exists_loop_iff (hq : q.majorFunction = .create) :
    ((∃ s, (requests q).Reachable s ∧ s.world.halted = some .loop ∧
      s.world.ledger = some ⟨none, true, [.vcb]⟩) ↔
        q.create.ownDevice = false ∧ q.create.looksUp = true) ∧
      ∀ s, (requests q).Reachable s → s.world.halted = some .loop →
        s.passes = if q.synchronous then 1 else 2 := by
  refine ⟨?_, fun s h hloop => ((standing_of_reachable h).loop hq hloop).2.2⟩
  constructor
  · rintro ⟨s, h, hloop, -⟩
    exact ((standing_of_reachable h).loop hq hloop).2.1
  rintro ⟨hown, hlooks⟩
  obtain ⟨s, h, hloop⟩ : ∃ s, (requests q).Reachable s ∧ s.world.halted = some .loop := by
    have hdispatch : dispatch q idle = dispatchRoutine q idle (commonCreate q idle) := by
      simp [dispatch, hq, create, dispatchRoutine, hown]
    have hfresh := World.fresh_start q 0
    cases hwait : q.synchronous with
    | true =>
      suffices h : (dispatch q idle).wp (Served (fun _ w => w.halted = some .loop) .start)
          (World.start q 0, .start) by
        obtain ⟨s, hs, -, hloop⟩ := exists_of_dispatch h
        exact ⟨s, hs, hloop⟩
      rw [hdispatch]
      exact dispatchRoutine_spec hfresh (fun hk => by simp at hk)
        fun w hw _ => commonCreate_loops (hwait ▸ hw) hlooks
    | false =>
      -- the worker may wait, and gets into the loop instead
      have h : (dispatch q idle).wp (Served (fun _ w => OnQueue w ∧ w.fsContext = false) .start)
          (World.start q 0, .start) := by
        rw [hdispatch]
        exact dispatchRoutine_spec hfresh (fun hk => by simp at hk) fun w hw _ =>
          commonCreate_onQueue (hwait ▸ hw) (hw.fsContext hq)
      obtain ⟨s, hs, -, ⟨hl, he, hh⟩, hf⟩ := exists_of_dispatch h
      have hw : s.world.isWith .workQueue = true := World.isWith_iff.mpr ⟨hh, _, hl, rfl⟩
      have htaken : Taken q (s.world.enter (.take .workQueue)) :=
        ⟨by simp [hl, Custody.Holders.final], hh, fun _ => he, fun _ => ⟨hown, hf⟩⟩
      refine ⟨_, hs.step trivial (e := .work idle .start) (if_pos hw), ?_⟩
      have hspec : (commonDispatch q idle).wp (Dispatched (fun _ w => w.halted = some .loop) .start)
          (s.world.enter (.take .workQueue), .start) := by
        refine commonDispatch_spec htaken fun w hw hblock => ?_
        simp only [dispatchCommon, hq]
        exact commonCreate_loops ⟨hw.ledger, hblock, hw.exception (Or.inr hq), hw.halted,
          fun hcreate => (hw.opens hcreate).2⟩ hlooks
      exact hspec.world
  exact ⟨s, h, hloop, ((standing_of_reachable h).loop hq hloop).1⟩

/-- An open of a file whose name has one character after the backslash. -/
def fileOpen : Request :=
  { plain .create with
    create := { (plain .create).create with target := ⟨4, by decide, [backslash, 97]⟩ } }

theorem exists_loop_fileOpen :
    ((∃ s, (requests fileOpen).Reachable s ∧ s.world.halted = some .loop ∧
      s.world.ledger = some ⟨none, true, [.vcb]⟩) ↔
        fileOpen.create.ownDevice = false ∧ fileOpen.create.looksUp = true) ∧
      ∀ s, (requests fileOpen).Reachable s → s.world.halted = some .loop →
        s.passes = if fileOpen.synchronous then 1 else 2 :=
  exists_loop_iff rfl

example : fileOpen.create.looksUp = true := by decide

/-! ### Threads over many requests -/

end Sfsd

end DocumentCode
