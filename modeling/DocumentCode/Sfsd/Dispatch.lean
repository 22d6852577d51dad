import DocumentCode.Sfsd.Create
import DocumentCode.Sfsd.DirControl
import DocumentCode.Sfsd.FileInfo
import DocumentCode.Sfsd.Read
import DocumentCode.Sfsd.Write

/-!
# Dispatch routines and the worker

The routines of the major function table do the same around the one that does the work:
they enter the file system, see whether the request is the top-level one of their thread,
allocate a context, watch for exceptions, and leave the file system. A request that has
been posted is taken up by `SFsdCommonDispatch` in a worker thread, which knows two major
functions.

`DocumentCode.Sfsd.dispatch_spec` puts together what becomes of a request in its first
pass, whatever it asks for, and `DocumentCode.Sfsd.dispatchCommon_spec` what becomes of it
in a later one. Both are about the thread as well: it gets out of the file system as often
as it got in, except for opens of the device of the driver itself.
-/

namespace DocumentCode

namespace Sfsd

open Seh

/-! ### Threads -/

/-- What `IoGetTopLevelIrp` returns. -/
inductive TopLevel
  | null
  /-- The packet at hand. -/
  | irp
  /-- `FSRTL_FSP_TOP_LEVEL_IRP` -/
  | fsp
  /-- Another packet, or another mark. -/
  | other
  deriving DecidableEq, Repr

/-- What a thread keeps. -/
structure Thread where
  /-- How often `FsRtlEnterFileSystem` has been called without `FsRtlExitFileSystem`. -/
  criticalRegions : ℤ
  topLevelIrp : TopLevel
  deriving DecidableEq, Repr

/-- Code of the driver that looks at its thread. -/
abbrev ThreadCode (β : Type) := Seh ExceptionRecord (World × Thread) β

def fsRtlEnterFileSystem : ThreadCode Unit :=
  vars fun t => { t with criticalRegions := t.criticalRegions + 1 }

def fsRtlExitFileSystem : ThreadCode Unit :=
  vars fun t => { t with criticalRegions := t.criticalRegions - 1 }

def ioSetTopLevelIrp (topLevelIrp : TopLevel) : ThreadCode Unit :=
  vars fun t => { t with topLevelIrp }

/-- `SFsdIsIrpTopLevel(Irp)` -/
def isIrpTopLevel : ThreadCode Bool := do
  if (← getVars).topLevelIrp = .null then do
    ioSetTopLevelIrp .irp
    return true
  else
    return false

/-! ### The dispatch routines -/

section

variable (q : Request) (k : Kernel)

/-- A dispatch routine, once it has entered the file system. -/
def watch (common : Code NTSTATUS) : ThreadCode NTSTATUS := do
  let areWeTopLevel ← isIrpTopLevel
  let RC ← tryExcept
    (do
      allocateIrpContext q k ((← getVars).topLevelIrp = .irp)
      common)
    fun _ => exceptionHandler
  when areWeTopLevel (ioSetTopLevelIrp .null)
  fsRtlExitFileSystem
  return RC

/-- `SFsdCreate(DeviceObject, Irp)`. The device of the driver itself can be opened at once. -/
def create : ThreadCode NTSTATUS := do
  fsRtlEnterFileSystem
  if q.create.ownDevice then do
    setIoStatus STATUS_SUCCESS FILE_OPENED
    ioCompleteRequest
    return STATUS_SUCCESS
  else
    watch q k (commonCreate q k)

/-- One of the other dispatch routines. -/
def dispatchRoutine (common : Code NTSTATUS) : ThreadCode NTSTATUS := do
  fsRtlEnterFileSystem
  watch q k common

/-- `SFsdClose(DeviceObject, Irp)` -/
def close : ThreadCode NTSTATUS := dispatchRoutine q k commonClose

/-- `SFsdRead(DeviceObject, Irp)` -/
def read : ThreadCode NTSTATUS := dispatchRoutine q k (commonRead q k)

/-- `SFsdWrite(DeviceObject, Irp)` -/
def write : ThreadCode NTSTATUS := dispatchRoutine q k (commonWrite q k)

/-- `SFsdFileInfo(DeviceObject, Irp)` -/
def fileInfo : ThreadCode NTSTATUS := dispatchRoutine q k (commonFileInfo q k)

/-- `SFsdFlush(DeviceObject, Irp)` -/
def flush : ThreadCode NTSTATUS := dispatchRoutine q k (commonFlush q k)

/-- `SFsdDirControl(DeviceObject, Irp)` -/
def dirControl : ThreadCode NTSTATUS := dispatchRoutine q k (commonDirControl q k)

/-- `SFsdDeviceControl(DeviceObject, Irp)` -/
def deviceControl : ThreadCode NTSTATUS := dispatchRoutine q k (commonDeviceControl k)

/-- `SFsdShutdown(DeviceObject, Irp)` -/
def shutdown : ThreadCode NTSTATUS := dispatchRoutine q k commonShutdown

/-- `SFsdCleanup(DeviceObject, Irp)` -/
def cleanup : ThreadCode NTSTATUS := dispatchRoutine q k commonCleanup

/-- The table that `SFsdInitializeFunctionPointers` fills. -/
def dispatch : ThreadCode NTSTATUS :=
  match q.majorFunction with
  | .create => create q k
  | .close => close q k
  | .read => read q k
  | .write => write q k
  | .queryInformation => fileInfo q k
  | .setInformation => fileInfo q k
  | .flushBuffers => flush q k
  | .directoryControl => dirControl q k
  | .deviceControl => deviceControl q k
  | .shutdown => shutdown q k
  | .cleanup => cleanup q k

/-- What `SFsdCommonDispatch` does with a request. -/
def dispatchCommon : Code NTSTATUS :=
  match q.majorFunction with
  | .create => commonCreate q k
  | .read => commonRead q k
  | _ => do
    setIoStatus STATUS_INVALID_DEVICE_REQUEST 0
    ioCompleteRequest
    return STATUS_INVALID_DEVICE_REQUEST

/-- `SFsdCommonDispatch(Context)` -/
def commonDispatch : ThreadCode Unit := do
  let notTopLevel ← readContext (·.notTopLevel)
  when notTopLevel (ioSetTopLevelIrp .fsp)
  act .consult
  update fun w => w.setContext { w.context with canBlock := true }
  fsRtlEnterFileSystem
  let _ ← tryExcept (dispatchCommon q k) fun _ => exceptionHandler
  fsRtlExitFileSystem
  ioSetTopLevelIrp .null

end

/-! ### How a pass ends -/

namespace Request

variable (q : Request)

/-- A read that is posted in every pass. -/
def postsAgain : Prop :=
  q.majorFunction = .read ∧ q.minor IRP_MN_COMPLETE = false ∧ q.minor IRP_MN_DPC = true

/-- What is still held when the request has been completed. -/
def keeps : List Resource :=
  if q.majorFunction = .setInformation ∧ q.nodeType = .fcb then [.pagingIo] else []

/-- The driver may forget about the request, with these resources held. -/
def loses (wait : Bool) (held : List Resource) : Prop :=
  match q.majorFunction with
  | .read => q.readLoses held
  | .write => q.posts wait ∧ held = [] ∨ q.writeLoses held
  | .close | .cleanup | .shutdown => held = []
  | _ => False

/-- A pass may touch the request, or its context, when it is gone. -/
def breaks : Prop := q.majorFunction = .directoryControl ∧ q.notifies

end Request

/-- **Where a request is after a pass of a thread that may wait or not.** -/
inductive Settled (q : Request) (wait : Bool) (RC : NTSTATUS) (w : World) : Prop
  | completed (ledger : w.ledger = some ⟨some .ioManager, false, q.keeps⟩)
      (ioStatus : w.ioStatus.1 = RC)
      (success : q.majorFunction = .create → NT_SUCCESS RC = true →
        q.create.ownDevice = true ∧ w.fsContext = false ∨
          q.create.ownDevice = false ∧ OpenedBy q w)
  /-- On the work queue. -/
  | posted (ledger : w.ledger = some ⟨some .workQueue, true, []⟩) (eq : RC = STATUS_PENDING)
      (pending : w.pending = true) (posts : wait = false ∨ q.postsAgain)
      (exception : q.majorFunction = .read ∨ q.majorFunction = .create →
        w.context.exception = false)
      (opens : q.majorFunction = .create → q.create.ownDevice = false ∧ w.fsContext = false)
  /-- With the driver below. -/
  | forwarded (ledger : w.ledger = some ⟨some .lowerDriver, false, []⟩)
      (forwards : q.majorFunction = .flushBuffers ∨ q.majorFunction = .deviceControl)
  /-- With the notification package. -/
  | noted (ledger : w.ledger = some ⟨some .notifyList, false, []⟩)
      (notes : q.majorFunction = .directoryControl)
  /-- With the cache manager. -/
  | deferred (ledger : w.ledger = some ⟨some .cacheManager, true, []⟩)
      (defers : q.majorFunction = .write ∧ q.writeDefers wait)
  /-- Nowhere. -/
  | lost (held : List Resource) (ledger : w.ledger = some ⟨none, true, held⟩)
      (loses : q.loses wait held)
  /-- The books are out of order. -/
  | broken (ledger : w.ledger = none) (breaks : q.breaks)

/-- The request is at hand, with its context, in a thread that may wait or not. -/
structure Ready (q : Request) (wait : Bool) (w : World) : Prop where
  ledger : w.ledger = some ⟨none, true, []⟩
  canBlock : w.context.canBlock = wait
  exception : w.context.exception = false
  halted : w.halted = none
  fsContext : q.majorFunction = .create → w.fsContext = false

/-- A thread that does not come back. One that is in the loop of an open holds the volume,
and may wait. -/
structure Stopped (q : Request) (wait : Bool) (w : World) : Prop where
  halted : w.halted ≠ none
  ledger : w.ledger ≠ none
  loop : q.majorFunction = .create → w.halted = some .loop →
    w.ledger = some ⟨none, true, [.vcb]⟩ ∧ q.create.ownDevice = false ∧
      q.create.looksUp = true ∧ wait = true

/-- How a pass ends, whatever it is over. -/
def Passed (q : Request) (wait : Bool) : Exit ExceptionRecord NTSTATUS → World → Prop
  | .done RC, w => w.halted = none ∧ Settled q wait RC w
  | .leave, _ => False
  | .raised _, _ => False
  | .stopped, w => Stopped q wait w

variable {q : Request} {k : Kernel} {wait : Bool} {w : World} {t : Thread}
  {Q : Exit ExceptionRecord NTSTATUS → World → Prop}

theorem Request.keeps_eq_nil (h : q.majorFunction ≠ .setInformation) : q.keeps = [] :=
  if_neg fun hq => h hq.1

/-- The handler completes a request that is at hand. -/
theorem exceptionHandler_completes (hl : w.ledger = some ⟨none, true, q.keeps⟩)
    (hh : w.halted = none) (hcreate : q.majorFunction ≠ .create) :
    exceptionHandler.wp (Passed q wait) w := by
  simp [exceptionHandler, releaseIrpContext, setIoStatus, ioCompleteRequest]
  exact ⟨by simp [hh], .completed (by simp [hl]) rfl fun hq => absurd hq hcreate⟩

/-- The handler reads a context that has been released. -/
theorem exceptionHandler_breaks {holder : Option Holder} {held : List Resource}
    (hl : w.ledger = some ⟨holder, false, held⟩) (hh : w.halted = none) (hq : q.breaks) :
    exceptionHandler.wp (Passed q wait) w := by
  simp [exceptionHandler, releaseIrpContext, setIoStatus, ioCompleteRequest]
  exact ⟨by simp [hh], .broken (by simp [hl]) hq⟩

/-- A routine under the watch of the handler. -/
theorem passed_of_commonEnds {c : Code NTSTATUS} {Ends : NTSTATUS → World → Prop}
    {Unwound : World → Prop} (hq : q.majorFunction ≠ .create)
    (hc : c.wp (CommonEnds Ends Unwound) w)
    (hends : ∀ RC w', Ends RC w' → Settled q wait RC w')
    (hunwound : ∀ w', w'.halted = none → Unwound w' → exceptionHandler.wp (Passed q wait) w') :
    c.wp (atExcept (fun _ => exceptionHandler) (Passed q wait)) w :=
  hc.mono fun r w' h => by
    rcases r with RC | _ | _ | _
    · exact ⟨h.1, hends RC w' h.2⟩
    · exact h.elim
    · exact hunwound w' h.1 h.2.2
    · exact ⟨h.1, h.2, fun hcreate => absurd hcreate hq⟩

theorem commonRead_passed (h : Ready q wait w) (hq : q.majorFunction = .read) :
    (commonRead q k).wp (atExcept (fun _ => exceptionHandler) (Passed q wait)) w := by
  have hset : q.majorFunction ≠ .setInformation := by simp [hq]
  have hcreate : q.majorFunction ≠ .create := by simp [hq]
  refine passed_of_commonEnds hcreate (commonRead_spec h.ledger h.exception h.halted) ?_ ?_
  · rw [h.canBlock]
    rintro RC w' (⟨hl, hs, hne⟩ | ⟨hl, hRC, hpend, he, hposts⟩ | ⟨held, hl, hRC, hpend, hloses⟩)
    · exact .completed (by rw [hl, Request.keeps_eq_nil hset]) hs fun h => absurd h hcreate
    · refine .posted hl hRC hpend ?_ (fun _ => he) fun h => absurd h hcreate
      exact hposts.2.symm.imp And.left fun hdpc => ⟨hq, hposts.1, hdpc⟩
    · exact .lost held hl (by rw [Request.loses, hq]; exact hloses)
  · exact fun w' hh hl =>
      exceptionHandler_completes (hl.trans (by rw [Request.keeps_eq_nil hset])) hh hcreate

theorem commonWrite_passed (h : Ready q wait w) (hq : q.majorFunction = .write) :
    (commonWrite q k).wp (atExcept (fun _ => exceptionHandler) (Passed q wait)) w := by
  have hset : q.majorFunction ≠ .setInformation := by simp [hq]
  have hcreate : q.majorFunction ≠ .create := by simp [hq]
  refine passed_of_commonEnds hcreate (commonWrite_spec h.ledger h.exception h.halted) ?_ ?_
  · rw [h.canBlock]
    rintro RC w' (⟨hl, hs, hne⟩ | ⟨hl, hRC, hdefers⟩ | ⟨held, hl, hRC, hloses⟩)
    · exact .completed (by rw [hl, Request.keeps_eq_nil hset]) hs fun h => absurd h hcreate
    · exact .deferred hl ⟨hq, hdefers⟩
    · exact .lost held hl (by rw [Request.loses, hq]; exact hloses)
  · exact fun w' hh hl =>
      exceptionHandler_completes (hl.trans (by rw [Request.keeps_eq_nil hset])) hh hcreate

theorem commonCreate_passed (h : Ready q wait w) (hq : q.majorFunction = .create)
    (hown : q.create.ownDevice = false) :
    (commonCreate q k).wp (atExcept (fun _ => exceptionHandler) (Passed q wait)) w := by
  have hset : q.majorFunction ≠ .setInformation := by simp [hq]
  refine (commonCreate_spec h.ledger h.exception h.halted (h.fsContext hq)).mono ?_
  simp only [h.canBlock]
  rintro r w' ⟨hends, hloop⟩
  rcases r with RC | _ | _ | _
  · obtain ⟨hh, ⟨hl, hs, hne, hsuccess⟩ | ⟨hl, hRC, hpend, hwait, he, hf⟩⟩ := hends
    · exact ⟨hh, .completed (by rw [hl, Request.keeps_eq_nil hset]) hs
        fun _ hs => Or.inr ⟨hown, hsuccess hs⟩⟩
    · exact ⟨hh, .posted hl hRC hpend (Or.inl hwait) (fun _ => he) fun _ => ⟨hown, hf⟩⟩
  · exact hends.elim
  · exact hends.2.2.elim
  · exact ⟨hends.1, hends.2, fun _ hl => (hloop hl).imp_right (And.intro hown)⟩

theorem commonDirControl_passed (h : Ready q wait w) (hq : q.majorFunction = .directoryControl) :
    (commonDirControl q k).wp (atExcept (fun _ => exceptionHandler) (Passed q wait)) w := by
  have hset : q.majorFunction ≠ .setInformation := by simp [hq]
  have hcreate : q.majorFunction ≠ .create := by simp [hq]
  refine passed_of_commonEnds hcreate (commonDirControl_spec h.ledger h.exception h.halted) ?_ ?_
  · rw [h.canBlock]
    rintro RC w' (⟨hl, hs⟩ | ⟨hl, hRC, hpend, hwait⟩ | ⟨hl, hnotifies⟩ | ⟨hl, hnotifies⟩)
    · exact .completed (by rw [hl, Request.keeps_eq_nil hset]) hs fun h => absurd h hcreate
    · exact .posted hl hRC hpend (Or.inl hwait) (fun h => by simp [hq] at h)
        fun h => absurd h hcreate
    · exact .noted hl hq
    · exact .broken hl ⟨hq, hnotifies⟩
  · rintro w' hh ⟨hnotifies, holder, hl⟩
    exact exceptionHandler_breaks hl hh ⟨hq, hnotifies⟩

theorem commonFlush_passed (h : Ready q wait w) (hq : q.majorFunction = .flushBuffers) :
    (commonFlush q k).wp (atExcept (fun _ => exceptionHandler) (Passed q wait)) w := by
  have hcreate : q.majorFunction ≠ .create := by simp [hq]
  refine passed_of_commonEnds hcreate (commonFlush_spec h.ledger h.halted) ?_
    fun _ _ => False.elim
  rw [h.canBlock]
  rintro RC w' (⟨hl, hRC, hpend, hwait⟩ | ⟨hl, hfile, hwait⟩)
  · exact .posted hl hRC hpend (Or.inl hwait) (fun h => by simp [hq] at h)
      fun h => absurd h hcreate
  · exact .forwarded hl (Or.inl hq)

theorem commonFileInfo_passed (h : Ready q wait w)
    (hq : q.majorFunction = .queryInformation ∨ q.majorFunction = .setInformation) :
    (commonFileInfo q k).wp (atExcept (fun _ => exceptionHandler) (Passed q wait)) w := by
  have hcreate : q.majorFunction ≠ .create := by rcases hq with hq | hq <;> simp [hq]
  have hkeeps : heldWith false q.sets = q.keeps := by
    rcases hq with hq | hq <;> cases hn : q.nodeType <;>
    simp [heldWith, Request.sets, Request.keeps, hq, hn]
  refine passed_of_commonEnds hcreate (commonFileInfo_spec h.ledger h.exception h.halted) ?_ ?_
  · rw [h.canBlock]
    rintro RC w' (⟨hl, hs⟩ | ⟨hl, hRC, hpend, hwait, hnode⟩)
    · exact .completed (hkeeps ▸ hl) hs fun h => absurd h hcreate
    · exact .posted hl hRC hpend (Or.inl hwait)
        (fun h => by rcases hq with hq | hq <;> simp [hq] at h) fun h => absurd h hcreate
  · rintro w' hh ⟨hsets, hl⟩
    rw [hsets] at hkeeps
    exact exceptionHandler_completes (hkeeps ▸ hl) hh hcreate

theorem commonDeviceControl_passed (h : Ready q wait w) (hq : q.majorFunction = .deviceControl) :
    (commonDeviceControl k).wp (atExcept (fun _ => exceptionHandler) (Passed q wait)) w :=
  passed_of_commonEnds (by simp [hq]) (commonDeviceControl_spec h.ledger h.exception h.halted)
    (fun _ _ hends => .forwarded hends.2 (Or.inr hq)) fun _ _ => False.elim

theorem lookUp_passed (h : Ready q wait w) (hcreate : q.majorFunction ≠ .create)
    (hq : q.loses wait []) :
    lookUp.wp (atExcept (fun _ => exceptionHandler) (Passed q wait)) w :=
  passed_of_commonEnds hcreate (lookUp_spec h.ledger h.halted) (fun _ _ hl => .lost [] hl hq)
    fun _ _ => False.elim

/-- A routine that does nothing loses its request. -/
theorem commonShutdown_passed (h : Ready q wait w) (hq : q.loses wait []) :
    commonShutdown.wp (atExcept (fun _ => exceptionHandler) (Passed q wait)) w :=
  ⟨h.halted, .lost [] h.ledger hq⟩

/-- A request that has just been sent. -/
structure Fresh (q : Request) (w : World) : Prop where
  acts : w.acts = []
  halted : w.halted = none
  cacheLength : w.cacheLength = 0
  fsContext : q.majorFunction = .create → w.fsContext = false

theorem Fresh.ledger (h : Fresh q w) : w.ledger = some opened := by
  rw [World.ledger, h.acts, Custody.Ledger.run_nil]

/-- The context of a request that has just been sent, unless there is no memory for it. -/
theorem allocateIrpContext_spec (hw : Fresh q w)
    (hQ : (k.zone || k.pool) = false → Q .stopped (w.setHalted .bugCheck)) (top : Bool) :
    (allocateIrpContext q k top).wp (upTo
      (fun _ w' => Ready q q.synchronous w' ∧ ∃ c, w' = (w.enter .allocate).setContext c)
      fun (r : Exit ExceptionRecord NTSTATUS) w' => r = .stopped ∧ Q .stopped w') w := by
  rw [allocateIrpContext, wp_ite]
  refine ⟨fun _ => ?_, fun hmemory => ?_⟩
  · rw [wp_bind, wp_act, next_done, wp_update]
    exact ⟨⟨by simp [hw.ledger, opened], rfl, rfl, hw.halted, hw.fsContext⟩, _, rfl⟩
  · rw [wp_halt]
    exact ⟨rfl, hQ (by simpa using hmemory)⟩

/-- The part of a dispatch routine that is watched over does not look at the thread. -/
theorem tryCommon_spec {common : Code NTSTATUS} (hw : Fresh q w)
    (hQ : (k.zone || k.pool) = false → Q .stopped (w.setHalted .bugCheck))
    (hcommon : ∀ w', Ready q q.synchronous w' → (∃ c, w' = (w.enter .allocate).setContext c) →
      common.wp (atExcept (fun _ => exceptionHandler) Q) w') :
    (tryExcept
      (do
        allocateIrpContext q k ((← getVars).topLevelIrp = .irp)
        common)
      (fun _ => exceptionHandler) : ThreadCode NTSTATUS).wp (fun r p => Q r p.1 ∧ p.2 = t)
        (w, t) := by
  rw [wp_tryExcept, wp_bind, wp_getVars, next_done, wp_bind, wp_liftM]
  refine (allocateIrpContext_spec hw hQ _).mono fun r w' h => ?_
  rcases r with _ | _ | _ | _
  · rw [next_done, wp_liftM]
    refine (hcommon w' h.1 h.2).mono fun r w'' h => ?_
    rcases r with _ | _ | _ | _
    · exact ⟨h, rfl⟩
    · exact ⟨h, rfl⟩
    · rw [atExcept_raised] at h ⊢
      exact wp_liftM.mpr (h.mono fun _ _ h => ⟨h, rfl⟩)
    · exact ⟨h, rfl⟩
  · cases h.1
  · cases h.1
  · exact ⟨h.2, rfl⟩

theorem isIrpTopLevel_spec : isIrpTopLevel.wp (fun r p => r = .done (t.topLevelIrp = .null : Bool) ∧
    p.1 = w ∧ p.2.criticalRegions = t.criticalRegions ∧
    if t.topLevelIrp = .null then p.2.topLevelIrp = .irp else p.2.topLevelIrp = t.topLevelIrp)
    (w, t) := by
  simp only [isIrpTopLevel, ioSetTopLevelIrp, wp_bind, wp_getVars, next_done, wp_ite, wp_vars,
    wp_pure]
  exact ⟨fun ht => by simp [ht], fun ht => by simp [ht]⟩

/-- The request is left as `Q` says, and the thread, if it comes back, as `t`. -/
def Served (Q : Exit ExceptionRecord NTSTATUS → World → Prop) (t : Thread)
    (r : Exit ExceptionRecord NTSTATUS) (p : World × Thread) : Prop :=
  Q r p.1 ∧ ∀ RC, r = .done RC → p.2 = t

/-- **What a dispatch routine does around the one that does the work** concerns its thread
alone, which is as it was in the end, but for being out of the file system. -/
theorem watch_spec {common : Code NTSTATUS} (hw : Fresh q w)
    (hQ : (k.zone || k.pool) = false → Q .stopped (w.setHalted .bugCheck))
    (hcommon : ∀ w', Ready q q.synchronous w' → (∃ c, w' = (w.enter .allocate).setContext c) →
      common.wp (atExcept (fun _ => exceptionHandler) Q) w') :
    (watch q k common).wp
      (Served Q { t with criticalRegions := t.criticalRegions - 1 }) (w, t) := by
  rw [watch, wp_bind]
  refine isIrpTopLevel_spec.mono ?_
  rintro r ⟨w', t₁⟩ ⟨rfl, rfl, hregions, htop⟩
  rw [next_done, wp_bind]
  refine (tryCommon_spec hw hQ hcommon).mono ?_
  rintro r ⟨w'', t₂⟩ ⟨h, rfl⟩
  rcases r with RC | _ | _ | _
  · simp only [next_done, ioSetTopLevelIrp, fsRtlExitFileSystem, wp_bind, wp_when, wp_vars, wp_pure,
      decide_eq_true_eq, decide_eq_false_iff_not, Served]
    refine ⟨fun ht => ⟨h, fun _ _ => ?_⟩, fun ht => ⟨h, fun _ _ => ?_⟩⟩
    · simpa [ht] using hregions
    · rw [if_neg ht] at htop
      simpa using And.intro hregions htop
  · exact ⟨h, by simp⟩
  · exact ⟨h, by simp⟩
  · exact ⟨h, by simp⟩

theorem dispatchRoutine_spec {common : Code NTSTATUS} (hw : Fresh q w)
    (hQ : (k.zone || k.pool) = false → Q .stopped (w.setHalted .bugCheck))
    (hcommon : ∀ w', Ready q q.synchronous w' → (∃ c, w' = (w.enter .allocate).setContext c) →
      common.wp (atExcept (fun _ => exceptionHandler) Q) w') :
    (dispatchRoutine q k common).wp (Served Q t) (w, t) := by
  rw [dispatchRoutine, fsRtlEnterFileSystem, wp_bind, wp_vars, next_done]
  refine (watch_spec hw hQ hcommon).mono fun r p h => ?_
  simpa using h

/-- An open of the device of the driver itself, which leaves its thread in the file
system. -/
def Request.opensDriver (q : Request) : Bool := q.majorFunction = .create && q.create.ownDevice

/-- The driver panics without memory for a context. -/
theorem Fresh.stopped (hw : Fresh q w) : Stopped q wait (w.setHalted .bugCheck) :=
  ⟨Option.some_ne_none _, by simp [hw.ledger], by simp⟩

theorem create_spec (hw : Fresh q w) (hq : q.majorFunction = .create) :
    (create q k).wp (Served (Passed q q.synchronous)
      { t with criticalRegions := t.criticalRegions + if q.opensDriver then 1 else 0 }) (w, t) := by
  rw [create, fsRtlEnterFileSystem, wp_bind, wp_vars, next_done, wp_ite]
  refine ⟨fun hown => ?_, fun hown => ?_⟩
  · simp [setIoStatus, ioCompleteRequest, Served, Passed, Request.opensDriver, hq, hown]
    refine ⟨hw.halted, .completed ?_ rfl fun _ _ => Or.inl ⟨hown, hw.fsContext hq⟩⟩
    simp [hw.ledger, opened, Request.keeps, hq]
  · rw [Bool.not_eq_true] at hown
    refine (watch_spec (Q := Passed q q.synchronous) hw (fun _ => hw.stopped)
      fun w' h _ => commonCreate_passed h hq hown).mono fun r p h => ?_
    simpa [Request.opensDriver, hown] using h

/-- **The first pass over a request.** -/
theorem dispatch_spec (hw : Fresh q w) : (dispatch q k).wp (Served (Passed q q.synchronous)
    { t with criticalRegions := t.criticalRegions + if q.opensDriver then 1 else 0 }) (w, t) := by
  by_cases hcreate : q.majorFunction = .create
  · simp only [dispatch, hcreate]
    exact create_spec hw hcreate
  have hown : q.opensDriver = false := by simp [Request.opensDriver, hcreate]
  have hroutine {common : Code NTSTATUS} (hcommon : ∀ w', Ready q q.synchronous w' →
      common.wp (atExcept (fun _ => exceptionHandler) (Passed q q.synchronous)) w') :
      (dispatchRoutine q k common).wp (Served (Passed q q.synchronous) t) (w, t) :=
    dispatchRoutine_spec hw (fun _ => hw.stopped) fun w' h _ => hcommon w' h
  simp only [hown, Bool.false_eq_true, if_false, add_zero]
  cases hq : q.majorFunction <;> simp only [dispatch, hq]
  case create => exact absurd hq hcreate
  case read => exact hroutine fun w' h => commonRead_passed h hq
  case write => exact hroutine fun w' h => commonWrite_passed h hq
  case queryInformation => exact hroutine fun w' h => commonFileInfo_passed h (Or.inl hq)
  case setInformation => exact hroutine fun w' h => commonFileInfo_passed h (Or.inr hq)
  case flushBuffers => exact hroutine fun w' h => commonFlush_passed h hq
  case directoryControl => exact hroutine fun w' h => commonDirControl_passed h hq
  case deviceControl => exact hroutine fun w' h => commonDeviceControl_passed h hq
  case close => exact hroutine fun w' h => lookUp_passed h hcreate (by rw [Request.loses, hq])
  case cleanup => exact hroutine fun w' h => lookUp_passed h hcreate (by rw [Request.loses, hq])
  case shutdown =>
    exact hroutine fun w' h => commonShutdown_passed h (by rw [Request.loses, hq])

/-- **Where a request is after a pass of a worker**, which is a thread that may wait. -/
inductive Worked (q : Request) (w : World) : Prop
  | settled (RC : NTSTATUS) (knows : q.majorFunction = .create ∨ q.majorFunction = .read)
      (settled : Settled q true RC w)
  /-- Completed, and its context still there. -/
  | rejected (create : q.majorFunction ≠ .create) (read : q.majorFunction ≠ .read)
      (ledger : w.ledger = some ⟨some .ioManager, true, []⟩)
      (ioStatus : w.ioStatus = (STATUS_INVALID_DEVICE_REQUEST, 0))

/-- What a worker makes of a request. -/
def WorkerEnds (q : Request) : Exit ExceptionRecord NTSTATUS → World → Prop
  | .done _, w => w.halted = none ∧ Worked q w
  | .leave, _ => False
  | .raised _, _ => False
  | .stopped, w => Stopped q true w ∧ (q.majorFunction = .create ∨ q.majorFunction = .read)

/-- A request that a worker has taken up. -/
structure Taken (q : Request) (w : World) : Prop where
  ledger : w.ledger = some ⟨none, true, []⟩
  halted : w.halted = none
  exception : q.majorFunction = .read ∨ q.majorFunction = .create → w.context.exception = false
  opens : q.majorFunction = .create → q.create.ownDevice = false ∧ w.fsContext = false

theorem dispatchCommon_spec (hw : Taken q w) (hwait : w.context.canBlock = true) :
    (dispatchCommon q k).wp (atExcept (fun _ => exceptionHandler) (WorkerEnds q)) w := by
  have hready (hq : q.majorFunction = .read ∨ q.majorFunction = .create) : Ready q true w :=
    ⟨hw.ledger, hwait, hw.exception hq, hw.halted, fun hcreate => (hw.opens hcreate).2⟩
  have hknows {c : Code NTSTATUS} (hq : q.majorFunction = .create ∨ q.majorFunction = .read)
      (hc : c.wp (atExcept (fun _ => exceptionHandler) (Passed q true)) w) :
      c.wp (atExcept (fun _ => exceptionHandler) (WorkerEnds q)) w := by
    have hpassed : ∀ r w', Passed q true r w' → WorkerEnds q r w' := by
      intro r w' h
      rcases r with RC | _ | _ | _
      exacts [⟨h.1, .settled RC hq h.2⟩, h, h, ⟨h, hq⟩]
    refine hc.mono fun r w' h => ?_
    rcases r with _ | _ | _ | _
    · exact hpassed (.done _) w' h
    · exact h
    · exact atExcept_raised.mpr ((atExcept_raised.mp h).mono hpassed)
    · exact ⟨h, hq⟩
  have hrejects (hcreate : q.majorFunction ≠ .create) (hread : q.majorFunction ≠ .read) :
      (do
        setIoStatus STATUS_INVALID_DEVICE_REQUEST 0
        ioCompleteRequest
        return STATUS_INVALID_DEVICE_REQUEST : Code NTSTATUS).wp
        (atExcept (fun _ => exceptionHandler) (WorkerEnds q)) w := by
    simp [setIoStatus, ioCompleteRequest]
    exact ⟨by simp [hw.halted], .rejected hcreate hread (by simp [hw.ledger]) rfl⟩
  cases hq : q.majorFunction <;> simp only [dispatchCommon, hq]
  case create =>
    exact hknows (Or.inl hq) (commonCreate_passed (hready (Or.inr hq)) hq (hw.opens hq).1)
  case read => exact hknows (Or.inr hq) (commonRead_passed (hready (Or.inl hq)) hq)
  all_goals exact hrejects (by simp [hq]) (by simp [hq])

/-- The request is left as `R` says, and the thread, if it comes back, without a top-level
request. -/
def Dispatched (R : Exit ExceptionRecord NTSTATUS → World → Prop) (t : Thread)
    (r : Exit ExceptionRecord Unit) (p : World × Thread) : Prop :=
  match r with
  | .done _ => (∃ RC, R (.done RC) p.1) ∧ p.2 = { t with topLevelIrp := .null }
  | .leave => R .leave p.1
  | .raised x => R (.raised x) p.1
  | .stopped => R .stopped p.1

theorem Dispatched.world {P : World → Prop} {r : Exit ExceptionRecord Unit} {p : World × Thread}
    (h : Dispatched (fun _ => P) t r p) : P p.1 := by
  rcases r with _ | _ | _ | _
  exacts [h.1.elim fun _ h => h, h, h, h]

/-- **A later pass over a request.** -/
theorem commonDispatch_spec {R : Exit ExceptionRecord NTSTATUS → World → Prop} (hw : Taken q w)
    (hcommon : ∀ w', Taken q w' → w'.context.canBlock = true →
      (dispatchCommon q k).wp (atExcept (fun _ => exceptionHandler) R) w') :
    (commonDispatch q k).wp (Dispatched R t) (w, t) := by
  have htry (p : World × Thread) (hp : Taken q p.1) (hwait : p.1.context.canBlock = true)
      (hregions : p.2.criticalRegions = t.criticalRegions) : (do
        fsRtlEnterFileSystem
        let _ ← tryExcept (dispatchCommon q k) fun _ => exceptionHandler
        fsRtlExitFileSystem
        ioSetTopLevelIrp .null : ThreadCode Unit).wp (Dispatched R t) p := by
    rw [fsRtlEnterFileSystem, wp_bind, wp_vars, next_done, wp_bind, wp_tryExcept, wp_liftM]
    refine (hcommon _ hp hwait).mono fun r w' h => ?_
    have hend (RC : NTSTATUS) (w' : World) (h : R (.done RC) w') : (do
        fsRtlExitFileSystem
        ioSetTopLevelIrp .null : ThreadCode Unit).wp (Dispatched R t)
          (w', { p.2 with criticalRegions := p.2.criticalRegions + 1 }) := by
      rw [fsRtlExitFileSystem, ioSetTopLevelIrp, wp_bind, wp_vars, next_done, wp_vars]
      exact ⟨⟨RC, h⟩, by simp [hregions]⟩
    rcases r with RC | _ | _ | _
    · exact hend RC w' h
    · exact h
    · rw [atExcept_raised, wp_liftM]
      refine (atExcept_raised.mp h).mono fun r w'' h => ?_
      rcases r with RC | _ | _ | _
      exacts [hend RC w'' h, h, h, h]
    · exact h
  rw [commonDispatch, wp_bind, wp_liftM, wp_readContext, next_done]
  refine wp.seq (P := fun _ (p : World × Thread) => p.1 = w.enter .consult ∧
    p.2.criticalRegions = t.criticalRegions) ?_ ?_
  · rw [wp_when]
    exact ⟨fun _ => ⟨rfl, rfl⟩, fun _ => ⟨rfl, rfl⟩⟩
  rintro - ⟨w', t'⟩ ⟨rfl, hregions⟩
  rw [wp_bind, wp_liftM, wp_act, next_done, wp_bind, wp_liftM, wp_update, next_done]
  exact htry _ ⟨by simp [hw.ledger], hw.halted, hw.exception, hw.opens⟩ rfl hregions

end Sfsd

end DocumentCode
