-- SUMMARY: The report of the cleanup: what `state.json` says about who stopped a run and how its process tree was cleaned up is true, whatever fails and whoever forges stop requests.
import Procherd.DocumentHistory
import Procherd.TamperedProtocol
import Procherd.TreeFrame

/-!
# The report of the cleanup

The documents of a run say when and by whom its end was requested, whether force
was used, and whether the rest of its process tree was cleaned up. An assertion
on the state that the supervisor is about to write says that all of this is true
of the signals that were sent and the stop requests that were committed. It is
proved of every document, also of runs in which somebody plants forged requests.
-/

namespace Procherd

open Interaction

/-! ## Stop requests -/

section Requests

variable [Toolchain] {options : StartOptions} {bytes : Bytes} {request : StopRequest}

/-- The supervisor accepts the bytes as this stop request of the run. -/
structure Demands (options : StartOptions) (bytes : Bytes) (request : StopRequest) : Prop where
  length_le : bytes.length ≤ DOCUMENT_LIMIT
  decode : Toolchain.decodeStopRequest bytes = .ok request
  schemaVersion : request.schemaVersion = STOP_REQUEST_SCHEMA
  runId : request.runId = options.runId
  ownerToken : request.ownerToken = options.ownerToken

theorem Demands.authentic (h : Demands options bytes request) : Authentic options bytes :=
  ⟨h.length_le, request, h.decode, h.schemaVersion, h.runId, h.ownerToken⟩

theorem Demands.of_poll {spec : SupervisorSpec} (hspec : spec.Of options) {path : PathBuf}
    (hparse : parseStopRequest path bytes = .ok request)
    (hvalidate : validateStopRequest spec request = .ok ()) : Demands options bytes request := by
  have haccepted : Procherd.authentic spec request = true := by
    rw [validateStopRequest] at hvalidate
    split at hvalidate
    · assumption
    · cases hvalidate
  obtain ⟨hschema, hrunId, htoken⟩ := of_decide_eq_true haccepted
  simp only [parseStopRequest] at hparse
  split at hparse
  · cases hparse
  · rename_i hlength
    split at hparse
    · rename_i request' hdecode
      cases hparse
      exact ⟨Nat.le_of_not_lt hlength, hdecode, hschema, hrunId.trans hspec.runId,
        htoken.trans hspec.ownerToken⟩
    · cases hparse

/-- A stop request that was committed and that the supervisor accepts. -/
def Committed (options : StartOptions) (requests : List StopRequest) (request : StopRequest) :
    Prop :=
  ∃ sent ∈ requests, Demands options sent.encode request

/-- The time and the grace period of the cleanup are those of a committed request. -/
def RequestedBy (options : StartOptions) (requests : List StopRequest) (cleanup : CleanupInfo) :
    Prop :=
  ∃ request, Committed options requests request ∧
    cleanup.requestedAtMs = some request.requestedAtMs ∧ cleanup.graceMs = some request.graceMs

/-- There is a reason to ask the process tree to end: a committed request, or a
    runtime limit. -/
def Demanded (options : StartOptions) (requests : List StopRequest) : Prop :=
  (∃ request, Committed options requests request) ∨ options.maxRuntimeMs.isSome

/-- Who asked for the end of the run: a client, or the runtime limit. -/
structure Asked (options : StartOptions) (requests : List StopRequest) (state : RunState) :
    Prop where
  requested : state.cleanup.requestedAtMs.isSome → state.limits.runtimeLimitTriggeredAtMs = none →
    RequestedBy options requests state.cleanup
  limited : ∀ triggeredAtMs, state.limits.runtimeLimitTriggeredAtMs = some triggeredAtMs →
    state.cleanup.requestedAtMs = some triggeredAtMs ∧
    state.cleanup.graceMs = some state.limits.runtimeGraceMs ∧ state.limits.maxRuntimeMs.isSome

theorem Demanded.mono {requests requests' : List StopRequest} (h : Demanded options requests)
    (hsub : requests ⊆ requests') : Demanded options requests' := by
  obtain ⟨request, sent, hsent, hdemands⟩ | hlimit := h
  · exact .inl ⟨request, sent, hsub hsent, hdemands⟩
  · exact .inr hlimit

theorem RequestedBy.mono {requests requests' : List StopRequest} {cleanup : CleanupInfo}
    (h : RequestedBy options requests cleanup) (hsub : requests ⊆ requests') :
    RequestedBy options requests' cleanup := by
  obtain ⟨request, ⟨sent, hsent, hdemands⟩, hcleanup⟩ := h
  exact ⟨request, ⟨sent, hsub hsent, hdemands⟩, hcleanup⟩

theorem Asked.mono {requests requests' : List StopRequest} {state : RunState}
    (h : Asked options requests state) (hsub : requests ⊆ requests') :
    Asked options requests' state :=
  ⟨fun hrequested hlimit => (h.requested hrequested hlimit).mono hsub, h.limited⟩

end Requests

/-! ## The view of the cleanup -/

structure CleanupView where
  signals : List Signal
  /-- The signals that reached the tree or found it gone. -/
  delivered : List Signal
  /-- The committed stop requests. -/
  requests : List StopRequest
  /-- `stop.request.json`. -/
  file : Option Bytes
  /-- `spec.json`. -/
  spec : Option SupervisorSpec
  /-- `state.json`. -/
  document : Option RunState

def World.cleanupView (w : World) : CleanupView where
  signals := w.signals
  delivered := w.delivered
  requests := w.requests
  file := w.stopRequest
  spec := w.specJson
  document := w.state?

namespace CleanupView

variable [Toolchain] {options : StartOptions} {v v' : CleanupView}

/-- An authentic request in the file is one that was committed. -/
def Traced (options : StartOptions) (v : CleanupView) : Prop :=
  ∀ bytes, v.file = some bytes → Authentic options bytes → ∃ sent ∈ v.requests, bytes = sent.encode

/-- A kill of the tree was accepted, or found it gone. -/
structure Killed (v : CleanupView) : Prop where
  sent : .kill ∈ v.signals
  delivered : .kill ∈ v.delivered

/-- What the state says of the cleanup is true. -/
structure Reports (options : StartOptions) (v : CleanupView) (state : RunState) : Prop where
  forced : state.cleanup.forceUsed → .kill ∈ v.delivered
  signalled : state.cleanup.descendantCleanupTriggered → v.delivered ≠ []
  asked : Asked options v.requests state
  triggered : state.status.stopTriggered →
    state.cleanup.requestedAtMs.isSome ∧ state.cleanup.descendantCleanupTriggered
  stopRequested : ∀ info ∈ state.exit, info.reason = .stopRequested →
    state.cleanup.requestedAtMs.isSome ∧ state.limits.runtimeLimitTriggeredAtMs = none
  runtimeLimit : ∀ info ∈ state.exit, info.reason = .runtimeLimit →
    state.limits.runtimeLimitTriggeredAtMs.isSome
  processExited : ∀ info ∈ state.exit, info.reason = .processExited →
    state.cleanup.requestedAtMs = none
  completed : state.status = .exited ∨ state.status = .stopped → state.cleanup.completedAtMs.isSome
  swept : state.status = .exited ∨ state.status = .stopped → .kill ∈ v.delivered
  killed : state.status.isTerminal → state.process.processPid.isSome → .kill ∈ v.signals

/-- What a step may do that writes no state. -/
structure Later (options : StartOptions) (v v' : CleanupView) : Prop where
  signals : v.signals ⊆ v'.signals
  delivered : v.delivered ⊆ v'.delivered
  requests : v.requests ⊆ v'.requests
  traced : v.Traced options → v'.Traced options
  spec : ∀ spec, v'.spec = some spec → v.spec = some spec
  document : v'.document = v.document

theorem Later.refl (v : CleanupView) : v.Later options v :=
  ⟨fun _ => id, fun _ => id, fun _ => id, id, fun _ => id, rfl⟩

theorem Later.trans {v₁ v₂ v₃ : CleanupView} (h : v₁.Later options v₂)
    (h' : v₂.Later options v₃) : v₁.Later options v₃ where
  signals := List.Subset.trans h.signals h'.signals
  delivered := List.Subset.trans h.delivered h'.delivered
  requests := List.Subset.trans h.requests h'.requests
  traced := h'.traced ∘ h.traced
  spec spec hspec := h.spec spec (h'.spec spec hspec)
  document := h'.document.trans h.document

theorem Killed.later (h : v.Killed) (hv : v.Later options v') : v'.Killed :=
  ⟨hv.signals h.sent, hv.delivered h.delivered⟩

theorem Reports.mono {state : RunState} (h : v.Reports options state)
    (hsignals : v.signals ⊆ v'.signals) (hdelivered : v.delivered ⊆ v'.delivered)
    (hrequests : v.requests ⊆ v'.requests) : v'.Reports options state where
  forced hforced := hdelivered (h.forced hforced)
  signalled htriggered hnone := h.signalled htriggered (List.subset_nil.mp (hnone ▸ hdelivered))
  asked := h.asked.mono hrequests
  triggered := h.triggered
  stopRequested := h.stopRequested
  runtimeLimit := h.runtimeLimit
  processExited := h.processExited
  completed := h.completed
  swept hended := hdelivered (h.swept hended)
  killed hterminal hpid := hsignals (h.killed hterminal hpid)

/-- Signal the tree, where `r` is what the call reports. -/
def send (v : CleanupView) (signal : Signal) (r : Except IoError Unit) : CleanupView :=
  { v with
    signals := signal :: v.signals
    delivered := if treeReached r then signal :: v.delivered else v.delivered }

omit [Toolchain] in
theorem delivered_send (v : CleanupView) (signal : Signal) (r : Except IoError Unit) :
    (v.send signal r).delivered = signal :: v.delivered ∨
      (v.send signal r).delivered = v.delivered := by
  simp only [send]
  split
  · exact .inl rfl
  · exact .inr rfl

omit [Toolchain] in
theorem mem_delivered (v : CleanupView) (signal : Signal) {r : Except IoError Unit}
    (h : treeReached r) : signal ∈ (v.send signal r).delivered := by
  simp only [send, h, if_true, List.mem_cons_self]

/-- The commands of the supervisor. -/
def step : {β : Type} → BodyCmd β → CleanupView → β → CleanupView → Prop
  | _, .signal _, v, r, v' => v' = v.send .terminate r
  | _, .startKill, v, r, v' => v' = v.send .kill r
  | _, .persistState state, v, _, v' => v' = v ∨ v' = { v with document := some state }
  | _, .openStop, v, r, v' => v' = v ∧ ∀ bytes, r = .ok bytes → v.file = some bytes
  | _, .readStop file, v, r, v' => v' = v ∧ ∀ bytes, r = .ok bytes → bytes = file
  | _, .removeStop, v, _, v' => v' = v ∨ v' = { v with file := none }
  | _, .readSpec, v, r, v' => v' = v ∧ ∀ spec, r = .ok spec → v.spec = some spec
  | _, .removeSpec, v, _, v' => v' = v ∨ v' = { v with spec := none }
  | _, .readState, v, r, v' => v' = v ∧ ∀ state, r = .ok state → v.document = some state
  | _, _, v, _, v' => v' = v

/-- The commands of which something is promised. -/
def promised {β : Type} : BodyCmd β → Bool
  | .persistState _ | .signal _ => true
  | _ => false

/-- The interface of the supervisor, which writes true reports and signals the
    process tree only for a reason. -/
def reporting (options : StartOptions) : Interface BodyCmd CleanupView where
  step := step
  rely := Later options
  guar c v _ _ := match c with
    | .persistState state => v.Reports options state
    | .signal _ => Demanded options v.requests
    | _ => True
  rely_refl := .refl
  rely_trans := .trans

theorem guar_quiet {β : Type} {c : BodyCmd β} (hc : promised c = false) (b : β) :
    (reporting options).guar c v b v' := by
  cases c with
  | persistState state => cases hc
  | signal number => cases hc
  | _ => trivial

omit [Toolchain] in
theorem silent {β : Type} {c : BodyCmd β} (hc : promised c = false) : c.writesState = false := by
  cases c <;> first | rfl | cases hc

theorem step_later {β : Type} {c : BodyCmd β} (hc : c.writesState = false) {b : β}
    (h : step c v b v') : v.Later options v' := by
  have hsame (h : v' = v) : v.Later options v' := by
    rw [h]
    exact .refl v
  cases c with
  | signal number | startKill =>
    obtain rfl := h
    refine ⟨fun _ => List.mem_cons_of_mem _, fun signal hsignal => ?_, fun _ => id, id,
      fun _ => id, rfl⟩
    obtain hdelivered | hdelivered := delivered_send v _ b <;> rw [hdelivered]
    · exact List.mem_cons_of_mem _ hsignal
    · exact hsignal
  | persistState state => cases hc
  | removeStop =>
    obtain h | rfl := h
    · exact hsame h
    · exact ⟨fun _ => id, fun _ => id, fun _ => id, (fun _ _ h => by cases h), fun _ => id, rfl⟩
  | removeSpec =>
    obtain h | rfl := h
    · exact hsame h
    · exact ⟨fun _ => id, fun _ => id, fun _ => id, id, (fun _ h => by cases h), rfl⟩
  | openStop | readStop file | readSpec | readState => exact hsame h.1
  | _ => exact hsame h

/-! ## What holds of the state -/

/-- The document on disk is true. -/
def Disk (options : StartOptions) (v : CleanupView) : Prop :=
  ∀ state, v.document = some state → v.Reports options state

theorem Disk.later (h : v.Disk options) (hv : v.Later options v') : v'.Disk options :=
  fun state hstate => (h state (hv.document ▸ hstate)).mono hv.signals hv.delivered hv.requests

/-- A stop was triggered for the reason. -/
structure Stopped (state : RunState) (reason : ExitReason) : Prop where
  requested : state.cleanup.requestedAtMs.isSome
  triggered : state.cleanup.descendantCleanupTriggered
  reason : reason = .stopRequested ∧ state.limits.runtimeLimitTriggeredAtMs = none ∨
    reason = .runtimeLimit ∧ state.limits.runtimeLimitTriggeredAtMs.isSome

/-- The spec of the run, as far as its end depends on it. -/
structure SpecOf (options : StartOptions) (spec : SupervisorSpec) : Prop
    extends SupervisorSpec.Of options spec where
  maxRuntimeMs : spec.maxRuntimeMs = options.maxRuntimeMs

/-- What holds from the spawn on, also while a stop is triggered. -/
structure Steady (options : StartOptions) (l : Locals) (v : CleanupView) : Prop where
  traced : v.Traced options
  disk : v.Disk options
  spec : SpecOf options l.spec
  maxRuntimeMs : l.state.limits.maxRuntimeMs = l.spec.maxRuntimeMs
  runtimeGraceMs : l.state.limits.runtimeGraceMs = l.spec.runtimeGraceMs
  deadline : l.state.limits.runtimeDeadlineAtMs.isSome → l.state.limits.maxRuntimeMs.isSome
  exit : l.state.exit = none
  held : l.armed ∨ .kill ∈ v.signals
  forced : l.state.cleanup.forceUsed → .kill ∈ v.delivered
  asked : Asked options v.requests l.state

/-- What holds between the steps of the loop. -/
structure Sound (options : StartOptions) (l : Locals) (v : CleanupView) : Prop
    extends Steady options l v where
  live : l.state.status.isTerminal = false
  signalled : l.state.cleanup.descendantCleanupTriggered → v.delivered ≠ []
  untriggered : l.stopping = none → l.state.status.stopTriggered = false ∧
    l.state.cleanup.requestedAtMs = none ∧ l.state.limits.runtimeLimitTriggeredAtMs = none
  stopping : ∀ stopping, l.stopping = some stopping → Stopped l.state stopping.reason

variable {l l' : Locals}

theorem Steady.later (h : Steady options l v) (hv : v.Later options v') :
    Steady options l v' where
  traced := hv.traced h.traced
  disk := h.disk.later hv
  spec := h.spec
  maxRuntimeMs := h.maxRuntimeMs
  runtimeGraceMs := h.runtimeGraceMs
  deadline := h.deadline
  exit := h.exit
  held := h.held.imp_right (hv.signals ·)
  forced hforced := hv.delivered (h.forced hforced)
  asked := h.asked.mono hv.requests

theorem Sound.later (h : Sound options l v) (hv : v.Later options v') : Sound options l v' where
  toSteady := h.toSteady.later hv
  live := h.live
  signalled htriggered hnone :=
    h.signalled htriggered (List.subset_nil.mp (hnone ▸ hv.delivered))
  untriggered := h.untriggered
  stopping := h.stopping

theorem Sound.aside (h : Sound options l v) (hl : l.Aside l') : Sound options l' v where
  traced := h.traced
  disk := h.disk
  spec := hl.spec ▸ h.spec
  maxRuntimeMs := by
    rw [hl.limits, hl.spec]
    exact h.maxRuntimeMs
  runtimeGraceMs := by
    rw [hl.limits, hl.spec]
    exact h.runtimeGraceMs
  deadline := hl.limits ▸ h.deadline
  exit := hl.exit.trans h.exit
  held := hl.armed ▸ h.held
  forced := hl.cleanup ▸ h.forced
  asked := by
    constructor
    · rw [hl.cleanup, hl.limits]
      exact h.asked.requested
    · rw [hl.cleanup, hl.limits]
      exact h.asked.limited
  live := hl.status ▸ h.live
  signalled := hl.cleanup ▸ h.signalled
  untriggered := by
    rw [hl.stopping, hl.status, hl.cleanup, hl.limits]
    exact h.untriggered
  stopping stopping hstopping := by
    obtain ⟨hrequested, htriggered, hreason⟩ := h.stopping stopping (hl.stopping ▸ hstopping)
    exact ⟨hl.cleanup ▸ hrequested, hl.cleanup ▸ htriggered, hl.limits ▸ hreason⟩

theorem Sound.report (h : Sound options l v) : v.Reports options l.state where
  forced := h.forced
  signalled := h.signalled
  asked := h.asked
  triggered htriggered := by
    cases hstopping : l.stopping with
    | none =>
      rw [(h.untriggered hstopping).1] at htriggered
      cases htriggered
    | some stopping =>
      exact ⟨(h.stopping stopping hstopping).requested, (h.stopping stopping hstopping).triggered⟩
  stopRequested info hinfo := by
    rw [h.exit] at hinfo
    cases hinfo
  runtimeLimit info hinfo := by
    rw [h.exit] at hinfo
    cases hinfo
  processExited info hinfo := by
    rw [h.exit] at hinfo
    cases hinfo
  completed hended := by
    have hlive := h.live
    obtain hstatus | hstatus := hended <;>
      · rw [hstatus] at hlive
        cases hlive
  swept hended := by
    have hlive := h.live
    obtain hstatus | hstatus := hended <;>
      · rw [hstatus] at hlive
        cases hlive
  killed hterminal := by
    rw [h.live] at hterminal
    cases hterminal

/-- The last state of a run whose child has exited, once what is left of its tree
    was killed. -/
theorem Sound.report_final (h : Sound options l v) (hkilled : v.Killed)
    (exitStatus : ExitStatus) (finishedAtMs : Nat) :
    v.Reports options (finalState l.state l.stopping exitStatus finishedAtMs) where
  forced := h.forced
  signalled := h.signalled
  asked := ⟨h.asked.requested, h.asked.limited⟩
  triggered htriggered := by
    cases hstopping : l.stopping with
    | none =>
      simp only [finalState, hstopping] at htriggered
      cases htriggered
    | some stopping =>
      exact ⟨(h.stopping stopping hstopping).requested, (h.stopping stopping hstopping).triggered⟩
  stopRequested info hinfo hreason := by
    cases hinfo
    cases hstopping : l.stopping with
    | none =>
      simp only [hstopping, exitInfo, Option.elim] at hreason
      cases hreason
    | some stopping =>
      simp only [hstopping, exitInfo, Option.elim] at hreason
      have hstopped := h.stopping stopping hstopping
      refine ⟨hstopped.requested, ?_⟩
      obtain ⟨-, hlimit⟩ | ⟨hother, -⟩ := hstopped.reason
      · exact hlimit
      · cases hother.symm.trans hreason
  runtimeLimit info hinfo hreason := by
    cases hinfo
    cases hstopping : l.stopping with
    | none =>
      simp only [hstopping, exitInfo, Option.elim] at hreason
      cases hreason
    | some stopping =>
      simp only [hstopping, exitInfo, Option.elim] at hreason
      obtain ⟨hother, -⟩ | ⟨-, hlimit⟩ := (h.stopping stopping hstopping).reason
      · cases hother.symm.trans hreason
      · exact hlimit
  processExited info hinfo hreason := by
    cases hinfo
    cases hstopping : l.stopping with
    | none => exact (h.untriggered hstopping).2.1
    | some stopping =>
      simp only [hstopping, exitInfo, Option.elim] at hreason
      obtain ⟨hother, -⟩ | ⟨hother, -⟩ := (h.stopping stopping hstopping).reason
      · cases hother.symm.trans hreason
      · cases hother.symm.trans hreason
  completed _ := rfl
  swept _ := hkilled.delivered
  killed _ _ := hkilled.sent

/-- The state that `mark_supervisor_failed` writes. -/
theorem Reports.failed {state : RunState} (h : v.Reports options state)
    (hkilled : state.process.processPid.isSome → .kill ∈ v.signals) (error : AppError)
    (updatedAtMs finishedAtMs : Nat) :
    v.Reports options (failedState error updatedAtMs finishedAtMs state) where
  forced := h.forced
  signalled := h.signalled
  asked := ⟨h.asked.requested, h.asked.limited⟩
  triggered htriggered := by cases htriggered
  stopRequested info hinfo hreason := by
    cases hinfo
    cases hreason
  runtimeLimit info hinfo hreason := by
    cases hinfo
    cases hreason
  processExited info hinfo hreason := by
    cases hinfo
    cases hreason
  completed _ := rfl
  swept hended := by obtain hended | hended := hended <;> cases hended
  killed _ := hkilled

/-- Nothing has been asked or done yet. -/
structure Blank (state : RunState) : Prop where
  requestedAtMs : state.cleanup.requestedAtMs = none
  forceUsed : state.cleanup.forceUsed = false
  triggered : state.cleanup.descendantCleanupTriggered = false
  limit : state.limits.runtimeLimitTriggeredAtMs = none
  deadline : state.limits.runtimeDeadlineAtMs = none
  processPid : state.process.processPid = none

theorem Blank.asked {state : RunState} (h : Blank state) (requests : List StopRequest) :
    Asked options requests state where
  requested hrequested := by
    rw [h.requestedAtMs] at hrequested
    cases hrequested
  limited triggeredAtMs htriggered := by cases h.limit.symm.trans htriggered

/-- A blank state is true, unless it tells of the end of a child. -/
theorem Blank.report {state : RunState} (h : Blank state)
    (hstatus : state.status = .created ∨ state.status = .starting ∨ state.status = .failed)
    (hexit : ∀ info ∈ state.exit, info.reason = .spawnFailed ∨ info.reason = .supervisorFailed) :
    v.Reports options state where
  forced hforced := by cases h.forceUsed.symm.trans hforced
  signalled htriggered := by cases h.triggered.symm.trans htriggered
  asked := h.asked _
  triggered htriggered := by
    obtain hstatus | hstatus | hstatus := hstatus <;>
      · rw [hstatus] at htriggered
        cases htriggered
  stopRequested info hinfo hreason := by
    obtain hother | hother := hexit info hinfo <;> cases hother.symm.trans hreason
  runtimeLimit info hinfo hreason := by
    obtain hother | hother := hexit info hinfo <;> cases hother.symm.trans hreason
  processExited info hinfo hreason := by
    obtain hother | hother := hexit info hinfo <;> cases hother.symm.trans hreason
  completed hended := by
    obtain hended | hended := hended <;>
      obtain hstatus | hstatus | hstatus := hstatus <;> cases hended.symm.trans hstatus
  swept hended := by
    obtain hended | hended := hended <;>
      obtain hstatus | hstatus | hstatus := hstatus <;> cases hended.symm.trans hstatus
  killed _ hpid := by
    rw [h.processPid] at hpid
    cases hpid

/-! ## The commands of the supervisor -/

/-- What holds while the child is in scope, also after a failure. -/
def Held (options : StartOptions) (l : Locals) (v : CleanupView) : Prop :=
  v.Disk options ∧ (l.armed ∨ .kill ∈ v.signals)

/-- The failures while the child is in scope. -/
abbrev Failing (options : StartOptions) : AppError → Locals → CleanupView → Prop :=
  fun _ => Held options

/-- Between the steps of the loop, `swept` once the rest of the tree was killed. -/
def Working (options : StartOptions) (swept : Bool) (l : Locals) (v : CleanupView) : Prop :=
  Sound options l v ∧ (swept → v.Killed)

variable {σ α : Type} {s : σ} {swept : Bool}

theorem Working.held (h : Working options swept l v) : Held options l v :=
  ⟨h.1.disk, h.1.held⟩

theorem Steady.kept (h : Steady options l v) : Held options l v :=
  ⟨h.disk, h.held⟩

theorem Working.later (h : Working options swept l v) (hv : v.Later options v') :
    Working options swept l v' :=
  ⟨h.1.later hv, fun hswept => (h.2 hswept).later hv⟩

/-- A command that writes no state keeps what later views keep. -/
theorem wp_call {β : Type} {c : BodyCmd β} {J : CleanupView → Prop} {E : AppError → σ → CleanupView → Prop}
    (hc : promised c = false) (hJ : ∀ v v', v.Later options v' → J v → J v') (h : J v) :
    Proc.wp (reporting options) (Proc.call c) (fun _ s' v' => s' = s ∧ J v') E s v :=
  Proc.wp_call fun _ hrely b _ hs =>
    ⟨guar_quiet hc b, rfl, hJ _ _ (hrely.trans (step_later (silent hc) hs)) h⟩

theorem wp_attempt {c : BodyCmd (Except AppError α)} {J : CleanupView → Prop}
    {E : AppError → σ → CleanupView → Prop} (hc : promised c = false)
    (hJ : ∀ v v', v.Later options v' → J v → J v') (hE : ∀ e v, J v → E e s v) (h : J v) :
    Proc.wp (reporting options) (Proc.attempt c) (fun _ s' v' => s' = s ∧ J v') E s v := by
  refine Proc.wp_attempt fun v₁ hrely r v₂ hs => ?_
  have h₂ := hJ _ _ (hrely.trans (step_later (silent hc) hs)) h
  cases r with
  | ok a => exact ⟨guar_quiet hc _, rfl, h₂⟩
  | error e => exact ⟨guar_quiet hc _, hE e _ h₂⟩

/-- A true state may be written. -/
theorem wp_write {state : RunState} {J : CleanupView → Prop}
    {E : AppError → σ → CleanupView → Prop} (hJ : ∀ v v', v.Later options v' → J v → J v')
    (hreports : ∀ v, J v → v.Reports options state)
    (hwritten : ∀ v, J v → J { v with document := some state })
    (hE : ∀ e v, J v → E e s v) (h : J v) :
    Proc.wp (reporting options) (Proc.attempt (.persistState state)) (fun _ s' v' => s' = s ∧ J v')
      E s v := by
  refine Proc.wp_attempt fun v₁ hrely r v₂ hs => ?_
  have h₁ := hJ _ _ hrely h
  have h₂ : J v₂ := by
    obtain rfl | rfl := hs
    · exact h₁
    · exact hwritten v₁ h₁
  cases r with
  | ok u => exact ⟨hreports v₁ h₁, rfl, h₂⟩
  | error e => exact ⟨hreports v₁ h₁, hE e _ h₂⟩

theorem Disk.written {state : RunState} (h : v.Reports options state) :
    Disk options { v with document := some state } := by
  intro _ hstate
  obtain rfl := Option.some.inj hstate
  exact h.mono (fun _ => id) (fun _ => id) fun _ => id

theorem Working.written (h : Working options swept l v) :
    Working options swept l { v with document := some l.state } :=
  ⟨⟨⟨h.1.traced, .written h.1.report, h.1.spec, h.1.maxRuntimeMs, h.1.runtimeGraceMs, h.1.deadline,
    h.1.exit, h.1.held, h.1.forced, h.1.asked⟩, h.1.live, h.1.signalled, h.1.untriggered,
    h.1.stopping⟩, fun hswept => ⟨(h.2 hswept).sent, (h.2 hswept).delivered⟩⟩

theorem wp_persistState (h : Working options swept l v) :
    Proc.wp (reporting options) persistState (fun _ => Working options swept) (Failing options)
      l v := by
  simp only [persistState, Proc.wp_get_bind]
  refine Proc.wp_mono (wp_write (J := Working options swept l) (fun _ _ hv h => h.later hv)
    (fun _ h => h.1.report) (fun _ h => h.written) (fun _ _ h => h.held) h) ?_ fun _ _ _ => id
  rintro _ _ v ⟨rfl, h⟩
  exact h

theorem workingFrame (options : StartOptions) (swept : Bool) :
    TreeFrame (reporting options) (Working options swept) (Failing options) where
  quiet c hc l v v' b v'' h hrely hs := by
    have hpromised : promised c = false := by cases c <;> first | rfl | cases hc
    exact ⟨guar_quiet hpromised b, h.later (hrely.trans (step_later (silent hpromised) hs))⟩
  aside h hl := ⟨h.1.aside hl, h.2⟩
  fail h := h.held

/-- A kill that is not propagated as an error reached the tree, or found it gone. -/
theorem wp_startKill {J : CleanupView → Prop} (hJ : ∀ v v', v.Later options v' → J v → J v')
    (hE : ∀ e v, J v → Failing options e l v) (h : J v) :
    Proc.wp (reporting options) startKillTolerant
      (fun _ l' v' => l' = l ∧ J v' ∧ v'.Killed) (Failing options) l v := by
  refine Proc.wp_bind (Proc.wp_call fun v₁ hrely r v₂ hs => ⟨trivial, ?_⟩)
  have h₂ : J v₂ := hJ _ _ (hrely.trans (step_later (c := .startKill) (b := r) rfl hs)) h
  obtain rfl : v₂ = v₁.send .kill r := hs
  cases r with
  | ok u => exact Proc.wp_pure ⟨rfl, h₂, List.mem_cons_self, List.mem_cons_self⟩
  | error e =>
    simp only
    split
    · rename_i hgone
      exact Proc.wp_pure ⟨rfl, h₂, List.mem_cons_self, mem_delivered v₁ _ hgone⟩
    · exact Proc.wp_throw (hE _ _ h₂)

theorem wp_tryWait (h : Working options swept l v) :
    Proc.wp (reporting options) tryWaitRetry (fun _ => Working options swept) (Failing options)
      l v := by
  refine Proc.wp_repeatUntil (Working options swept) (fun l v h => ?_) h
  refine Proc.wp_seq _ (wp_call (J := Working options swept l) rfl (fun _ _ hv h => h.later hv) h) ?_
  rintro r l v ⟨rfl, h⟩
  cases r with
  | ok status => exact Proc.wp_pure h
  | error e =>
    simp only
    split
    · exact Proc.wp_pure h
    · exact Proc.wp_throw h.held

/-! ## The stop request -/

/-- A request that a poll returns was committed. -/
theorem wp_readStopRequest (path : PathBuf) (h : Working options swept l v) :
    Proc.wp (reporting options) (readStopRequest path l.spec)
      (fun r l' v' => l' = l ∧ Working options swept l v' ∧
        ∀ request ∈ r, Committed options v'.requests request) (Failing options) l v := by
  have hlater (v v' : CleanupView) (hv : v.Later options v') (h : Working options swept l v) :
      Working options swept l v' := h.later hv
  -- The bytes that are read are those of the file, some committed request if they are authentic.
  let Read (bytes : Bytes) (v : CleanupView) : Prop := Working options swept l v ∧
    (Authentic options bytes → ∃ sent ∈ v.requests, bytes = sent.encode)
  have hread (bytes : Bytes) (v v' : CleanupView) (hv : v.Later options v') (h : Read bytes v) :
      Read bytes v' := by
    refine ⟨h.1.later hv, fun hauthentic => ?_⟩
    obtain ⟨sent, hsent, hencode⟩ := h.2 hauthentic
    exact ⟨sent, hv.requests hsent, hencode⟩
  refine Proc.wp_seq (fun r l' v' => l' = l ∧ Working options swept l v' ∧
    ∀ request, r = .ok request → ∃ bytes, Read bytes v' ∧
      parseStopRequest path bytes = .ok request) (Proc.wp_outcome ?_) ?_
  · have hfail (e : AppError) (v : CleanupView) (h : Working options swept l v) :
        l = l ∧ Working options swept l v ∧ ∀ request, Except.error e = .ok request →
          ∃ bytes, Read bytes v ∧ parseStopRequest path bytes = .ok request :=
      ⟨rfl, h, fun _ h => by cases h⟩
    refine Proc.wp_seq _ (wp_attempt rfl hlater hfail h) ?_
    rintro _ _ v ⟨rfl, h⟩
    refine Proc.wp_bind (Proc.wp_attempt fun v₁ hrely r v₂ hs => ⟨trivial, ?_⟩)
    have h₁ := h.later hrely
    obtain ⟨hsame, hfile⟩ := hs
    cases hsame
    cases r with
    | error e => exact hfail e _ h₁
    | ok file =>
      have hbytes : Read file v₁ := ⟨h₁, h₁.1.traced file (hfile file rfl)⟩
      refine Proc.wp_bind (Proc.wp_attempt fun v₂ hrely r v₃ hs => ⟨trivial, ?_⟩)
      have hbytes := hread _ _ _ hrely hbytes
      obtain ⟨hview, hsame⟩ := hs
      cases hview
      cases r with
      | error e => exact hfail e _ hbytes.1
      | ok bytes =>
        obtain rfl := hsame bytes rfl
        refine Proc.wp_ofExcept (fun request hparse => ?_) fun e _ => hfail e _ hbytes.1
        refine ⟨rfl, hbytes.1, ?_⟩
        rintro _ ⟨⟩
        exact ⟨bytes, hbytes, hparse⟩
  · rintro r l v ⟨rfl, h, hr⟩
    cases r with
    | ok request =>
      obtain ⟨bytes, hbytes, hparse⟩ := hr request rfl
      refine Proc.wp_bind (Proc.wp_ofExcept (fun _ hvalidate => ?_) fun _ _ => h.held)
      have hdemands := Demands.of_poll h.1.spec.toOf hparse hvalidate
      obtain ⟨sent, hsent, rfl⟩ := hbytes.2 hdemands.authentic
      refine Proc.wp_seq _ (wp_attempt (J := fun v => Working options swept l v ∧ sent ∈ v.requests)
        rfl (fun _ _ hv h => ⟨h.1.later hv, hv.requests h.2⟩) (fun _ _ h => h.1.held)
        ⟨h, hsent⟩) ?_
      rintro _ _ v ⟨rfl, h, hsent⟩
      refine Proc.wp_pure ⟨rfl, h, ?_⟩
      rintro _ ⟨⟩
      exact ⟨sent, hsent, hdemands⟩
    | error e =>
      simp only
      split
      · refine Proc.wp_seq _ (wp_call rfl hlater h) ?_
        rintro found _ v ⟨rfl, h⟩
        cases found with
        | true => exact Proc.wp_throw h.held
        | false => exact Proc.wp_pure ⟨rfl, h, fun _ hmem => by cases hmem⟩
      · exact Proc.wp_throw h.held

/-! ## Stopping -/

/-- A stop is triggered for the reason, but not yet sent. -/
structure Triggering (options : StartOptions) (reason : ExitReason) (l : Locals)
    (v : CleanupView) : Prop extends Steady options l v where
  status : l.state.status = .stopping
  requested : l.state.cleanup.requestedAtMs.isSome
  reason : reason = .stopRequested ∧ l.state.limits.runtimeLimitTriggeredAtMs = none ∨
    reason = .runtimeLimit ∧ l.state.limits.runtimeLimitTriggeredAtMs.isSome

variable {reason : ExitReason}

theorem Triggering.demanded (h : Triggering options reason l v) : Demanded options v.requests := by
  obtain ⟨-, hlimit⟩ | ⟨-, hlimit⟩ := h.reason
  · obtain ⟨request, hcommitted, -⟩ := h.asked.requested h.requested hlimit
    exact .inl ⟨request, hcommitted⟩
  · obtain ⟨triggeredAtMs, htriggered⟩ := Option.isSome_iff_exists.mp hlimit
    obtain ⟨-, -, hmax⟩ := h.asked.limited triggeredAtMs htriggered
    rw [h.maxRuntimeMs, h.spec.maxRuntimeMs] at hmax
    exact .inr hmax

theorem Triggering.later (h : Triggering options reason l v) (hv : v.Later options v') :
    Triggering options reason l v' :=
  ⟨h.toSteady.later hv, h.status, h.requested, h.reason⟩

/-- The stop was sent. -/
structure Sent (options : StartOptions) (reason : ExitReason) (l : Locals) (v : CleanupView) : Prop
    extends Triggering options reason l v where
  triggered : l.state.cleanup.descendantCleanupTriggered
  signalled : v.delivered ≠ []

theorem Sent.later (h : Sent options reason l v) (hv : v.Later options v') :
    Sent options reason l v' :=
  ⟨h.toTriggering.later hv, h.triggered,
    fun hnone => h.signalled (List.subset_nil.mp (hnone ▸ hv.delivered))⟩

theorem Sent.sound (h : Sent options reason l v) {stopping : Stopping}
    (hreason : stopping.reason = reason) :
    Sound options { l with stopping := some stopping } v where
  traced := h.traced
  disk := h.disk
  spec := h.spec
  maxRuntimeMs := h.maxRuntimeMs
  runtimeGraceMs := h.runtimeGraceMs
  deadline := h.deadline
  exit := h.exit
  held := h.held
  forced := h.forced
  asked := h.asked
  live := by
    rw [h.status]
    rfl
  signalled _ := h.signalled
  untriggered hnone := by cases hnone
  stopping := by
    rintro _ ⟨⟩
    exact ⟨h.requested, h.triggered, hreason ▸ h.reason⟩

theorem wp_requestStop (graceMs : Nat) (h : Triggering options reason l v) :
    Proc.wp (reporting options) (requestStop graceMs reason)
      (fun stopping l' v' => Sent options reason l' v' ∧ stopping.reason = reason)
      (Failing options) l v := by
  have hdeadline {l : Locals} {v : CleanupView} {f : Nat → Stopping}
      (hf : ∀ now, (f now).reason = reason) (h : Sent options reason l v) :
      Proc.wp (reporting options) (Proc.call BodyCmd.instant >>= fun now => pure (f now))
        (fun stopping l' v' => Sent options reason l' v' ∧ stopping.reason = reason)
        (Failing options) l v := by
    refine Proc.wp_seq _ (wp_call (J := Sent options reason l) rfl (fun _ _ hv h => h.later hv) h) ?_
    rintro now _ v ⟨rfl, h⟩
    exact Proc.wp_pure ⟨h, hf now⟩
  simp only [requestStop, Proc.wp_modify_bind]
  have h : Triggering options reason { l with
      state := { l.state with cleanup := { l.state.cleanup with
        descendantCleanupTriggered := true } } } v :=
    ⟨⟨h.traced, h.disk, h.spec, h.maxRuntimeMs, h.runtimeGraceMs, h.deadline, h.exit, h.held,
      h.forced, ⟨h.asked.requested, h.asked.limited⟩⟩, h.status, h.requested, h.reason⟩
  split
  · refine Proc.wp_bind (Proc.wp_call fun v₁ hrely r v₂ hs => ⟨(h.later hrely).demanded, ?_⟩)
    have h₂ := h.later (hrely.trans (step_later (c := .signal 15) (b := r) rfl hs))
    obtain rfl : v₂ = v₁.send .terminate r := hs
    cases r with
    | ok u => exact hdeadline (fun _ => rfl) ⟨h₂, rfl, List.cons_ne_nil _ _⟩
    | error e =>
      simp only
      split
      · rename_i hgone
        exact hdeadline (fun _ => rfl)
          ⟨h₂, rfl, List.ne_nil_of_mem (mem_delivered v₁ _ hgone)⟩
      · exact Proc.wp_throw h₂.kept
  · refine Proc.wp_seq _ (wp_startKill (fun _ _ hv h => h.later hv)
      (fun _ _ h => h.toSteady.kept) h) ?_
    rintro _ _ v ⟨rfl, h, hkilled⟩
    simp only [Proc.wp_modify_bind]
    refine hdeadline (fun _ => rfl) ⟨⟨⟨h.traced, h.disk, h.spec, h.maxRuntimeMs, h.runtimeGraceMs,
      h.deadline, h.exit, h.held, (fun _ => hkilled.delivered),
      ⟨h.asked.requested, h.asked.limited⟩⟩, h.status, h.requested, h.reason⟩, rfl,
      List.ne_nil_of_mem hkilled.delivered⟩

theorem wp_trigger (graceMs : Nat) (h : Triggering options reason l v) :
    Proc.wp (reporting options) (requestStop graceMs reason >>= fun stopping => do
        Proc.modify fun l => { l with stopping := some stopping }
        persistState) (fun _ => Working options false) (Failing options) l v := by
  refine Proc.wp_seq _ (wp_requestStop graceMs h) ?_
  rintro stopping l v ⟨h, hreason⟩
  simp only [Proc.wp_modify_bind]
  exact wp_persistState ⟨h.sound hreason, fun hswept => by cases hswept⟩

theorem wp_touch {J : CleanupView → Prop} {E : AppError → Locals → CleanupView → Prop}
    (hJ : ∀ v v', v.Later options v' → J v → J v') (h : J v) :
    Proc.wp (reporting options) touch (fun _ l' v' => (∃ now, l' = l.touched now) ∧ J v') E l v := by
  refine Proc.wp_seq _ (wp_call rfl hJ h) ?_
  rintro now _ v ⟨rfl, h⟩
  exact Proc.wp_modify ⟨⟨now, rfl⟩, h⟩

theorem wp_acceptStop {request : StopRequest} (h : Working options false l v)
    (hcommitted : Committed options v.requests request) (hnone : l.stopping = none) :
    Proc.wp (reporting options) (acceptStop request) (fun _ => Working options false)
      (Failing options) l v := by
  simp only [acceptStop, Proc.wp_modify_bind]
  refine Proc.wp_seq _ (wp_touch
    (J := fun v => Working options false l v ∧ Committed options v.requests request) ?_
    ⟨h, hcommitted⟩) ?_
  · rintro v v' hv ⟨h, sent, hsent, hdemands⟩
    exact ⟨h.later hv, sent, hv.requests hsent, hdemands⟩
  rintro _ l' v ⟨⟨now, rfl⟩, ⟨h, -⟩, hcommitted⟩
  obtain ⟨-, -, hlimit⟩ := h.untriggered hnone
  simp only [Proc.wp_modify_bind]
  refine wp_trigger _ ⟨⟨h.traced, h.disk, h.spec, h.maxRuntimeMs, h.runtimeGraceMs, h.deadline,
    h.exit, h.held, h.forced, ⟨fun _ _ => ⟨request, hcommitted, rfl, rfl⟩, ?_⟩⟩, rfl, rfl,
    .inl ⟨rfl, hlimit⟩⟩
  intro triggeredAtMs htriggered
  cases hlimit.symm.trans htriggered

theorem wp_expireRuntime (h : Working options false l v)
    (hdeadline : l.state.limits.runtimeDeadlineAtMs.isSome) :
    Proc.wp (reporting options) expireRuntime (fun _ => Working options false) (Failing options)
      l v := by
  refine Proc.wp_seq _ (wp_call (J := Working options false l) rfl (fun _ _ hv h => h.later hv) h) ?_
  rintro triggeredAtMs _ v ⟨rfl, h, -⟩
  simp only [Proc.wp_get_bind, Proc.wp_modify_bind]
  refine wp_trigger _ ⟨⟨h.traced, h.disk, h.spec, h.maxRuntimeMs, h.runtimeGraceMs, h.deadline,
    h.exit, h.held, h.forced, ⟨(fun _ hlimit => by cases hlimit), ?_⟩⟩, rfl, rfl, .inr ⟨rfl, rfl⟩⟩
  rintro _ ⟨⟩
  exact ⟨rfl, congrArg some h.runtimeGraceMs.symm, h.deadline hdeadline⟩

omit [Toolchain] in
/-- The force that is used once the grace period is over. -/
theorem wp_enforceStop [Toolchain] {stopping : Stopping} (h : Working options false l v)
    (hstopping : l.stopping = some stopping) :
    Proc.wp (reporting options) (enforceStop stopping) (fun _ => Working options false)
      (Failing options) l v := by
  have hforced {l : Locals} {v : CleanupView} (h : Sound options l v)
      (hstopping : l.stopping = some stopping) (hkilled : v.Killed) :
      Proc.wp (reporting options)
        (do
          Proc.modify fun l => { l with
            stopping := some { stopping with forceSent := true }
            state := { l.state with cleanup := { l.state.cleanup with forceUsed := true } } }
          touch
          persistState) (fun _ => Working options false) (Failing options) l v := by
    simp only [Proc.wp_modify_bind]
    obtain ⟨hrequested, htriggered, hreason⟩ := h.stopping stopping hstopping
    have h : Working options false { l with
        stopping := some { stopping with forceSent := true }
        state := { l.state with cleanup := { l.state.cleanup with forceUsed := true } } } v := by
      refine ⟨⟨⟨h.traced, h.disk, h.spec, h.maxRuntimeMs, h.runtimeGraceMs, h.deadline, h.exit,
        h.held, (fun _ => hkilled.delivered), ⟨h.asked.requested, h.asked.limited⟩⟩, h.live,
        h.signalled,
        (fun hnone => by cases hnone), ?_⟩, fun hswept => by cases hswept⟩
      rintro _ ⟨⟩
      exact ⟨hrequested, htriggered, hreason⟩
    exact Proc.wp_seq _ ((workingFrame options false).wp_touch h) fun _ l v h => wp_persistState h
  have hlater (v v' : CleanupView) (hv : v.Later options v') (h : Working options false l v) :
      Working options false l v' := h.later hv
  refine Proc.wp_seq (fun _ l' v' => l' = l ∧ Working options false l v') ?_ ?_
  · unfold forceDue
    split
    · exact Proc.wp_pure ⟨rfl, h⟩
    · refine Proc.wp_seq _ (wp_call rfl hlater h) ?_
      rintro now _ v ⟨rfl, h⟩
      exact Proc.wp_pure ⟨rfl, h⟩
  · rintro due l v ⟨rfl, h⟩
    cases due with
    | false => exact Proc.wp_pure h
    | true =>
      refine Proc.wp_seq _ (wp_startKill hlater (fun _ _ h => h.held) h) ?_
      rintro killed _ v ⟨rfl, h, hkilled⟩
      cases killed with
      | false => exact hforced h.1 hstopping hkilled
      | true =>
        refine Proc.wp_seq (fun _ l' v' => Sound options l' v' ∧ l'.stopping = some stopping ∧
          v'.Killed) (Proc.wp_modify ⟨?_, hstopping, hkilled⟩) ?_
        · refine ⟨⟨h.1.traced, h.1.disk, h.1.spec, h.1.maxRuntimeMs, h.1.runtimeGraceMs,
            h.1.deadline, h.1.exit, h.1.held, h.1.forced, ⟨h.1.asked.requested,
            h.1.asked.limited⟩⟩, h.1.live, (fun _ => List.ne_nil_of_mem hkilled.delivered), ?_, ?_⟩
          · exact h.1.untriggered
          · intro stopping' hstopping'
            obtain ⟨hrequested, -, hreason⟩ := h.1.stopping stopping' hstopping'
            exact ⟨hrequested, rfl, hreason⟩
        · rintro _ l v ⟨h, hstopping, hkilled⟩
          exact hforced h hstopping hkilled

theorem wp_superviseStop (path : PathBuf) (h : Working options false l v) :
    Proc.wp (reporting options) (superviseStop path) (fun _ => Working options false)
      (Failing options) l v := by
  simp only [superviseStop, Proc.wp_get_bind]
  split
  · rename_i hnone
    simp only [watchTriggers, Proc.wp_get_bind]
    refine Proc.wp_seq _ (wp_readStopRequest path h) ?_
    rintro r l v ⟨rfl, h, hcommitted⟩
    cases r with
    | some request => exact wp_acceptStop h (hcommitted request rfl) hnone
    | none =>
      -- The deadline that has expired is there.
      refine Proc.wp_seq (fun expired l' v' => l' = l ∧ Working options false l v' ∧
        (expired → l.state.limits.runtimeDeadlineAtMs.isSome)) ?_ ?_
      · simp only [deadlineExpired, Proc.wp_get_bind]
        split
        · exact Proc.wp_pure ⟨rfl, h, fun hexpired => by cases hexpired⟩
        · rename_i deadline hdeadline
          refine Proc.wp_seq _ (wp_call (J := Working options false l) rfl
            (fun _ _ hv h => h.later hv) h) ?_
          rintro now _ v ⟨rfl, h⟩
          exact Proc.wp_pure ⟨rfl, h, fun _ => by rw [hdeadline]; rfl⟩
      · rintro expired l v ⟨rfl, h, hdeadline⟩
        cases expired with
        | true => exact wp_expireRuntime h (hdeadline rfl)
        | false => exact Proc.wp_pure h
  · rename_i stopping hstopping
    exact wp_enforceStop h hstopping

/-! ## The exit -/

theorem wp_killRemaining (h : Working options false l v) :
    Proc.wp (reporting options) killRemaining (fun _ => Working options true) (Failing options)
      l v := by
  refine Proc.wp_seq _ (wp_startKill (J := Working options false l) (fun _ _ hv h => h.later hv)
    (fun _ _ h => h.held) h) ?_
  rintro killed l v ⟨rfl, h, hkilled⟩
  cases killed with
  | false => exact Proc.wp_pure ⟨h.1, fun _ => hkilled⟩
  | true =>
    refine Proc.wp_modify ⟨⟨⟨h.1.traced, h.1.disk, h.1.spec, h.1.maxRuntimeMs, h.1.runtimeGraceMs,
      h.1.deadline, h.1.exit, h.1.held, (fun _ => hkilled.delivered), ⟨h.1.asked.requested,
      h.1.asked.limited⟩⟩, h.1.live, (fun _ => List.ne_nil_of_mem hkilled.delivered),
      h.1.untriggered, ?_⟩, fun _ => hkilled⟩
    intro stopping hstopping
    obtain ⟨hrequested, -, hreason⟩ := h.1.stopping stopping hstopping
    exact ⟨hrequested, rfl, hreason⟩

theorem wp_handleExit (exitStatus : ExitStatus) (h : Working options false l v) :
    Proc.wp (reporting options) (handleExit exitStatus) (fun _ => Held options) (Failing options)
      l v := by
  refine Proc.wp_seq _ (wp_killRemaining h) fun _ l v h => ?_
  simp only [Proc.wp_modify_bind]
  have h : Working options true { l with armed := false } v :=
    ⟨⟨⟨h.1.traced, h.1.disk, h.1.spec, h.1.maxRuntimeMs, h.1.runtimeGraceMs, h.1.deadline,
      h.1.exit, .inr (h.2 rfl).sent, h.1.forced, h.1.asked⟩, h.1.live, h.1.signalled, h.1.untriggered,
      h.1.stopping⟩, h.2⟩
  refine (workingFrame options true).wp_windUp h fun finishedAtMs l v h => ?_
  simp only [persistState, Proc.wp_get_bind]
  have hreports (v : CleanupView) (h : Working options true l v) :
      v.Reports options (finalState l.state l.stopping exitStatus finishedAtMs) :=
    h.1.report_final (h.2 rfl) exitStatus finishedAtMs
  refine Proc.wp_attempt fun v₁ hrely r v₂ hs => ?_
  have h₁ := h.later hrely
  have h₂ : v₂.Disk options ∧ .kill ∈ v₂.signals := by
    obtain rfl | rfl := hs
    · exact ⟨h₁.1.disk, (h₁.2 rfl).sent⟩
    · exact ⟨.written (hreports v₁ h₁), (h₁.2 rfl).sent⟩
  cases r with
  | ok u => exact ⟨hreports v₁ h₁, h₂.1, .inr h₂.2⟩
  | error e => exact ⟨hreports v₁ h₁, h₂.1, .inr h₂.2⟩

theorem wp_superviseRound (path : PathBuf) (h : Working options false l v) :
    Proc.wp (reporting options) (superviseRound path)
      (fun r l v => r.elim (Working options false l v) fun _ => Held options l v)
      (Failing options) l v := by
  have hframe := workingFrame options false
  refine Proc.wp_seq _ (hframe.output.wp_drainAvailable h) fun drain l v h => ?_
  refine Proc.wp_seq _ (hframe.wp_pollReadiness h) fun polled l v h => ?_
  refine Proc.wp_seq _ (hframe.wp_persistReadiness wp_persistState _ h) fun _ l v h => ?_
  refine Proc.wp_seq _ (wp_superviseStop path h) fun _ l v h => ?_
  refine Proc.wp_seq _ (wp_tryWait h) fun status l v h => ?_
  cases status with
  | some exitStatus =>
    exact Proc.wp_seq _ (wp_handleExit exitStatus h) fun _ _ _ h => Proc.wp_pure h
  | none =>
    refine Proc.wp_seq _ (hframe.wp_snapshotIfDue wp_persistState h) fun _ l v h => ?_
    refine Proc.wp_seq _ (hframe.wp_call rfl h) ?_
    rintro _ _ v ⟨rfl, h⟩
    exact Proc.wp_pure h

/-! ## The scopes -/

theorem Held.later (h : Held options l v) (hv : v.Later options v') : Held options l v' :=
  ⟨h.1.later hv, h.2.imp_right (hv.signals ·)⟩

/-- A scope whose cleanup writes no state. -/
theorem wp_heldScope {m cleanup : Supervised Unit}
    (hcleanup : ∀ {E : AppError → Locals → CleanupView → Prop} {l v}, Held options l v →
      Proc.wp (reporting options) cleanup (fun _ => Held options) E l v)
    (hm : Proc.wp (reporting options) m (fun _ => Held options) (Failing options) l v) :
    Proc.wp (reporting options) (Proc.ensuring m cleanup) (fun _ => Held options)
      (Failing options) l v :=
  Proc.wp_ensuring (Proc.wp_mono hm (fun _ _ _ h => hcleanup h) fun _ _ _ h => hcleanup h)

theorem wp_heldCall {β : Type} {c : BodyCmd β} {E : AppError → Locals → CleanupView → Prop}
    (hc : promised c = false) (h : Held options l v) :
    Proc.wp (reporting options) (Proc.call c) (fun _ => Held options) E l v := by
  refine Proc.wp_mono (wp_call (J := Held options l) hc (fun _ _ hv h => h.later hv) h) ?_
    fun _ _ _ => id
  rintro _ _ v ⟨rfl, h⟩
  exact h

theorem wp_superviseOutput (path : PathBuf) (h : Working options false l v) :
    Proc.wp (reporting options) (superviseOutput path) (fun _ => Held options) (Failing options)
      l v := by
  have hframe := workingFrame options false
  refine wp_heldScope (fun h => wp_heldCall rfl h) ?_
  refine Proc.wp_seq _ (hframe.wp_call rfl h) ?_
  rintro _ _ v ⟨rfl, h⟩
  refine Proc.wp_seq _ (hframe.wp_call rfl h) ?_
  rintro _ _ v ⟨rfl, h⟩
  refine Proc.wp_seq _ (hframe.wp_call rfl h) ?_
  rintro _ _ v ⟨rfl, h⟩
  refine Proc.wp_seq _ (hframe.wp_call rfl h) ?_
  rintro _ _ v ⟨rfl, h⟩
  refine Proc.wp_seq _ (hframe.wp_attempt rfl h) ?_
  rintro _ _ v ⟨rfl, h⟩
  refine Proc.wp_seq _ (hframe.wp_call rfl h) ?_
  rintro now l v ⟨rfl, h⟩
  simp only [Proc.wp_modify_bind]
  refine wp_heldScope (fun {E l v} h => ?_) ?_
  · simp only [dropLogs, Proc.wp_get_bind]
    split
    · exact Proc.wp_pure h
    · exact wp_heldCall rfl h
  · refine Proc.wp_repeatUntil (Working options false) (fun l v h => ?_)
      (hframe.aside h ⟨rfl, rfl, rfl, rfl, rfl, rfl, rfl, rfl⟩)
    refine Proc.wp_mono (wp_superviseRound path h) (fun r l v h => ?_) fun _ _ _ => id
    cases r with
    | none => exact h
    | some u => exact h

/-- What an end of the supervisor leaves. -/
structure Over (options : StartOptions) (v : CleanupView) : Prop where
  disk : v.Disk options
  killed : ∀ state, v.document = some state → state.process.processPid.isSome →
    .kill ∈ v.signals

theorem Over.later (h : Over options v) (hv : v.Later options v') : Over options v' :=
  ⟨h.disk.later hv, fun state hstate hpid =>
    hv.signals (h.killed state (hv.document ▸ hstate) hpid)⟩

/-- The drop of the child kills what is still held. -/
theorem wp_dropChild {E : AppError → Locals → CleanupView → Prop} (h : Held options l v) :
    Proc.wp (reporting options) dropChild (fun _ _ => Over options) E l v := by
  simp only [dropChild, Proc.wp_get_bind]
  split
  · refine Proc.wp_seq (fun _ _ => Over options) (Proc.wp_call fun v₁ hrely r v₂ hs => ?_)
      fun _ _ _ h => Proc.wp_pure h
    have h₂ := h.later (hrely.trans (step_later (c := .startKill) (b := r) rfl hs))
    refine ⟨trivial, h₂.1, fun _ _ _ => ?_⟩
    obtain rfl : v₂ = v₁.send .kill r := hs
    exact List.mem_cons_self
  · rename_i hdisarmed
    exact Proc.wp_pure ⟨h.1, fun _ _ _ => h.2.resolve_left hdisarmed⟩

/-! ## Before the spawn -/

/-- No process is in the document. -/
structure Unspawned (options : StartOptions) (v : CleanupView) : Prop where
  traced : v.Traced options
  disk : v.Disk options
  unborn : ∀ state, v.document = some state → state.process.processPid = none

theorem Unspawned.later (h : Unspawned options v) (hv : v.Later options v') :
    Unspawned options v' :=
  ⟨hv.traced h.traced, h.disk.later hv, fun state hstate => h.unborn state (hv.document ▸ hstate)⟩

theorem Unspawned.over (h : Unspawned options v) : Over options v := by
  refine ⟨h.disk, fun state hstate hpid => ?_⟩
  rw [h.unborn state hstate] at hpid
  cases hpid

theorem Unspawned.written (h : Unspawned options v) {state : RunState} (hblank : Blank state)
    (hreports : v.Reports options state) :
    Unspawned options { v with document := some state } where
  traced := h.traced
  disk := .written hreports
  unborn := by
    rintro _ ⟨⟩
    exact hblank.processPid

/-- The run is being set up. -/
structure Starting (options : StartOptions) (l : Locals) (v : CleanupView) : Prop
    extends Unspawned options v where
  spec : SpecOf options l.spec
  maxRuntimeMs : l.state.limits.maxRuntimeMs = l.spec.maxRuntimeMs
  runtimeGraceMs : l.state.limits.runtimeGraceMs = l.spec.runtimeGraceMs
  exit : l.state.exit = none
  status : l.state.status = .starting
  blank : Blank l.state
  stopping : l.stopping = none

theorem Starting.later (h : Starting options l v) (hv : v.Later options v') :
    Starting options l v' :=
  ⟨h.toUnspawned.later hv, h.spec, h.maxRuntimeMs, h.runtimeGraceMs, h.exit, h.status, h.blank,
    h.stopping⟩

theorem wp_superviseChild (path : PathBuf) (pid : Nat) (h : Starting options l v) :
    Proc.wp (reporting options) (superviseChild path pid) (fun _ _ => Over options)
      (fun _ _ => Over options) l v := by
  refine Proc.wp_ensuring (Proc.wp_mono ?_ (fun _ _ _ h => wp_dropChild h)
    fun _ _ _ h => wp_dropChild h)
  simp only [Proc.wp_modify_bind]
  refine Proc.wp_seq _ (wp_call (J := Starting options l) rfl (fun _ _ hv h => h.later hv) h) ?_
  rintro spawnedAtMs _ v ⟨rfl, h⟩
  simp only [Proc.wp_modify_bind]
  refine Proc.wp_seq _ ((workingFrame options false).wp_touch ⟨⟨⟨h.traced, h.disk, h.spec,
    h.maxRuntimeMs, h.runtimeGraceMs, ?_, h.exit, .inl rfl, ?_, ?_⟩, rfl, ?_, fun _ => ⟨rfl, ?_⟩,
    ?_⟩, fun hswept => by cases hswept⟩) fun _ l v h => ?_
  · intro hdeadline
    have hsome : l.spec.maxRuntimeMs.isSome := by
      rw [← Option.isSome_map]
      exact hdeadline
    exact h.maxRuntimeMs ▸ hsome
  · exact fun hforced => by cases h.blank.forceUsed.symm.trans hforced
  · have hasked : Asked options v.requests l.state := h.blank.asked v.requests
    exact ⟨hasked.requested, hasked.limited⟩
  · exact fun htriggered => by cases h.blank.triggered.symm.trans htriggered
  · exact ⟨h.blank.requestedAtMs, h.blank.limit⟩
  · exact fun stopping hstopping => by cases h.stopping.symm.trans hstopping
  · simp only [Proc.wp_modify_bind]
    have h : Working options false { l with
        state := { l.state with process := { l.state.process with processPid := some pid } } } v :=
      ⟨⟨⟨h.1.traced, h.1.disk, h.1.spec, h.1.maxRuntimeMs, h.1.runtimeGraceMs, h.1.deadline,
        h.1.exit, h.1.held, h.1.forced, ⟨h.1.asked.requested, h.1.asked.limited⟩⟩, h.1.live,
        h.1.signalled, h.1.untriggered, fun stopping hstopping => ⟨(h.1.stopping stopping
        hstopping).requested, (h.1.stopping stopping hstopping).triggered, (h.1.stopping stopping
        hstopping).reason⟩⟩, h.2⟩
    exact Proc.wp_seq _ (wp_persistState h) fun _ l v h => wp_superviseOutput path h

/-- The spawn has failed. -/
structure Unborn (options : StartOptions) (l : Locals) (v : CleanupView) : Prop
    extends Unspawned options v where
  blank : Blank l.state
  status : l.state.status = .failed
  exit : ∀ info ∈ l.state.exit, info.reason = .spawnFailed ∨ info.reason = .supervisorFailed

theorem unbornFrame (options : StartOptions) :
    TreeFrame (reporting options) (Unborn options) (fun _ _ => Unspawned options) where
  quiet c hc l v v' b v'' h hrely hs := by
    have hpromised : promised c = false := by cases c <;> first | rfl | cases hc
    exact ⟨guar_quiet hpromised b, h.toUnspawned.later (hrely.trans (step_later (silent hpromised)
      hs)), h.blank, h.status, h.exit⟩
  aside h hl := by
    refine ⟨h.toUnspawned, ⟨?_, ?_, ?_, ?_, ?_, ?_⟩, hl.status.trans h.status, hl.exit ▸ h.exit⟩
    · exact hl.cleanup ▸ h.blank.requestedAtMs
    · exact hl.cleanup ▸ h.blank.forceUsed
    · exact hl.cleanup ▸ h.blank.triggered
    · exact hl.limits ▸ h.blank.limit
    · exact hl.limits ▸ h.blank.deadline
    · exact hl.process ▸ h.blank.processPid
  fail h := h.toUnspawned

theorem wp_failSpawn (error : IoError) (h : Starting options l v) :
    Proc.wp (reporting options) (failSpawn error) (fun _ _ => Over options)
      (fun _ _ => Over options) l v := by
  have hframe := unbornFrame options
  refine Proc.wp_mono (Q := fun _ _ => Over options) (E := fun _ _ => Unspawned options) ?_
    (fun _ _ _ => id) fun _ _ _ h => h.over
  simp only [failSpawn, Proc.wp_modify_bind]
  refine Proc.wp_seq _ (hframe.wp_touch ⟨h.toUnspawned, ⟨h.blank.requestedAtMs, h.blank.forceUsed,
    h.blank.triggered, h.blank.limit, h.blank.deadline, h.blank.processPid⟩, rfl, ?_⟩)
    fun _ l v h => ?_
  · intro info hinfo
    cases h.exit.symm.trans hinfo
  refine Proc.wp_seq _ (hframe.wp_call rfl h) ?_
  rintro finishedAtMs l v ⟨rfl, h⟩
  simp only [Proc.wp_modify_bind]
  refine Proc.wp_seq _ (hframe.wp_releaseLeases ⟨h.toUnspawned, ⟨h.blank.requestedAtMs,
    h.blank.forceUsed, h.blank.triggered, h.blank.limit, h.blank.deadline, h.blank.processPid⟩,
    h.status, ?_⟩) fun _ l v h => ?_
  · rintro _ ⟨⟩
    exact .inl rfl
  refine Proc.wp_seq (fun _ _ => Unspawned options) ?_ ?_
  · simp only [persistState, Proc.wp_get_bind]
    have hreports (v : CleanupView) : v.Reports options l.state :=
      h.blank.report (.inr (.inr h.status)) h.exit
    refine Proc.wp_mono (wp_write (J := Unspawned options) (fun _ _ hv h => h.later hv)
      (fun v _ => hreports v) (fun v hv => hv.written h.blank (hreports v)) (fun _ _ h => h)
      h.toUnspawned) ?_ fun _ _ _ => id
    rintro _ _ v ⟨-, h⟩
    exact h
  · rintro _ l v h
    simp only [Proc.wp_get_bind]
    exact Proc.wp_throw h

theorem wp_dropLeases {E : AppError → Locals → CleanupView → Prop} (h : Over options v) :
    Proc.wp (reporting options) dropLeases (fun _ _ => Over options) E l v := by
  simp only [dropLeases, Proc.wp_get_bind]
  refine Proc.wp_seq (fun _ _ => Over options) (Proc.wp_outcome ?_) fun _ _ _ h => Proc.wp_pure h
  unfold releaseRegistry
  split
  · exact Proc.wp_pure h
  · refine Proc.wp_seq _ (wp_attempt rfl (fun _ _ hv h => h.later hv) (fun _ _ h => h) h) ?_
    rintro _ _ v ⟨rfl, h⟩
    exact Proc.wp_pure h

theorem wp_superviseLeased (path : PathBuf) (h : Starting options l v) :
    Proc.wp (reporting options) (superviseLeased path) (fun _ _ => Over options)
      (fun _ _ => Over options) l v := by
  refine Proc.wp_ensuring (Proc.wp_mono ?_ (fun _ _ _ h => wp_dropLeases h)
    fun _ _ _ h => wp_dropLeases h)
  have hlater (v v' : CleanupView) (hv : v.Later options v') (h : Starting options l v) :
      Starting options l v' := h.later hv
  have hreports (v : CleanupView) : v.Reports options l.state := by
    refine h.blank.report (.inr (.inl h.status)) fun info hinfo => ?_
    cases h.exit.symm.trans hinfo
  refine Proc.wp_seq (fun _ l' v' => l' = l ∧ Starting options l v') ?_ ?_
  · simp only [persistState, Proc.wp_get_bind]
    refine wp_write hlater (fun v _ => hreports v) (fun v hv => ?_)
      (fun _ _ h => h.toUnspawned.over) h
    exact ⟨hv.toUnspawned.written hv.blank (hreports v), hv.spec, hv.maxRuntimeMs,
      hv.runtimeGraceMs, hv.exit, hv.status, hv.blank, hv.stopping⟩
  clear h hreports
  rintro _ _ v ⟨rfl, h⟩
  refine Proc.wp_seq _ (wp_call rfl hlater h) ?_
  rintro handoffAtMs l v ⟨rfl, h⟩
  simp only [Proc.wp_modify_bind, Proc.wp_get_bind]
  have h : Starting options { l with state := l.leases.handoffAt handoffAtMs l.state } v :=
    ⟨h.toUnspawned, h.spec, h.maxRuntimeMs, h.runtimeGraceMs, h.exit, h.status,
      ⟨h.blank.requestedAtMs, h.blank.forceUsed, h.blank.triggered, h.blank.limit,
        h.blank.deadline, h.blank.processPid⟩, h.stopping⟩
  refine Proc.wp_seq _ (wp_call (J := Starting options _) rfl (fun _ _ hv h => h.later hv) h) ?_
  rintro r _ v ⟨rfl, h⟩
  cases r with
  | ok pid => exact wp_superviseChild path pid h
  | error e => exact wp_failSpawn e h

/-! ## The whole of the supervisor -/

/-- The supervisor finds the run as `start` created it. -/
structure Prepared (options : StartOptions) (requests : LeaseRequests) (createdAtMs : Nat)
    (v : CleanupView) : Prop where
  traced : v.Traced options
  document : v.document = some (options.initialState requests createdAtMs)
  spec : ∀ spec, v.spec = some spec → spec = options.spec requests createdAtMs

variable {requests : LeaseRequests} {createdAtMs : Nat}

theorem Prepared.later (h : Prepared options requests createdAtMs v)
    (hv : v.Later options v') : Prepared options requests createdAtMs v' :=
  ⟨hv.traced h.traced, hv.document.trans h.document, fun spec hspec => h.spec spec (hv.spec spec hspec)⟩

theorem blank_initialState (options : StartOptions) (requests : LeaseRequests) (createdAtMs : Nat) :
    Blank (options.initialState requests createdAtMs) :=
  ⟨rfl, rfl, rfl, rfl, rfl, rfl⟩

theorem Prepared.unspawned (h : Prepared options requests createdAtMs v) :
    Unspawned options v where
  traced := h.traced
  disk state hstate := by
    obtain rfl := Option.some.inj (h.document.symm.trans hstate)
    exact (blank_initialState options requests createdAtMs).report (.inl rfl)
      fun info hinfo => by cases hinfo
  unborn state hstate := by
    obtain rfl := Option.some.inj (h.document.symm.trans hstate)
    rfl

theorem wp_loadSupervised {s : Unit} (h : Prepared options requests createdAtMs v) :
    Proc.wp (reporting options) loadSupervised
      (fun r _ v' => r = (options.spec requests createdAtMs,
        options.initialState requests createdAtMs) ∧ Prepared options requests createdAtMs v')
      (fun _ _ => Over options) s v := by
  refine Proc.wp_bind (Proc.wp_attempt fun v₁ hrely r v₂ hs => ⟨trivial, ?_⟩)
  have h₁ := h.later hrely
  obtain ⟨hview, hspec⟩ := hs
  cases hview
  cases r with
  | error e => exact h₁.unspawned.over
  | ok spec =>
    obtain rfl := h₁.spec spec (hspec spec rfl)
    refine Proc.wp_bind (Proc.wp_throwIf (fun _ => h₁.unspawned.over) fun _ => ?_)
    refine Proc.wp_bind (Proc.wp_attempt fun v₂ hrely r v₃ hs => ⟨trivial, ?_⟩)
    have h₂ := h₁.later hrely
    obtain ⟨hview, hstate⟩ := hs
    cases hview
    cases r with
    | error e => exact h₂.unspawned.over
    | ok state =>
      obtain rfl := Option.some.inj (h₂.document.symm.trans (hstate state rfl))
      refine Proc.wp_bind (Proc.wp_throwIf (fun _ => h₂.unspawned.over) fun _ => ?_)
      exact Proc.wp_pure ⟨rfl, h₂⟩

/-- The allocation leaves alone what the cleanup is about. -/
theorem wp_acquire (state : RunState) (leaseRequests : LeaseRequests) (h : Unspawned options v) :
    Proc.wp (reporting options) (LeaseAllocation.acquire state leaseRequests)
      (fun r _ v' => r.2 = { state with
        leases := r.2.leases, command := r.2.command, readiness := r.2.readiness } ∧
        Unspawned options v') (fun _ _ => Over options) s v := by
  have hlater (v v' : CleanupView) (hv : v.Later options v') (h : Unspawned options v) :
      Unspawned options v' := h.later hv
  have hattempt {α τ : Type} {c : BodyCmd (Except AppError α)} (hc : promised c = false) {t : τ}
      {v : CleanupView} (h : Unspawned options v) :
      Proc.wp (reporting options) (Proc.attempt c) (fun _ _ => Unspawned options)
        (fun _ _ => Unspawned options) t v :=
    Proc.wp_mono (wp_attempt hc hlater (fun _ _ h => h) h) (fun _ _ _ h => h.2) fun _ _ _ => id
  refine Proc.wp_bind (Proc.wp_ofExcept (fun runId _ => ?_) fun _ _ => h.over)
  refine Proc.wp_bind (Proc.wp_ofExcept (fun _ _ => ?_) fun _ _ => h.over)
  refine Proc.wp_bind (Proc.wp_ofExcept (fun _ _ => ?_) fun _ _ => h.over)
  refine Proc.wp_seq _ (wp_call rfl hlater h) ?_
  rintro acquiredAtMs s v ⟨rfl, h⟩
  refine Proc.wp_seq (fun _ _ => Unspawned options) ?_ fun tempPaths s v h => ?_
  · unfold createTempDirectories
    split
    · exact Proc.wp_pure h
    · exact Proc.wp_mono (hattempt rfl h) (fun _ _ _ => id) fun _ _ _ h => h.over
  refine Proc.wp_seq (fun _ _ => Unspawned options) ?_ fun ports s v h => ?_
  · unfold reservePortNames
    split
    · exact Proc.wp_pure h
    · exact Proc.wp_mono (hattempt rfl h) (fun _ _ _ => id) fun _ _ _ h => h.over
  split
  · refine Proc.wp_seq (fun _ _ => Unspawned options) (wp_discardLeases ?_ h)
      fun _ _ _ h => Proc.wp_throw h.over
    intro s v h
    unfold releaseRegistry
    split
    · exact Proc.wp_pure h
    · exact Proc.wp_seq (fun _ _ => Unspawned options) (hattempt rfl h) fun _ _ _ h =>
        Proc.wp_pure h
  · rename_i hpopulate
    exact Proc.wp_pure ⟨LeaseAllocation.populateState_frame hpopulate, h⟩

theorem wp_superviseLocked (path : PathBuf) (h : Prepared options requests createdAtMs v) :
    Proc.wp (reporting options) (superviseLocked path) (fun _ _ => Over options)
      (fun _ _ => Over options) () v := by
  have hlater (v v' : CleanupView) (hv : v.Later options v') (h : Unspawned options v) :
      Unspawned options v' := h.later hv
  refine Proc.wp_seq _ (wp_loadSupervised h) ?_
  rintro _ _ v ⟨rfl, h⟩
  refine Proc.wp_seq _ (wp_attempt rfl hlater (fun _ _ h => h.over) h.unspawned) ?_
  rintro _ _ v ⟨rfl, h⟩
  refine Proc.wp_seq _ (wp_call rfl hlater h) ?_
  rintro updatedAtMs _ v ⟨rfl, h⟩
  refine Proc.wp_seq _ (wp_call rfl hlater h) ?_
  rintro supervisorPid _ v ⟨rfl, h⟩
  refine Proc.wp_seq _ (wp_write hlater (fun v _ => ?_) (fun v hv => hv.written ?_ ?_)
    (fun _ _ h => h.over) h) ?_
  · exact Blank.report ⟨rfl, rfl, rfl, rfl, rfl, rfl⟩ (.inr (.inl rfl))
      fun info hinfo => by cases hinfo
  · exact ⟨rfl, rfl, rfl, rfl, rfl, rfl⟩
  · exact Blank.report ⟨rfl, rfl, rfl, rfl, rfl, rfl⟩ (.inr (.inl rfl))
      fun info hinfo => by cases hinfo
  rintro _ _ v ⟨rfl, h⟩
  refine Proc.wp_seq _ (wp_acquire _ _ h) ?_
  rintro ⟨leases, state⟩ s v ⟨hstate, h⟩
  simp only at hstate
  refine Proc.wp_seq (fun _ _ => Over options) (Proc.wp_withStore (wp_superviseLeased path
    ⟨h, ⟨⟨rfl, rfl⟩, rfl⟩, ?_, ?_, ?_, ?_, ?_, rfl⟩)) fun _ _ _ h =>
      Proc.wp_ofExcept (fun _ _ => h) fun _ _ => h
  all_goals rw [hstate]
  · rfl
  · rfl
  · rfl
  · exact ⟨rfl, rfl, rfl, rfl, rfl, rfl⟩

/-- The failed state tells of the document that is there after the scopes. -/
theorem wp_superviseAndMark (path : PathBuf) (h : Prepared options requests createdAtMs v) :
    Proc.wp (reporting options) (superviseAndMark path) (fun _ _ _ => True) (fun _ _ _ => True)
      () v := by
  refine Proc.wp_seq (fun _ _ => Over options) (Proc.wp_outcome (wp_superviseLocked path h))
    fun r s v h => ?_
  cases r with
  | ok u => exact Proc.wp_pure trivial
  | error e =>
    refine Proc.wp_seq (fun _ _ _ => True) ?_ fun _ s v _ => Proc.wp_throw trivial
    refine Proc.wp_bind (Proc.wp_call fun v₁ hrely r v₂ hs => ⟨trivial, ?_⟩)
    have h₁ := h.later hrely
    obtain ⟨hview, hread⟩ := hs
    cases hview
    cases r with
    | error e => exact Proc.wp_pure trivial
    | ok state =>
      have hstate := hread state rfl
      have hreports : v₁.Reports options state ∧
          (state.process.processPid.isSome → .kill ∈ v₁.signals) :=
        ⟨h₁.disk state hstate, h₁.killed state hstate⟩
      have hlater (v v' : CleanupView) (hv : v.Later options v')
          (h : v.Reports options state ∧ (state.process.processPid.isSome → .kill ∈ v.signals)) :
          v'.Reports options state ∧ (state.process.processPid.isSome → .kill ∈ v'.signals) :=
        ⟨h.1.mono hv.signals hv.delivered hv.requests, fun hpid => hv.signals (h.2 hpid)⟩
      simp only
      split
      · exact Proc.wp_pure trivial
      · refine Proc.wp_seq _ (wp_call rfl hlater hreports) ?_
        rintro updatedAtMs _ v ⟨rfl, h⟩
        refine Proc.wp_seq _ (wp_call rfl hlater h) ?_
        rintro finishedAtMs _ v ⟨rfl, h⟩
        refine Proc.wp_bind (Proc.wp_call fun v' hrely _ _ _ => ⟨?_, Proc.wp_pure trivial⟩)
        have h' := hlater _ _ hrely h
        exact h'.1.failed h'.2 e updatedAtMs finishedAtMs

end CleanupView

/-! ## The runs -/

section Steps

variable [Toolchain] {options : StartOptions} {β : Type} {a : Answer} {w w' : World} {b : β}

theorem execBody_cleanupView {c : BodyCmd β} (h : execBody c a w = some (b, w')) :
    CleanupView.step c w.cleanupView b w'.cleanupView := by
  cases c with
  | persistState state =>
    obtain ⟨-, -, -, rfl | rfl⟩ | ⟨-, -, rfl⟩ := committed_cases h
    · exact .inl rfl
    · exact .inr rfl
    · exact .inr rfl
  | signal number | startKill =>
    simp only [execBody, fallibleIo] at h
    split at h
    · rename_i e hfailure
      cases h
      simp only [CleanupView.step, World.cleanupView, World.send, CleanupView.send, treeReached,
        World.state?, hfailure, Option.all_some]
      rfl
    · rename_i hfailure
      cases h
      simp only [CleanupView.step, World.cleanupView, World.send, CleanupView.send, treeReached,
        World.state?, hfailure, Option.all_none, if_true]
  | readState =>
    obtain ⟨-, -, rfl, rfl⟩ | ⟨-, h⟩ := fallible_cases h
    · exact ⟨rfl, fun _ h => by cases h⟩
    · cases h
      exact ⟨rfl, fun state hread => StateFile.read_ok hread⟩
  | readSpec =>
    obtain ⟨-, -, rfl, rfl⟩ | ⟨-, h⟩ := fallible_cases h
    · exact ⟨rfl, fun _ h => by cases h⟩
    · cases h
      refine ⟨rfl, fun spec hread => ?_⟩
      split at hread
      · cases hread
      · rename_i hspec
        rw [(readSized_ok hread).1]
        exact hspec
  | removeSpec =>
    obtain ⟨-, -, -, rfl⟩ | ⟨-, h⟩ := fallible_cases h
    · exact .inl rfl
    · cases h
      exact .inr rfl
  | openStop =>
    obtain ⟨-, -, rfl, rfl⟩ | ⟨-, h⟩ := fallible_cases h
    · exact ⟨rfl, fun _ h => by cases h⟩
    · split at h
      · cases h
        exact ⟨rfl, fun _ h => by cases h⟩
      · rename_i bytes hfile
        cases h
        refine ⟨rfl, ?_⟩
        rintro _ ⟨⟩
        exact hfile
  | readStop file =>
    obtain ⟨-, -, rfl, rfl⟩ | ⟨-, h⟩ := fallible_cases h
    · exact ⟨rfl, fun _ h => by cases h⟩
    · cases h
      refine ⟨rfl, ?_⟩
      rintro _ ⟨⟩
      rfl
  | removeStop =>
    obtain ⟨-, -, -, rfl⟩ | ⟨-, h⟩ := fallible_cases h
    · exact .inl rfl
    · split at h
      · cases h
        exact .inl rfl
      · cases h
        exact .inr rfl
  | _ =>
    simp only [execBody, fallible, committed, fallibleIo, receive] at h
    repeat' split at h
    all_goals cases h <;> rfl

/-- No command forgets a signal or a request, and none forges a request. -/
structure Evolves (options : StartOptions) (v v' : CleanupView) : Prop where
  signals : v.signals ⊆ v'.signals
  delivered : v.delivered ⊆ v'.delivered
  requests : v.requests ⊆ v'.requests
  traced : v.Traced options → v'.Traced options

theorem evolves_of_eq {v v' : CleanupView} (hsignals : v'.signals = v.signals)
    (hdelivered : v'.delivered = v.delivered) (hrequests : v'.requests = v.requests)
    (hfile : v'.file = v.file) : Evolves options v v' where
  signals := hsignals ▸ fun _ => id
  delivered := hdelivered ▸ fun _ => id
  requests := hrequests ▸ fun _ => id
  traced := by
    unfold CleanupView.Traced
    rw [hrequests, hfile]
    exact id

theorem execClient_evolves {t : Thread} {c : ClientCmd β} (h : execClient t c a w = some (b, w')) :
    Evolves options w.cleanupView w'.cleanupView := by
  have hsame : Evolves options w.cleanupView w.cleanupView := evolves_of_eq rfl rfl rfl rfl
  cases c with
  | writeStopRequest request =>
    have hwritten : Evolves options w.cleanupView (World.cleanupView { w with
        stopRequest := some request.encode, requests := request :: w.requests }) := by
      refine ⟨fun _ => id, fun _ => id, fun _ => List.mem_cons_of_mem _, ?_⟩
      rintro - _ ⟨⟩ -
      exact ⟨request, List.mem_cons_self, rfl⟩
    simp only [execClient] at h
    split at h
    · obtain ⟨-, -, -, rfl | rfl⟩ | ⟨-, -, rfl⟩ := committed_cases h
      · exact hsame
      · exact hwritten
      · exact hwritten
    · obtain ⟨-, -, -, rfl⟩ | ⟨-, h⟩ := fallible_cases h
      · exact hsame
      · cases h
        exact hsame
  | _ =>
    simp only [execClient, fallible, fallibleIo] at h
    repeat' split at h
    all_goals cases h <;> exact evolves_of_eq rfl rfl rfl rfl

theorem exec_evolves {i : Thread} {c : i.Cmd β} (h : exec i c a w = some (b, w')) :
    Evolves options w.cleanupView w'.cleanupView := by
  cases i with
  | start =>
    cases c with
    | inl c =>
      rw [execCreate_frame (show execCreate c a w = some (b, w') from h)]
      exact evolves_of_eq rfl rfl rfl rfl
    | inr c => exact execClient_evolves h
  | supervisor =>
    cases c with
    | inl c =>
      rw [execLock_frame (show execLock c a w = some (b, w') from h)]
      exact evolves_of_eq rfl rfl rfl rfl
    | inr c =>
      have hstep := execBody_cleanupView h
      cases hc : c.writesState with
      | false =>
        have hlater : w.cleanupView.Later options w'.cleanupView :=
          CleanupView.step_later hc hstep
        exact ⟨hlater.signals, hlater.delivered, hlater.requests, hlater.traced⟩
      | true =>
        cases c with
        | persistState state =>
          obtain hview | hview := hstep <;>
            · rw [hview]
              exact evolves_of_eq rfl rfl rfl rfl
        | _ => cases hc
  | reader stream =>
    rw [execReader_frame (show execReader stream c a w = some (b, w') from h)]
    exact evolves_of_eq rfl rfl rfl rfl
  | client index => exact execClient_evolves h

/-- While the supervisor is active, no other thread writes the state or the spec. -/
theorem later_of_other {j : Thread} (hj : j ≠ .supervisor) {c : j.Cmd β}
    (hok : launchProtocol options j c a w) (h : exec j c a w = some (b, w'))
    (hactive : w.phase = .active) : w.cleanupView.Later options w'.cleanupView := by
  have hevolves : Evolves options w.cleanupView w'.cleanupView := exec_evolves h
  have hsame := sameRun_of_active hj hok h hactive
  refine ⟨hevolves.signals, hevolves.delivered, hevolves.requests, hevolves.traced,
    fun spec hspec => ?_, ?_⟩
  · exact hsame.specJson.symm.trans hspec
  · simp only [World.cleanupView, World.state?, hsame.stateJson]

/-- A forged request is not authentic. -/
theorem later_of_plants (h : plants options w w') :
    w.cleanupView.Later options w'.cleanupView := by
  obtain ⟨bytes, hforged, rfl⟩ := h
  refine ⟨fun _ => id, fun _ => id, fun _ => id, ?_, fun _ => id, rfl⟩
  rintro - _ ⟨⟩ hauthentic
  exact absurd hauthentic hforged

/-- A document that is new in the history is the one that was written. -/
theorem mem_history_of_exec {i : Thread} {c : i.Cmd β} (h : exec i c a w = some (b, w'))
    {state : RunState} (hstate : state ∈ w'.history) :
    state ∈ w.history ∨ i.writes c = some state := by
  have hsame (hhistory : w'.history = w.history) : state ∈ w.history ∨ i.writes c = some state :=
    .inl (hhistory ▸ hstate)
  have hwrote {old : RunState} (hwrites : i.writes c = some old)
      (hw : w' = w ∨ w' = w.setState old) : state ∈ w.history ∨ i.writes c = some state := by
    obtain rfl | rfl := hw
    · exact .inl hstate
    · obtain rfl | hold := List.mem_cons.mp hstate
      · exact .inr hwrites
      · exact .inl hold
  have hcommitted {old : RunState} {r : Except AppError Unit} (hwrites : i.writes c = some old)
      (h : committed a w ((), w.setState old) = some (r, w')) :
      state ∈ w.history ∨ i.writes c = some state := by
    obtain ⟨-, -, -, hw⟩ | ⟨-, -, hw⟩ := committed_cases h
    · exact hwrote hwrites hw
    · exact hwrote hwrites (.inr hw)
  cases i with
  | start =>
    cases c with
    | inl c =>
      cases c with
      | writeNewState old => exact hcommitted rfl h
      | replaceState old => exact hcommitted rfl h
      | _ =>
        apply hsame
        simp only [exec, execEither, execCreate, fallible] at h
        repeat' split at h
        all_goals cases h <;> rfl
    | inr c => exact hsame (by rw [execClient_frame (show execClient _ c a w = _ from h)])
  | supervisor =>
    cases c with
    | inl c => exact hsame (by rw [execLock_frame (show execLock c a w = _ from h)])
    | inr c =>
      cases hc : c.writesState with
      | false => exact hsame (execBody_state hc h).2
      | true =>
        cases c with
        | persistState old => exact hcommitted rfl h
        | _ => cases hc
  | reader stream => exact hsame (by rw [execReader_frame (show execReader stream c a w = _ from h)])
  | client n => exact hsame (by rw [execClient_frame (show execClient _ c a w = _ from h)])

/-- A graceful signal that is new was sent by the supervisor. -/
theorem terminate_of_exec {i : Thread} {c : i.Cmd β} (h : exec i c a w = some (b, w'))
    (hguar : bodyGuarantee World.cleanupView (CleanupView.reporting options) i c a w)
    (hsignal : .terminate ∈ w'.signals) :
    .terminate ∈ w.signals ∨ Demanded options w.requests := by
  have hsame (hsignals : w'.signals = w.signals) :
      .terminate ∈ w.signals ∨ Demanded options w.requests := .inl (hsignals ▸ hsignal)
  cases i with
  | start =>
    cases c with
    | inl c => exact hsame (by rw [execCreate_frame (show execCreate c a w = _ from h)])
    | inr c => exact hsame (by rw [execClient_frame (show execClient _ c a w = _ from h)])
  | supervisor =>
    cases c with
    | inl c => exact hsame (by rw [execLock_frame (show execLock c a w = _ from h)])
    | inr c =>
      have hstep := execBody_cleanupView h
      have hview {v : CleanupView} (hv : w'.cleanupView = v) (hsignals : v.signals = w.signals) :
          .terminate ∈ w.signals ∨ Demanded options w.requests :=
        hsame ((congrArg CleanupView.signals hv).trans hsignals)
      cases c with
      | signal number => exact .inr (hguar b w' h)
      | startKill =>
        have hsignals : w'.signals = .kill :: w.signals := congrArg CleanupView.signals hstep
        rw [hsignals] at hsignal
        exact .inl ((List.mem_cons.mp hsignal).resolve_left (by decide))
      | persistState state | removeStop | removeSpec =>
        obtain hv | hv := hstep
        · exact hview hv rfl
        · exact hview hv rfl
      | openStop | readStop file | readSpec | readState => exact hview hstep.1 rfl
      | _ => exact hview hstep rfl
  | reader stream => exact hsame (by rw [execReader_frame (show execReader stream c a w = _ from h)])
  | client n => exact hsame (by rw [execClient_frame (show execClient _ c a w = _ from h)])

/-- The documents so far are true, and the process tree was signalled for a reason. -/
structure Reported (options : StartOptions) (w : World) : Prop where
  traced : w.cleanupView.Traced options
  signalled : .terminate ∈ w.signals → Demanded options w.requests
  history : ∀ state ∈ w.history, w.cleanupView.Reports options state

theorem Reported.step {i : Thread} {c : i.Cmd β} (hlaunch : launchProtocol options i c a w)
    (hguar : bodyGuarantee World.cleanupView (CleanupView.reporting options) i c a w)
    (hexec : exec i c a w = some (b, w')) (h : Reported options w) : Reported options w' := by
  have hevolves : Evolves options w.cleanupView w'.cleanupView := exec_evolves hexec
  refine ⟨hevolves.traced h.traced, fun hsignal => ?_, fun state hstate => ?_⟩
  · obtain hold | hdemanded := terminate_of_exec hexec hguar hsignal
    · exact (h.signalled hold).mono hevolves.requests
    · exact hdemanded.mono hevolves.requests
  suffices hreports : w.cleanupView.Reports options state from
    hreports.mono hevolves.signals hevolves.delivered hevolves.requests
  obtain hold | hwrites := mem_history_of_exec hexec hstate
  · exact h.history state hold
  cases i with
  | start =>
    cases c with
    | inl c =>
      cases c with
      | writeNewState old =>
        obtain rfl := Option.some.inj hwrites
        obtain ⟨-, -, requests, createdAtMs, -, -, rfl⟩ := hlaunch.1
        exact (CleanupView.blank_initialState options requests createdAtMs).report (.inl rfl)
          fun info hinfo => by cases hinfo
      | replaceState old =>
        obtain rfl := Option.some.inj hwrites
        obtain ⟨-, hcreated, old, error, updatedAtMs, finishedAtMs, hold, rfl⟩ := hlaunch.1
        obtain ⟨requests, createdAtMs, -, -, hdocument, -⟩ := hcreated.documents
        obtain rfl := StateFile.document.inj (hold.symm.trans hdocument)
        refine CleanupView.Blank.report ⟨rfl, rfl, rfl, rfl, rfl, rfl⟩ (.inr (.inr rfl)) ?_
        rintro _ ⟨⟩
        exact .inr rfl
      | _ => cases hwrites
    | inr c => cases hwrites
  | supervisor =>
    cases c with
    | inl c => cases hwrites
    | inr c =>
      cases c with
      | persistState old =>
        obtain rfl := Option.some.inj hwrites
        exact hguar b w' hexec
      | _ => cases hwrites
  | reader stream => cases hwrites
  | client index => cases hwrites

end Steps

section Runs

variable [Toolchain] {setup : Setup} {ok : system.Condition} {ms : List system.Move}
  {cfg : system.Config}

/-- What the supervisor finds when it acquires its lock. -/
theorem prepared_of_acquire {a : Answer} {w w' : World} (hlaunched : Launched setup.options w)
    (htraced : w.cleanupView.Traced setup.options)
    (hexec : execLock .acquire a w = some (.ok (), w')) :
    ∃ requests createdAtMs,
      CleanupView.Prepared setup.options requests createdAtMs w'.cleanupView := by
  simp only [execLock] at hexec
  repeat' split at hexec
  all_goals cases hexec
  rename_i hphase _ _ _
  obtain ⟨requests, createdAtMs, -, -, hdocument, -, hspec⟩ :=
    (hlaunched.created (not_not.mp hphase)).documents
  refine ⟨requests, createdAtMs, htraced, ?_, fun spec hread => ?_⟩
  · simp only [World.cleanupView, World.state?, hdocument]
    rfl
  · exact Option.some.inj (hread.symm.trans hspec)

/-- Every document of a tampered run is true. -/
theorem tampered_reported
    (h : Machine.TamperedRun (M := system) ok (plants setup.options) setup.initial ms cfg) :
    Reported setup.options cfg.world := by
  have hplants := tampersStop_plants setup.options
  have hlaunched := tampered_launched hplants h
  have htraced := hlaunched.with_invariant (J := fun w : World => w.cleanupView.Traced setup.options)
    (fun _ _ _ _ _ _ _ _ hexec htraced => (exec_evolves hexec).traced htraced)
    (fun _ _ ht htraced => (later_of_plants ht).traced htraced) (fun _ hfile => by cases hfile)
  have hguar := tampered_bodyGuarantee (V := World.cleanupView)
    (L := CleanupView.reporting setup.options)
    (fun v => ∃ requests createdAtMs, CleanupView.Prepared setup.options requests createdAtMs v)
    (fun c a w b w' _ hexec => execBody_cleanupView hexec)
    (fun j hj c a w b w' hok hexec hactive => later_of_other hj hok.1.2.1 hexec hactive)
    (fun a w w' hok hexec => prepared_of_acquire hok.1.2.2 hok.2 hexec)
    (fun path v hprepared => ?_) (fun w w' ht => later_of_plants ht) hplants htraced
  · refine hguar.invariant (J := Reported setup.options)
      (fun _ _ _ _ _ _ _ hok hexec hw => hw.step hok.1.1.2.1 hok.2 hexec) (fun w w' ht hw => ?_) ?_
    · have hlater : w.cleanupView.Later setup.options w'.cleanupView := later_of_plants ht
      obtain ⟨bytes, -, rfl⟩ := ht
      exact ⟨hlater.traced hw.traced, hw.signalled, fun state hstate =>
        (hw.history state hstate).mono hlater.signals hlater.delivered hlater.requests⟩
    · exact ⟨(fun _ hfile => by cases hfile), (fun hsignal => absurd hsignal List.not_mem_nil),
        fun _ hstate => absurd hstate List.not_mem_nil⟩
  · obtain ⟨requests, createdAtMs, hprepared⟩ := hprepared
    exact CleanupView.wp_superviseAndMark path hprepared

/-- However often forged requests are planted and whatever fails: the process tree is
    asked to end only if a client committed a stop request with the owner token of
    the run or the run has a runtime limit, and every document that tells of a stop
    tells of such a request. -/
theorem stop_authenticated (setup : Setup) {ms : List system.Move} {cfg : system.Config}
    (h : Machine.TamperedRun (M := system) (Machine.always system) (plants setup.options)
      setup.initial ms cfg) :
    (.terminate ∈ cfg.world.signals →
      (∃ request, Committed setup.options cfg.world.requests request) ∨
        setup.options.maxRuntimeMs.isSome) ∧
    ∀ state ∈ cfg.world.history,
      (state.status.stopTriggered ∨ state.cleanup.requestedAtMs.isSome →
        state.limits.runtimeLimitTriggeredAtMs = none →
        RequestedBy setup.options cfg.world.requests state.cleanup) ∧
      (∀ info ∈ state.exit, info.reason = .stopRequested →
        RequestedBy setup.options cfg.world.requests state.cleanup) := by
  have hreported := tampered_reported h
  refine ⟨hreported.signalled, fun state hstate => ?_⟩
  have hreports := hreported.history state hstate
  refine ⟨fun hstop hlimit => ?_, fun info hinfo hreason => ?_⟩
  · obtain htriggered | hrequested := hstop
    · exact hreports.asked.requested (hreports.triggered htriggered).1 hlimit
    · exact hreports.asked.requested hrequested hlimit
  · obtain ⟨hrequested, hlimit⟩ := hreports.stopRequested info hinfo hreason
    exact hreports.asked.requested hrequested hlimit

/-- What the documents of a run say of its cleanup is true, whatever fails and
    whatever is planted at `stop.request.json`. A run with an outcome was killed by
    a call that was accepted or found the tree gone; a run that failed, at least by
    a call of which the answer is not looked at. -/
theorem cleanup_reported (setup : Setup) {ms : List system.Move} {cfg : system.Config}
    (h : Machine.TamperedRun (M := system) (Machine.always system) (plants setup.options)
      setup.initial ms cfg) {state : RunState} (hstate : state ∈ cfg.world.history) :
    (state.cleanup.forceUsed → .kill ∈ cfg.world.delivered) ∧
    (state.cleanup.descendantCleanupTriggered → cfg.world.delivered ≠ []) ∧
    (state.status.stopTriggered →
      state.cleanup.requestedAtMs.isSome ∧ state.cleanup.descendantCleanupTriggered) ∧
    (∀ triggeredAtMs, state.limits.runtimeLimitTriggeredAtMs = some triggeredAtMs →
      state.cleanup.requestedAtMs = some triggeredAtMs ∧
      state.cleanup.graceMs = some state.limits.runtimeGraceMs ∧
      state.limits.maxRuntimeMs.isSome) ∧
    (state.status = .exited ∨ state.status = .stopped →
      state.cleanup.completedAtMs.isSome ∧ .kill ∈ cfg.world.delivered) ∧
    (state.status.isTerminal → state.process.processPid.isSome → .kill ∈ cfg.world.signals) ∧
    ∀ info ∈ state.exit,
      (info.reason = .processExited → state.cleanup.requestedAtMs = none) ∧
      (info.reason = .stopRequested →
        state.cleanup.requestedAtMs.isSome ∧ state.limits.runtimeLimitTriggeredAtMs = none) ∧
      (info.reason = .runtimeLimit → state.limits.runtimeLimitTriggeredAtMs.isSome) := by
  have hreports := (tampered_reported h).history state hstate
  exact ⟨hreports.forced, hreports.signalled, hreports.triggered, hreports.asked.limited,
    fun hended => ⟨hreports.completed hended, hreports.swept hended⟩, hreports.killed,
    fun info hinfo => ⟨hreports.processExited info hinfo, hreports.stopRequested info hinfo,
      hreports.runtimeLimit info hinfo⟩⟩

end Runs

end Procherd

namespace Procherd.Reference

open Interaction

theorem meets_always (cfg : system.Config) (m : system.Move) (_ : true) :
    Machine.Meets (M := system) (Machine.always system) cfg m :=
  fun _ _ _ _ => trivial

/-- From the look at the stop request to the release of the lock. -/
def stopped : List system.Move :=
  steps (.client 0) 1 {} ++ steps (.reader .stdout) 6 { count := 2 } ++
    steps (.reader .stderr) 3 {} ++
    steps .supervisor 30 { count := 1000, exit := some { code := some 0, signal := none } }

/-- A client's request replaces an empty file that was planted before it. -/
theorem stop_authenticated_replaced : ∃ (ms : List system.Move) (cfg : system.Config)
    (state : RunState),
    Machine.TamperedRun (M := system) (Machine.always system) (plants options)
      (setup stopper).initial ms cfg ∧ state ∈ cfg.world.history ∧ state.status = .stopped ∧
    RequestedBy options cfg.world.requests state.cleanup := by
  have hrun : (plantedRun (fun _ _ => true) stopper (startUp ++ steps (.client 0) 4 {})
      stopped).map (fun cfg => cfg.world.history.head?.map fun state =>
        (state.status, state.limits.runtimeLimitTriggeredAtMs)) =
      some (some (.stopped, none)) := by decide +kernel
  obtain ⟨cfg, hcfg, hfound⟩ := Option.map_eq_some_iff.mp hrun
  obtain ⟨state, hstate, hfound⟩ := Option.map_eq_some_iff.mp hfound
  obtain ⟨hstatus, hlimit⟩ := Prod.mk.inj hfound
  have htampered := tamperedRun_of_plantedRun meets_always hcfg
  have hmem := List.mem_of_mem_head? hstate
  have hstop : state.status.stopTriggered := by
    rw [hstatus]
    rfl
  exact ⟨_, cfg, state, htampered, hmem, hstatus,
    ((stop_authenticated (setup stopper) htampered).2 state hmem).1 (.inl hstop) hlimit⟩

/-- An empty file is planted where the supervisor polls. -/
theorem cleanup_reported_killed : ∃ (ms : List system.Move) (cfg : system.Config)
    (state : RunState),
    Machine.TamperedRun (M := system) (Machine.always system) (plants options)
      (setup idle).initial ms cfg ∧ state ∈ cfg.world.history ∧ state.status = .failed ∧
    .kill ∈ cfg.world.signals := by
  have hrun : (plantedRun (fun _ _ => true) idle startUp (steps .supervisor 14 {})).map
      (fun cfg => cfg.world.history.head?.map fun state =>
        (state.status, state.process.processPid.isSome)) =
      some (some (.failed, true)) := by decide +kernel
  obtain ⟨cfg, hcfg, hfound⟩ := Option.map_eq_some_iff.mp hrun
  obtain ⟨state, hstate, hfound⟩ := Option.map_eq_some_iff.mp hfound
  obtain ⟨hstatus, hpid⟩ := Prod.mk.inj hfound
  have htampered := tamperedRun_of_plantedRun meets_always hcfg
  have hmem := List.mem_of_mem_head? hstate
  have hterminal : state.status.isTerminal := by
    rw [hstatus]
    rfl
  obtain ⟨-, -, -, -, -, hkilled, -⟩ := cleanup_reported (setup idle) htampered hmem
  exact ⟨_, cfg, state, htampered, hmem, hstatus, hkilled hterminal hpid⟩

end Procherd.Reference
