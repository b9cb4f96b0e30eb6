-- SUMMARY: The supervisor (`supervisor.rs`) and its reader threads (`logs.rs`) as procedures over the commands of the world.
import Procherd.Interaction.Proc
import Procherd.World

/-!
# Supervisor

`supervise` holds `supervisor.lock` around `superviseLocked`. The resources that
`supervise_locked` owns (the leases, the child, the receiver, the log writer)
are released in the order in which Rust drops them, whether it returns or fails:
each scope is an `ensuring`.
-/

namespace Procherd

open Interaction

def POLL_INTERVAL : Nat := 25
def LOG_DRAIN_LIMIT : Nat := 2000
def LOG_DRAIN_BATCH_CHUNKS : Nat := 64
def SNAPSHOT_INTERVAL : Nat := 250
def SUPERVISOR_SPEC_SCHEMA : String := "procherd.supervisor-spec.v1"

structure Stopping where
  deadline : Nat
  forceSent : Bool
  reason : ExitReason
deriving DecidableEq

/-- What `supervise_locked` owns. -/
structure Locals where
  spec : SupervisorSpec
  state : RunState
  leases : LeaseAllocation
  /-- `OwnedChild`: the child is there and not disarmed. -/
  armed : Bool := false
  logs : LogWriter
  readiness : ReadinessTracker := .new
  stopping : Option Stopping := none
  lastStateWrite : Nat := 0

abbrev Body (σ α : Type) := Proc BodyCmd AppError σ α

/-- A procedure on what `supervise_locked` owns. -/
abbrev Supervised (α : Type) := Body Locals α

/-! ## Leases -/

section Leases

variable {σ : Type}

/-- The transaction of `release_registry`. -/
def releaseRegistry (leases : LeaseAllocation) : Body σ LeaseAllocation :=
  if leases.registryReleased then pure leases
  else do
    Proc.attempt (.releaseRegistry leases.runId)
    return { leases with registryReleased := true }

/-- The end of an allocation whose state could not be populated:
    `release_registry`, which `Drop` repeats if it failed. -/
def discardLeases (leases : LeaseAllocation) : Body σ Unit := do
  match ← Proc.outcome (releaseRegistry leases) with
  | .ok _ => return ()
  | .error _ => do
    let _ ← Proc.outcome (releaseRegistry leases)
    return ()

def reservePortNames (runId : String) (names : List String) : Body σ (List ReservedPort) :=
  if names = [] then pure [] else Proc.attempt (.reservePorts runId names)

def createTempDirectories (names : List String) : Body σ (BTreeMap PathBuf) :=
  if names = [] then pure [] else Proc.attempt (.createTempDirectories names)

/-- `LeaseAllocation::acquire`: the allocation and the populated state. -/
def LeaseAllocation.acquire [Toolchain] (state : RunState) (requests : LeaseRequests) :
    Body σ (LeaseAllocation × RunState) := do
  let runId ← Proc.ofExcept (canonicalRunId state.runId)
  Proc.ofExcept (validateNames requests.portNames)
  Proc.ofExcept (validateNames requests.tempDirectoryNames)
  let acquiredAtMs ← Proc.call .now
  let tempPaths ← createTempDirectories requests.tempDirectoryNames
  let ports ← reservePortNames runId requests.portNames
  match LeaseAllocation.populateState ports state acquiredAtMs tempPaths with
  | .error e => do
    discardLeases { runId, ports }
    Proc.throw e
  | .ok (state, environment) => return ({ runId, ports, environment }, state)

/-- What a release of the leases keeps, discarding them keeps. -/
theorem wp_discardLeases {O : Type*} {L : Interface BodyCmd O} {J : O → Prop}
    {E : AppError → σ → O → Prop} {leases : LeaseAllocation}
    (hrelease : ∀ {s : σ} {o : O}, J o →
      Proc.wp L (releaseRegistry leases) (fun _ _ => J) (fun _ _ => J) s o)
    {s : σ} {o : O} (h : J o) : Proc.wp L (discardLeases leases) (fun _ _ => J) E s o := by
  refine Proc.wp_seq (fun _ _ => J) (Proc.wp_outcome (hrelease h)) fun released s o h => ?_
  cases released with
  | ok _ => exact Proc.wp_pure h
  | error _ =>
    exact Proc.wp_seq (fun _ _ => J) (Proc.wp_outcome (hrelease h)) fun _ _ _ h => Proc.wp_pure h

end Leases

/-- `LeaseAllocation::release`. -/
def releaseLeases : Supervised Unit := do
  let locals ← Proc.get
  let leases ← releaseRegistry locals.leases
  Proc.modify fun l => { l with leases }
  let releasedAtMs ← Proc.call .now
  Proc.modify fun l => { l with state := releaseAt releasedAtMs l.state }

/-- `Drop` of `LeaseAllocation`. -/
def dropLeases : Supervised Unit := do
  let locals ← Proc.get
  let _ ← Proc.outcome (releaseRegistry locals.leases)
  return ()

/-! ## State -/

def persistState : Supervised Unit := do
  let locals ← Proc.get
  Proc.attempt (.persistState locals.state)

/-- `state.updated_at_ms = now_ms()`. -/
def touch : Supervised Unit := do
  let now ← Proc.call .now
  Proc.modify fun l => { l with state := { l.state with updatedAtMs := now } }

/-- `last_state_write = Instant::now()`. -/
def markStateWrite : Supervised Unit := do
  let now ← Proc.call .instant
  Proc.modify fun l => { l with lastStateWrite := now }

/-! ## The child -/

def startKillTolerant : Supervised Bool := do
  match ← Proc.call .startKill with
  | .ok () => return true
  | .error e => if isProcessGone e then return false else Proc.throw (.ofIo e)

/-- The error that `Interrupted` is not propagated but retried. -/
def tryWaitRetry : Supervised (Option ExitStatus) :=
  Proc.repeatUntil do
    match ← Proc.call .tryWait with
    | .ok status => return some status
    | .error e => if e.kind = .interrupted then return none else Proc.throw (.ofIo e)

/-- `Drop` of `OwnedChild`. -/
def dropChild : Supervised Unit := do
  let locals ← Proc.get
  if locals.armed then
    let _ ← Proc.call .startKill
  return ()

/-! ## LogWriter -/

/-- Write the buffer out: `serde_json::to_writer`, `write_all` and `flush`. -/
def writeBuffer : Supervised Unit :=
  Proc.repeatUntil do
    let locals ← Proc.get
    if locals.logs.buffer = [] then return some ()
    else
      match ← Proc.call (.appendLog locals.logs.buffer) with
      | .wrote count =>
        Proc.modify fun l => { l with
          logs := { l.logs with buffer := l.logs.buffer.drop count } }
        return none
      | .failed e kept =>
        Proc.modify fun l => { l with
          logs := { l.logs with buffer := l.logs.buffer.take kept } }
        Proc.throw e

/-- The part of `LogWriter::record` for a chunk of which something is captured. -/
def recordCaptured (chunk : LogChunk) : Supervised Unit := do
  let timestampMs ← Proc.call .now
  let locals ← Proc.get
  let record := locals.logs.nextRecord chunk timestampMs
  Proc.modify fun l => { l with logs := { l.logs with buffer := record.line } }
  writeBuffer
  Proc.modify fun l => { l with logs := l.logs.advance record.byteCount }

def record (chunk : LogChunk) : Supervised Unit := do
  Proc.modify fun l => { l with logs := l.logs.updateDigest chunk }
  let locals ← Proc.get
  let captured := locals.logs.captured chunk
  if 0 < captured then recordCaptured chunk
  Proc.modify fun l => { l with logs := l.logs.drop (chunk.bytes.length - captured) }

/-- `LogWriter::finish`, which consumes the writer in any case. -/
def finishLogs [Toolchain] : Supervised Unit := do
  Proc.modify fun l => { l with logs := { l.logs with finished := true } }
  Proc.attempt .syncLog
  Proc.modify fun l => { l with state := { l.state with logs := l.logs.finish } }

/-- `Drop` of `LogWriter`. -/
def dropLogs : Supervised Unit := do
  let locals ← Proc.get
  if locals.logs.finished then return ()
  else Proc.call (.dropLog locals.logs.buffer)

/-! ## Draining the channel -/

structure DrainOutcome where
  readinessChanged : Bool
  saturated : Bool
deriving DecidableEq

def recordChunk (chunk : LogChunk) : Supervised Bool := do
  let clock ← Proc.call .clock
  let locals ← Proc.get
  let (readiness, readinessState, changed) := locals.readiness.observeLog locals.state.readiness
    chunk.stream (locals.logs.capturableBytes chunk) clock
  Proc.modify fun l => { l with readiness, state := { l.state with readiness := readinessState } }
  record chunk
  return changed

/-- The batch of `drain_available`: at most `n` more chunks. -/
def drainBatch : Nat → Bool → Supervised DrainOutcome
  | 0, readinessChanged => pure { readinessChanged, saturated := true }
  | n + 1, readinessChanged => do
    match ← Proc.call .tryRecv with
    | .chunk chunk => do
      let changed ← recordChunk chunk
      drainBatch n (readinessChanged || changed)
    | .empty | .disconnected => return { readinessChanged, saturated := false }

def drainAvailable : Supervised DrainOutcome := drainBatch LOG_DRAIN_BATCH_CHUNKS false

def logDrainTimeout : AppError :=
  .operational "log_drain_timeout" "log capture did not close within the bounded drain period"

/-- One round of `drain_until_closed`. -/
def drainRound (deadline : Nat) : Supervised (Option Unit) := do
  let now ← Proc.call .instant
  let remaining := deadline - now
  if remaining = 0 then
    match ← Proc.call .tryRecv with
    | .disconnected => return some ()
    | .chunk _ | .empty => Proc.throw logDrainTimeout
  else
    match ← Proc.call (.recvTimeout (min remaining POLL_INTERVAL)) with
    | .chunk chunk => do
      let _ ← recordChunk chunk
      return none
    | .empty => return none
    | .disconnected => return some ()

def drainUntilClosed (limit : Nat) : Supervised Unit := do
  let now ← Proc.call .instant
  Proc.repeatUntil (drainRound (now + limit))

/-! ## Stop requests -/

section StopRequests

variable [Toolchain] {σ : Type}

/-- `read_json` at `stop.request.json`. -/
def readStopJson (path : PathBuf) : Body σ StopRequest := do
  Proc.attempt .inspectStop
  let file ← Proc.attempt .openStop
  let bytes ← Proc.attempt (.readStop file)
  Proc.ofExcept (parseStopRequest path bytes)

def readStopRequest (path : PathBuf) (spec : SupervisorSpec) : Body σ (Option StopRequest) := do
  match ← Proc.outcome (readStopJson path) with
  | .ok request => do
    Proc.ofExcept (validateStopRequest spec request)
    Proc.attempt .removeStop
    return some request
  | .error e =>
    if e.kind = "io" then
      if ← Proc.call .stopExists then Proc.throw e else return none
    else Proc.throw e

def requestStop (graceMs : Nat) (reason : ExitReason) : Supervised Stopping := do
  Proc.modify fun l => { l with
    state := { l.state with cleanup := { l.state.cleanup with
      descendantCleanupTriggered := true } } }
  match Toolchain.platform with
  | .unix => do
    match ← Proc.call (.signal 15) with
    | .ok () => pure ()
    | .error e => if isProcessGone e then pure () else Proc.throw (.ofIo e)
    let now ← Proc.call .instant
    return { deadline := now + graceMs, forceSent := false, reason }
  | .windows => do
    let _ ← startKillTolerant
    Proc.modify fun l => { l with
      state := { l.state with cleanup := { l.state.cleanup with forceUsed := true } } }
    let now ← Proc.call .instant
    return { deadline := now, forceSent := true, reason }

/-- The branch of a stop request. -/
def acceptStop (request : StopRequest) : Supervised Unit := do
  Proc.modify fun l => { l with state := { l.state with status := .stopping } }
  touch
  Proc.modify fun l => { l with
    state := { l.state with cleanup := { l.state.cleanup with
      requestedAtMs := some request.requestedAtMs, graceMs := some request.graceMs } } }
  let stopping ← requestStop request.graceMs .stopRequested
  Proc.modify fun l => { l with stopping := some stopping }
  persistState

/-- The branch of an expired runtime deadline. -/
def expireRuntime : Supervised Unit := do
  let triggeredAtMs ← Proc.call .now
  let locals ← Proc.get
  let graceMs := locals.spec.runtimeGraceMs
  Proc.modify fun l => { l with
    state := { l.state with
      status := .stopping
      updatedAtMs := triggeredAtMs
      limits := { l.state.limits with runtimeLimitTriggeredAtMs := some triggeredAtMs }
      cleanup := { l.state.cleanup with
        requestedAtMs := some triggeredAtMs, graceMs := some graceMs } } }
  let stopping ← requestStop graceMs .runtimeLimit
  Proc.modify fun l => { l with stopping := some stopping }
  persistState

/-- `runtime_deadline_at_ms.is_some_and(|deadline| now_ms() >= deadline)`. -/
def deadlineExpired : Supervised Bool := do
  let locals ← Proc.get
  match locals.state.limits.runtimeDeadlineAtMs with
  | none => return false
  | some deadline => do
    let now ← Proc.call .now
    return decide (deadline ≤ now)

/-- The branch of the loop while nothing has triggered a stop. -/
def watchTriggers (path : PathBuf) : Supervised Unit := do
  let locals ← Proc.get
  match ← readStopRequest path locals.spec with
  | some request => acceptStop request
  | none => if ← deadlineExpired then expireRuntime

end StopRequests

/-- `!force_sent && Instant::now() >= deadline`. -/
def forceDue (stopping : Stopping) : Supervised Bool :=
  if stopping.forceSent then return false
  else do
    let now ← Proc.call .instant
    return decide (stopping.deadline ≤ now)

/-- The branch of the loop while stopping. -/
def enforceStop (stopping : Stopping) : Supervised Unit := do
  if ← forceDue stopping then
    if ← startKillTolerant then
      Proc.modify fun l => { l with
        state := { l.state with cleanup := { l.state.cleanup with
          descendantCleanupTriggered := true } } }
    Proc.modify fun l => { l with
      stopping := some { stopping with forceSent := true }
      state := { l.state with cleanup := { l.state.cleanup with forceUsed := true } } }
    touch
    persistState

/-! ## The loop -/

section Loop

variable [Toolchain]

def exitInfo (status : ExitStatus) (reason : ExitReason) (finishedAtMs : Nat) : ExitInfo :=
  { code := status.code
    signal := match Toolchain.platform with
      | .unix => status.signal
      | .windows => none
    reason, finishedAtMs }

/-- The kill of what is left of the tree after the child exited. -/
def killRemaining : Supervised Unit := do
  if ← startKillTolerant then
    Proc.modify fun l => { l with
      state := { l.state with cleanup := { l.state.cleanup with
        descendantCleanupTriggered := true
        forceUsed := l.state.cleanup.forceUsed || l.stopping.isSome } } }

/-- The state with which a run ends whose child has exited. -/
def finalState (state : RunState) (stopping : Option Stopping) (exitStatus : ExitStatus)
    (finishedAtMs : Nat) : RunState :=
  { state with
    cleanup := { state.cleanup with completedAtMs := some state.updatedAtMs }
    status := if stopping.isSome then .stopped else .exited
    exit := some (exitInfo exitStatus
      (stopping.elim ExitReason.processExited (·.reason)) finishedAtMs) }

/-- The branch of the loop once the child has exited. -/
def handleExit (exitStatus : ExitStatus) : Supervised Unit := do
  killRemaining
  Proc.modify fun l => { l with armed := false }
  drainUntilClosed LOG_DRAIN_LIMIT
  Proc.modify fun l => { l with state := { l.state with
    readiness := (ReadinessTracker.processExited l.state.readiness).1 } }
  finishLogs
  releaseLeases
  touch
  let finishedAtMs ← Proc.call .now
  Proc.modify fun l => { l with state := finalState l.state l.stopping exitStatus finishedAtMs }
  persistState

/-- The periodic snapshot. -/
def snapshotIfDue : Supervised Unit := do
  let now ← Proc.call .instant
  let locals ← Proc.get
  if SNAPSHOT_INTERVAL ≤ now - locals.lastStateWrite then
    Proc.modify fun l => { l with state := { l.state with logs := l.logs.snapshot } }
    touch
    persistState
    markStateWrite

def pollReadiness : Supervised Bool := do
  let inputs ← Proc.call .pollReadiness
  let locals ← Proc.get
  let (readiness, readinessState, changed) :=
    locals.readiness.poll locals.state.readiness inputs
  Proc.modify fun l => { l with readiness, state := { l.state with readiness := readinessState } }
  return changed

/-- `if readiness_changed`. -/
def persistReadiness (readinessChanged : Bool) : Supervised Unit := do
  if readinessChanged then
    touch
    persistState
    markStateWrite

/-- `if let Some(stopping) = stopping.as_mut()`. -/
def superviseStop (path : PathBuf) : Supervised Unit := do
  let locals ← Proc.get
  match locals.stopping with
  | none => watchTriggers path
  | some stopping => enforceStop stopping

/-- One round of the loop of `supervise_locked`. -/
def superviseRound (path : PathBuf) : Supervised (Option Unit) := do
  let drain ← drainAvailable
  let polled ← pollReadiness
  persistReadiness (drain.readinessChanged || polled)
  superviseStop path
  match ← tryWaitRetry with
  | some exitStatus => do
    handleExit exitStatus
    return some ()
  | none => do
    snapshotIfDue
    Proc.call (.sleep (if drain.saturated then 0 else POLL_INTERVAL))
    return none

/-! ## The setup -/

/-- From the capture of the output on: the scopes of the receiver and of the log
    writer. -/
def superviseOutput (path : PathBuf) : Supervised Unit :=
  Proc.ensuring
    (do
      Proc.call .openChannel
      Proc.call (.captureStream .stdout)
      Proc.call (.captureStream .stderr)
      Proc.call .dropSender
      Proc.attempt .createLog
      let now ← Proc.call .instant
      Proc.modify fun l => { l with lastStateWrite := now }
      Proc.ensuring (Proc.repeatUntil (superviseRound path)) dropLogs)
    (Proc.call .dropReceiver)

/-- From the spawn on: the scope of the child. -/
def superviseChild (path : PathBuf) (pid : Nat) : Supervised Unit :=
  Proc.ensuring
    (do
      Proc.modify fun l => { l with armed := true }
      let spawnedAtMs ← Proc.call .now
      Proc.modify fun l =>
        let state := recordSpawn spawnedAtMs l.state
        { l with state := { state with
          limits := { state.limits with
            runtimeDeadlineAtMs := l.spec.maxRuntimeMs.map (saturatingAdd spawnedAtMs) }
          status := .running } }
      touch
      Proc.modify fun l => { l with
        state := { l.state with process := { l.state.process with processPid := some pid } } }
      persistState
      superviseOutput path)
    dropChild

/-- The branch of a failed spawn. -/
def failSpawn (error : IoError) : Supervised Unit := do
  Proc.modify fun l => { l with state := { l.state with status := .failed } }
  touch
  let finishedAtMs ← Proc.call .now
  Proc.modify fun l => { l with state := { l.state with
    exit := some { code := none, signal := none, reason := .spawnFailed, finishedAtMs }
    failure := some { kind := "process_spawn", message := error.message } } }
  releaseLeases
  persistState
  let locals ← Proc.get
  Proc.throw (.operational "process_spawn"
    ("cannot start " ++ locals.spec.command.program ++ ": " ++ error.message))

/-- From the acquisition of the leases on: the scope of the leases. -/
def superviseLeased (path : PathBuf) : Supervised Unit :=
  Proc.ensuring
    (do
      persistState
      let handoffAtMs ← Proc.call .now
      Proc.modify fun l => { l with state := l.leases.handoffAt handoffAtMs l.state }
      let locals ← Proc.get
      match ← Proc.call (.spawn locals.state.command locals.leases.environment) with
      | .ok pid => superviseChild path pid
      | .error e => failSpawn e)
    dropLeases

/-- The checks of the state against the spec. -/
def specMatches (spec : SupervisorSpec) (state : RunState) : Bool :=
  state.schemaVersion = RUN_SCHEMA_VERSION ∧ state.runId = spec.runId ∧
    state.command.program = spec.command.program ∧ state.command.args = spec.command.args ∧
    state.readiness = spec.readiness ∧ state.limits.maxRuntimeMs = spec.maxRuntimeMs ∧
    state.limits.runtimeGraceMs = spec.runtimeGraceMs

/-- The checks of the spec and of the state, in the order of the source. -/
def loadSupervised : Body Unit (SupervisorSpec × RunState) := do
  let spec ← Proc.attempt .readSpec
  Proc.throwIf (spec.schemaVersion ≠ SUPERVISOR_SPEC_SCHEMA)
    (.integrity ("unsupported supervisor spec " ++ spec.schemaVersion))
  let state ← Proc.attempt .readState
  Proc.throwIf (specMatches spec state = false)
    (.integrity "supervisor spec does not match run state")
  return (spec, state)

def superviseLocked (path : PathBuf) : Body Unit Unit := do
  let (spec, state) ← loadSupervised
  Proc.attempt .removeSpec
  let updatedAtMs ← Proc.call .now
  let supervisorPid ← Proc.call .supervisorPid
  let state := { state with
    status := .starting, updatedAtMs
    process := { state.process with supervisorPid := some supervisorPid } }
  Proc.attempt (.persistState state)
  let (leases, state) ← LeaseAllocation.acquire state spec.leaseRequests
  let (result, _) ← Proc.withStore
    { spec, state, leases, logs := .create spec.maxLogBytes } (superviseLeased path)
  Proc.ofExcept result

end Loop

/-! ## supervise -/

/-- Release a lease that was acquired and not released. -/
def PortLease.expire (releasedAtMs : Nat) (lease : PortLease) : PortLease :=
  if lease.acquiredAtMs.isSome ∧ lease.releasedAtMs.isNone then
    { lease with releasedAtMs := some releasedAtMs }
  else lease

def TempDirectoryLease.expire (releasedAtMs : Nat) (lease : TempDirectoryLease) :
    TempDirectoryLease :=
  if lease.acquiredAtMs.isSome ∧ lease.releasedAtMs.isNone then
    { lease with releasedAtMs := some releasedAtMs }
  else lease

/-- The state that `mark_supervisor_failed` writes. -/
def failedState (error : AppError) (updatedAtMs finishedAtMs : Nat) (state : RunState) :
    RunState :=
  { state with
    status := .failed
    updatedAtMs
    exit := some { code := none, signal := none, reason := .supervisorFailed, finishedAtMs }
    failure := some { kind := error.kind, message := error.message }
    cleanup := { state.cleanup with completedAtMs := some updatedAtMs }
    leases := {
      ports := state.leases.ports.map (·.expire updatedAtMs)
      tempDirectories := state.leases.tempDirectories.map (·.expire updatedAtMs) } }

def markSupervisorFailed (error : AppError) : Body Unit Unit := do
  match ← Proc.call .readState with
  | .error _ => return ()
  | .ok state =>
    if state.status.isTerminal then return ()
    else do
      let updatedAtMs ← Proc.call .now
      let finishedAtMs ← Proc.call .now
      let _ ← Proc.call (.persistState (failedState error updatedAtMs finishedAtMs state))
      return ()

/-- What `supervise` does under its lock. -/
def superviseAndMark [Toolchain] (path : PathBuf) : Body Unit Unit := do
  match ← Proc.outcome (superviseLocked path) with
  | .ok () => return ()
  | .error e => do
    markSupervisorFailed e
    Proc.throw e

def supervise [Toolchain] (path : PathBuf) : Proc (Either LockCmd BodyCmd) AppError Unit Unit := do
  Proc.attempt (.inl .acquire)
  let result ← Proc.outcome ((superviseAndMark path).hoist .inr)
  Proc.call (.inl .release)
  Proc.ofExcept result

/-! ## The reader threads -/

/-- The thread of `capture_stream`. -/
def captureStream (stream : LogStream) : Prog ReaderCmd Unit :=
  .loop
    (fun () => .exec .read fun
      | .eof | .failed => .ret (.inr ())
      | .interrupted => .ret (.inl ())
      | .bytes bytes => .exec (.send { stream, bytes }) fun alive =>
          .ret (if alive then .inl () else .inr ()))
    () (fun () => Prog.call .dropSender)

end Procherd
