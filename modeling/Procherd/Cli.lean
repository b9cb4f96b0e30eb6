-- SUMMARY: The commands of `cli.rs` that create, observe, await and stop a run, as procedures over the commands of the world.
import Procherd.Interaction.Proc
import Procherd.World

/-!
# Commands

`start`, `wait`, `stop` and the log reader of one run. Sleeps are left out: they
only let the other threads move, which they may do before every command.
-/

namespace Procherd

open Interaction

abbrev Client (α : Type) := Proc ClientCmd AppError Unit α

structure StartResult where
  schemaVersion : String
  run : RunView
deriving DecidableEq

structure WaitResult where
  schemaVersion : String
  condition : WaitCondition
  run : RunView
deriving DecidableEq

structure StopResult where
  schemaVersion : String
  alreadyTerminal : Bool
  run : RunView
deriving DecidableEq

/-! ## Observation -/

/-- `Store::supervisor_active`. -/
def supervisorActive : Client Bool := do
  if ← Proc.attempt .tryLock then
    Proc.attempt .unlock
    return false
  else return true

def checkRunSchema (state : RunState) : Except AppError Unit :=
  if state.schemaVersion ≠ RUN_SCHEMA_VERSION then
    .error (.integrity ("unsupported run schema " ++ state.schemaVersion))
  else .ok ()

def observeStateAndActivity : Client (RunState × Bool) := do
  let state ← Proc.attempt .readState
  Proc.ofExcept (checkRunSchema state)
  let active ← supervisorActive
  if !active && state.status.isLive then
    -- A free lock is paired with a fresh state: the supervisor may have
    -- finished since the first read.
    let state ← Proc.attempt .readState
    Proc.ofExcept (checkRunSchema state)
    return (state, active)
  else return (state, active)

def loadView : Client RunView := do
  let (state, active) ← observeStateAndActivity
  return .new state active

/-! ## wait -/

/-- What a condition says about a view: satisfied, not yet, or never. -/
def WaitCondition.check (runId : String) (view : RunView) : WaitCondition → Except AppError Bool
  | .running => .ok view.state.process.processPid.isSome
  | .ready =>
    let failed (status : String) := Except.error (AppError.operational "readiness_failed"
      ("run " ++ runId ++ " readiness ended as " ++ status ++ ": " ++
        view.state.readiness.failureReason.getD "unknown"))
    match view.state.readiness.status with
    | .ready => .ok true
    | .notConfigured => .error (.usage ("run " ++ runId ++ " has no readiness conditions"))
    | .timedOut => failed "TimedOut"
    | .failed => failed "Failed"
    | .pending =>
      if view.state.status.isTerminal then
        .error (.operational "readiness_failed"
          ("run " ++ runId ++ " exited before it became ready"))
      else .ok false
  | .exit => .ok (view.state.status.isTerminal && !view.supervisorActive)

def WaitCondition.name : WaitCondition → String
  | .running => "running"
  | .ready => "ready"
  | .exit => "exit"

/-- One round of the loop of `wait`. -/
def waitRound (runId : String) (condition : WaitCondition) (timeoutMs deadline : Nat) :
    Client (Option WaitResult) := do
  let view ← loadView
  Proc.throwIf (view.observedStatus = .orphaned) (.operational "orphaned"
    ("run " ++ runId ++ " has live durable state but no active supervisor"))
  if ← Proc.ofExcept (condition.check runId view) then
    return some { schemaVersion := "procherd.wait.v1", condition, run := view }
  else
    let now ← Proc.call .instant
    if deadline ≤ now then
      Proc.throw (.timeout ("run " ++ runId ++ " did not reach " ++ condition.name ++
        " within " ++ toString timeoutMs ++ " ms"))
    else return none

def wait (runId : String) (condition : WaitCondition) (timeoutMs : Nat) : Client WaitResult := do
  Proc.throwIf (timeoutMs = 0 ∨ 24 * 60 * 60 * 1000 < timeoutMs)
    (.usage "wait timeout must be greater than zero and at most 24h")
  let now ← Proc.call .instant
  Proc.repeatUntil (waitRound runId condition timeoutMs (now + timeoutMs))

/-! ## stop -/

def stopTimeout (runId : String) : AppError :=
  .timeout ("run " ++ runId ++ " reached terminal state but its supervisor remained active")

/-- One round of the loop that waits for the supervisor of a terminal run. -/
def settleRound (runId : String) (deadline : Nat) :
    Proc ClientCmd AppError RunView (Option RunView) := do
  let view ← Proc.get
  if !view.supervisorActive then return some view
  else
    let now ← Proc.call .instant
    if deadline ≤ now then Proc.throw (stopTimeout runId)
    else
      let (loaded, _) ← Proc.withStore () loadView
      let view ← Proc.ofExcept loaded
      Proc.modify fun _ => view
      return none

def settle (runId : String) (deadline : Nat) (view : RunView) : Client RunView := do
  let (result, _) ← Proc.withStore view (Proc.repeatUntil (settleRound runId deadline))
  Proc.ofExcept result

/-- One round of the loop that waits for the stop to take effect. -/
def stopRound (runId : String) (deadline : Nat) : Client (Option StopResult) := do
  let view ← loadView
  if view.state.status.isTerminal && !view.supervisorActive then
    return some { schemaVersion := "procherd.stop.v1", alreadyTerminal := false, run := view }
  else if !view.supervisorActive then
    Proc.throw (.operational "orphaned"
      ("run " ++ runId ++ " supervisor exited before persisting terminal state"))
  else
    let now ← Proc.call .instant
    if deadline ≤ now then
      Proc.throw (.timeout ("run " ++ runId ++ " did not stop within the grace period"))
    else return none

def stop (runId : String) (graceMs : Nat) : Client StopResult := do
  Proc.throwIf (5 * 60 * 1000 < graceMs) (.usage "stop grace must be at most 5m")
  let view ← loadView
  if view.state.status.isTerminal then
    let now ← Proc.call .instant
    let view ← settle runId (now + 5000) view
    return { schemaVersion := "procherd.stop.v1", alreadyTerminal := true, run := view }
  else if !view.supervisorActive then
    Proc.throw (.operational "orphaned"
      ("run " ++ runId ++ " cannot be stopped because its supervisor is not active"))
  else
    let ownerToken ← Proc.attempt .readOwnerToken
    let requestedAtMs ← Proc.call .now
    Proc.attempt (.writeStopRequest
      { schemaVersion := STOP_REQUEST_SCHEMA, runId, ownerToken, requestedAtMs, graceMs })
    let now ← Proc.call .instant
    Proc.repeatUntil (stopRound runId (now + graceMs + 5000))

/-! ## start -/

/-- The arguments of `start` after the durations and the conditions are parsed,
    and what it takes from its environment. -/
structure StartOptions where
  runId : String
  ownerToken : String
  workingDirectory : PathBuf
  maxLogBytes : Nat
  startupTimeoutMs : Nat
  maxRuntimeMs : Option Nat
  runtimeGraceMs : Nat
  readinessTimeoutMs : Nat
  conditions : List ReadinessCondition
  leasePorts : List String
  leaseTempDirs : List String
  program : String
  args : List String
  inheritedNameCount : Nat
  inheritedNamesSha256 : String

def StartOptions.check [Toolchain] (options : StartOptions) : Except AppError LeaseRequests := do
  if options.maxLogBytes = 0 ∨ 1024 * 1024 * 1024 < options.maxLogBytes then
    throw (.usage "max log bytes must be between 1 and 1073741824")
  if options.startupTimeoutMs = 0 ∨ 60 * 1000 < options.startupTimeoutMs then
    throw (.usage "startup timeout must be greater than zero and at most 60s")
  if options.maxRuntimeMs.any fun ms => decide (ms = 0 ∨ 30 * 24 * 60 * 60 * 1000 < ms) then
    throw (.usage "max runtime must be greater than zero and at most 30d")
  if 5 * 60 * 1000 < options.runtimeGraceMs then
    throw (.usage "runtime grace must be at most 5m")
  if options.readinessTimeoutMs = 0 ∨ 60 * 60 * 1000 < options.readinessTimeoutMs then
    throw (.usage "readiness timeout must be greater than zero and at most 1h")
  let requests ← validateRequests options.leasePorts options.leaseTempDirs
  if options.program = "" then throw (.usage "program must not be empty")
  return requests

theorem StartOptions.check_error [Toolchain] {options : StartOptions} {e : AppError}
    (h : options.check = .error e) : e.kind = "usage" := by
  simp only [StartOptions.check, bind, Except.bind, throw, throwThe, MonadExceptOf.throw, pure,
    Except.pure] at h
  repeat' split at h
  all_goals cases h
  all_goals first
    | rfl
    | (rename_i hrequests; exact validateRequests_error hrequests)

section Start

variable [Toolchain]

def platformTreeControl : TreeControl :=
  match Toolchain.platform with
  | .unix => .unixProcessGroup
  | .windows => .windowsJobObject

namespace StartOptions

def command (options : StartOptions) : CommandSpec :=
  { program := options.program
    args := options.args
    workingDirectory := options.workingDirectory
    environment := {
      inheritedNameCount := options.inheritedNameCount
      inheritedNamesSha256 := options.inheritedNamesSha256
      injectedNames := [] } }

def readiness (options : StartOptions) (createdAtMs : Nat) : ReadinessState :=
  .new options.conditions options.readinessTimeoutMs createdAtMs

def initialState (options : StartOptions) (requests : LeaseRequests) (createdAtMs : Nat) :
    RunState :=
  { schemaVersion := RUN_SCHEMA_VERSION
    runId := options.runId
    status := .created
    createdAtMs
    updatedAtMs := createdAtMs
    command := options.command
    process := {
      supervisorPid := none, processPid := none, treeControl := platformTreeControl }
    exit := none
    failure := none
    readiness := options.readiness createdAtMs
    leases := .requested requests.portNames requests.tempDirectoryNames
    limits := {
      maxRuntimeMs := options.maxRuntimeMs
      runtimeDeadlineAtMs := none
      runtimeGraceMs := options.runtimeGraceMs
      runtimeLimitTriggeredAtMs := none }
    cleanup := { gracefulSignalSupported := Toolchain.platform = .unix }
    logs := .new options.maxLogBytes }

def spec (options : StartOptions) (requests : LeaseRequests) (createdAtMs : Nat) :
    SupervisorSpec :=
  { schemaVersion := "procherd.supervisor-spec.v1"
    runId := options.runId
    ownerToken := options.ownerToken
    command := options.command
    maxLogBytes := options.maxLogBytes
    readiness := options.readiness createdAtMs
    leaseRequests := requests
    maxRuntimeMs := options.maxRuntimeMs
    runtimeGraceMs := options.runtimeGraceMs }

end StartOptions

abbrev Starter (α : Type) := Proc (Either CreateCmd ClientCmd) AppError Unit α

/-- `Store::create_run`. -/
def createRun (state : RunState) (spec : SupervisorSpec) (ownerToken : String) : Starter Unit := do
  let _ ← Proc.ofExcept (canonicalRunId state.runId)
  Proc.attempt (.inl .createDir)
  Proc.attempt (.inl .createLockFile)
  Proc.attempt (.inl .createState)
  Proc.attempt (.inl (.writeNewState state))
  Proc.attempt (.inl (.writeNewSpec spec))
  Proc.attempt (.inl (.writeNewToken ownerToken))

/-- The state that `start` writes when the supervisor cannot be launched. -/
def launchFailedState (error : AppError) (updatedAtMs finishedAtMs : Nat) (state : RunState) :
    RunState :=
  { state with
    status := .failed
    updatedAtMs
    exit := some { code := none, signal := none, reason := .supervisorFailed, finishedAtMs }
    failure := some { kind := error.kind, message := error.message } }

/-- The branch of a failed launch. -/
def failLaunch (runId : String) (state : RunState) (error : AppError) : Starter StartResult := do
  let updatedAtMs ← Proc.call (.inl .now)
  let finishedAtMs ← Proc.call (.inl .now)
  let _ ← Proc.call (.inl (.replaceState (launchFailedState error updatedAtMs finishedAtMs state)))
  Proc.throw (.operational "supervisor_launch"
    ("run " ++ runId ++ " could not start its supervisor: " ++ error.message))

def supervisorExit (runId : String) : AppError :=
  .operational "supervisor_exit" ("run " ++ runId ++ " supervisor exited during startup")

/-- The deadline of the polling loop: ask the supervisor to stop, and give up. -/
def abandonStart (options : StartOptions) : Proc ClientCmd AppError Bool (Option StartResult) := do
  let requestedAtMs ← Proc.call .now
  let _ ← Proc.call (.writeStopRequest
    { schemaVersion := STOP_REQUEST_SCHEMA, runId := options.runId
      ownerToken := options.ownerToken, requestedAtMs, graceMs := 0 })
  Proc.throw (.timeout ("run " ++ options.runId ++ " did not finish starting within " ++
    toString options.startupTimeoutMs ++ " ms"))

/-- The branch of the polling loop for a state that is neither `created` nor
    `starting`. -/
def concludeStart (runId : String) (deadline : Nat) (state : RunState) (active : Bool) :
    Proc ClientCmd AppError Bool (Option StartResult) := do
  if state.status.isTerminal && active then
    let now ← Proc.call .instant
    if deadline ≤ now then Proc.throw (stopTimeout runId) else return none
  else if state.status = .failed then
    let detail := state.failure.elim "the supervisor did not provide a diagnostic"
      fun failure => failure.kind ++ ": " ++ failure.message
    Proc.throw (.operational "start_failed" ("run " ++ runId ++ " failed to start: " ++ detail))
  else if !active && !state.status.isTerminal then Proc.throw (supervisorExit runId)
  else return some { schemaVersion := "procherd.start.v1", run := .new state active }

/-- One round of the polling loop of `start`. The store is `active_seen`. -/
def startRound (options : StartOptions) (deadline : Nat) :
    Proc ClientCmd AppError Bool (Option StartResult) := do
  let (observed, _) ← Proc.withStore () observeStateAndActivity
  let (state, active) ← Proc.ofExcept observed
  Proc.modify (· || active)
  if state.status ≠ .created ∧ state.status ≠ .starting then
    concludeStart options.runId deadline state active
  else
    let activeSeen ← Proc.get
    if activeSeen && !active then Proc.throw (supervisorExit options.runId)
    else
      let now ← Proc.call .instant
      if deadline ≤ now then abandonStart options else return none

/-- The polling loop of `start`. -/
def awaitStart (options : StartOptions) : Client StartResult := do
  let now ← Proc.call .instant
  let (result, _) ← Proc.withStore false
    (Proc.repeatUntil (startRound options (now + options.startupTimeoutMs)))
  Proc.ofExcept result

def start (options : StartOptions) : Starter StartResult := do
  let requests ← Proc.ofExcept options.check
  let createdAtMs ← Proc.call (.inl .now)
  let state := options.initialState requests createdAtMs
  createRun state (options.spec requests createdAtMs) options.ownerToken
  match ← Proc.call (.inl .launch) with
  | .error e => failLaunch options.runId state e
  | .ok () => (awaitStart options).hoist .inr

end Start

/-! ## Paging -/

/-- One page: the state read first, then what `read_logs` made of the file. -/
structure Page where
  state : RunState
  query : LogQuery
  result : Except AppError LogsResult

/-- A client that pages through the logs, with the limits of its pages. Every
    page starts where the previous one ended. -/
def pageLogs [Toolchain] (stream : Option LogStream) : Nat → List Nat → Client (List Page)
  | _, [] => pure []
  | after, limit :: limits => do
    let state ← Proc.attempt .readState
    let file ← Proc.call .readLogs
    let query : LogQuery := { afterCursor := after, limit, stream }
    let result := readLogs state query file
    match result with
    | .ok page => do
      let pages ← pageLogs stream page.nextAfterCursor limits
      return { state, query, result } :: pages
    | .error _ => return [{ state, query, result }]

/-- The client starts once `logs.ndjson` exists. -/
def pollLogs [Toolchain] (stream : Option LogStream) (limits : List Nat) : Client (List Page) := do
  Proc.call .awaitLogs
  pageLogs stream 0 limits

end Procherd
