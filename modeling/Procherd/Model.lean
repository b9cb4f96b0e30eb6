-- SUMMARY: The durable documents of a run and the results of the commands (`model.rs`).
import Procherd.Error
import Procherd.Format.Path

/-!
# Run documents

The data types of `model.rs` that the modelled functions read or write. A path
is an `OsString`: on Unix any byte string, of which only the UTF-8 ones can be
written into a document.
-/

namespace Procherd

def RUN_SCHEMA_VERSION : String := "procherd.run.v1"
def LOG_RECORD_SCHEMA_VERSION : String := "procherd.log-record.v1"

structure OsString where
  bytes : Bytes
deriving DecidableEq

abbrev PathBuf := OsString

def OsString.ofString (s : String) : OsString := ⟨s.toList.flatMap String.utf8EncodeChar⟩

/-- `Path::join`. -/
def OsString.join (path : PathBuf) (name : String) : PathBuf :=
  ⟨Path.join path.bytes (OsString.ofString name).bytes⟩

/-- `Path::to_str`: the path as text, if it is UTF-8. -/
def OsString.toStr (path : PathBuf) : Option String :=
  String.fromUTF8? ⟨path.bytes.toArray⟩

/-! ## Lifecycle -/

inductive RunStatus where
  | created
  | starting
  | running
  | stopping
  | exited
  | failed
  | stopped
deriving DecidableEq

def RunStatus.isTerminal : RunStatus → Bool
  | .exited | .failed | .stopped => true
  | _ => false

def RunStatus.isLive : RunStatus → Bool
  | .created | .starting | .running | .stopping => true
  | _ => false

theorem RunStatus.isLive_eq (s : RunStatus) : s.isLive = !s.isTerminal := by
  cases s <;> rfl

inductive ExitReason where
  | processExited
  | spawnFailed
  | stopRequested
  | runtimeLimit
  | supervisorFailed
deriving DecidableEq

structure ExitInfo where
  code : Option Int
  signal : Option Int
  reason : ExitReason
  finishedAtMs : Nat
deriving DecidableEq

structure FailureInfo where
  kind : String
  message : String
deriving DecidableEq

/-! ## Command, process and cleanup -/

structure EnvironmentPolicy where
  inheritedNameCount : Nat
  inheritedNamesSha256 : String
  injectedNames : List String
deriving DecidableEq

structure CommandSpec where
  program : String
  args : List String
  workingDirectory : PathBuf
  environment : EnvironmentPolicy
deriving DecidableEq

inductive TreeControl where
  | unixProcessGroup
  | windowsJobObject
deriving DecidableEq

structure ProcessInfo where
  supervisorPid : Option Nat
  processPid : Option Nat
  treeControl : TreeControl
deriving DecidableEq

structure CleanupInfo where
  requestedAtMs : Option Nat := none
  completedAtMs : Option Nat := none
  graceMs : Option Nat := none
  gracefulSignalSupported : Bool := false
  forceUsed : Bool := false
  descendantCleanupTriggered : Bool := false
deriving DecidableEq

structure RunLimits where
  maxRuntimeMs : Option Nat
  runtimeDeadlineAtMs : Option Nat
  runtimeGraceMs : Nat
  runtimeLimitTriggeredAtMs : Option Nat
deriving DecidableEq

/-! ## Logs -/

inductive LogStream where
  | stdout
  | stderr
deriving DecidableEq

def LogStream.name : LogStream → String
  | .stdout => "stdout"
  | .stderr => "stderr"

structure LogSummary where
  nextCursor : Nat
  capturedBytes : Nat
  droppedBytes : Nat
  maxBytes : Nat
  stdoutSha256 : Option String
  stderrSha256 : Option String
deriving DecidableEq

def LogSummary.new (maxBytes : Nat) : LogSummary :=
  { nextCursor := 1, capturedBytes := 0, droppedBytes := 0, maxBytes,
    stdoutSha256 := none, stderrSha256 := none }

inductive LogEncoding where
  | base64
deriving DecidableEq

structure LogRecord where
  schemaVersion : String
  cursor : Nat
  timestampMs : Nat
  stream : LogStream
  encoding : LogEncoding
  data : String
  byteCount : Nat
deriving DecidableEq

structure LogsResult where
  schemaVersion : String
  runId : String
  afterCursor : Nat
  records : List LogRecord
  nextAfterCursor : Nat
  hasMore : Bool
  capturedBytes : Nat
  droppedBytes : Nat
  terminal : Bool
deriving DecidableEq

/-! ## Readiness -/

inductive ReadinessStatus where
  | notConfigured
  | pending
  | ready
  | timedOut
  | failed
deriving DecidableEq

inductive ReadinessCondition where
  | tcp (address : String)
  | http (url : String)
  | file (path : PathBuf)
  | log (literal : String)
  | portLease (name : String)
deriving DecidableEq

structure ReadinessCheck where
  id : String
  condition : ReadinessCondition
  readyAtMs : Option Nat
  evidence : Option String
deriving DecidableEq

structure ReadinessState where
  status : ReadinessStatus
  timeoutMs : Nat
  deadlineAtMs : Option Nat
  readyAtMs : Option Nat
  failureReason : Option String
  checks : List ReadinessCheck
deriving DecidableEq

def ReadinessState.new (conditions : List ReadinessCondition) (timeoutMs createdAtMs : Nat) :
    ReadinessState :=
  let configured := !conditions.isEmpty
  { status := if configured then .pending else .notConfigured
    timeoutMs
    deadlineAtMs := if configured then some (saturatingAdd createdAtMs timeoutMs) else none
    readyAtMs := none
    failureReason := none
    checks := conditions.mapIdx fun index condition =>
      { id := "ready-" ++ toString (index + 1), condition, readyAtMs := none, evidence := none } }

/-! ## Leases -/

structure PortLease where
  name : String
  address : Option String
  port : Option Nat
  acquiredAtMs : Option Nat
  handoffAtMs : Option Nat
  handoffGapMs : Option Nat
  releasedAtMs : Option Nat
deriving DecidableEq

structure TempDirectoryLease where
  name : String
  path : Option PathBuf
  acquiredAtMs : Option Nat
  releasedAtMs : Option Nat
deriving DecidableEq

structure LeaseState where
  ports : List PortLease
  tempDirectories : List TempDirectoryLease
deriving DecidableEq

def LeaseState.requested (portNames tempNames : List String) : LeaseState :=
  { ports := portNames.map fun name =>
      { name, address := none, port := none, acquiredAtMs := none, handoffAtMs := none,
        handoffGapMs := none, releasedAtMs := none }
    tempDirectories := tempNames.map fun name =>
      { name, path := none, acquiredAtMs := none, releasedAtMs := none } }

structure LeaseRequests where
  portNames : List String
  tempDirectoryNames : List String
deriving DecidableEq

/-! ## The documents -/

/-- The content of `state.json`. -/
structure RunState where
  schemaVersion : String
  runId : String
  status : RunStatus
  createdAtMs : Nat
  updatedAtMs : Nat
  command : CommandSpec
  process : ProcessInfo
  exit : Option ExitInfo
  failure : Option FailureInfo
  readiness : ReadinessState
  leases : LeaseState
  limits : RunLimits
  cleanup : CleanupInfo
  logs : LogSummary
deriving DecidableEq

/-- The content of `spec.json`. -/
structure SupervisorSpec where
  schemaVersion : String
  runId : String
  ownerToken : String
  command : CommandSpec
  maxLogBytes : Nat
  readiness : ReadinessState
  leaseRequests : LeaseRequests
  maxRuntimeMs : Option Nat
  runtimeGraceMs : Nat
deriving DecidableEq

/-- The content of `stop.request.json`. -/
structure StopRequest where
  schemaVersion : String
  runId : String
  ownerToken : String
  requestedAtMs : Nat
  graceMs : Nat
deriving DecidableEq

/-! ## Results of the commands -/

inductive ObservedStatus where
  | consistent
  | orphaned
deriving DecidableEq

structure RunView where
  state : RunState
  supervisorActive : Bool
  observedStatus : ObservedStatus
deriving DecidableEq

def RunView.new (state : RunState) (supervisorActive : Bool) : RunView :=
  { state, supervisorActive
    observedStatus := if state.status.isLive && !supervisorActive then .orphaned else .consistent }

inductive WaitCondition where
  | running
  | ready
  | exit
deriving DecidableEq

end Procherd
