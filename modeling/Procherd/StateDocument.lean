-- SUMMARY: The text of `state.json`: what the writers put into the file, and for which states the readers accept it.
import Procherd.Format.JsonSize
import Procherd.Readability
import Procherd.Reference

/-!
# The state document

Every write of `state.json` serializes the whole state, whatever its size. The
readers refuse a document above a limit before they parse it, so that a run whose
state is larger can be created but not read.
-/

namespace Procherd

open Interaction

/-! ## Serialization -/

def RunStatus.name : RunStatus → String
  | .created => "created"
  | .starting => "starting"
  | .running => "running"
  | .stopping => "stopping"
  | .exited => "exited"
  | .failed => "failed"
  | .stopped => "stopped"

def ExitReason.name : ExitReason → String
  | .processExited => "process_exited"
  | .spawnFailed => "spawn_failed"
  | .stopRequested => "stop_requested"
  | .runtimeLimit => "runtime_limit"
  | .supervisorFailed => "supervisor_failed"

def TreeControl.name : TreeControl → String
  | .unixProcessGroup => "unix_process_group"
  | .windowsJobObject => "windows_job_object"

def ReadinessStatus.name : ReadinessStatus → String
  | .notConfigured => "not_configured"
  | .pending => "pending"
  | .ready => "ready"
  | .timedOut => "timed_out"
  | .failed => "failed"

section Serialize

/-- An absent value is `null`. -/
def optional {α : Type} (f : α → Json) : Option α → Json
  | none => .null
  | some a => f a

def natural (n : Nat) : Json := .num n

/-- Only a path that is UTF-8 can be serialized. -/
def OsString.toJson (path : PathBuf) : Option Json := path.toStr.map .str

def EnvironmentPolicy.toJson (environment : EnvironmentPolicy) : Json :=
  .obj [("mode", .str "inherit"),
    ("inherited_name_count", natural environment.inheritedNameCount),
    ("inherited_names_sha256", .str environment.inheritedNamesSha256),
    ("injected_names", .arr (environment.injectedNames.map .str))]

def CommandSpec.toJson (command : CommandSpec) : Option Json := do
  let workingDirectory ← command.workingDirectory.toJson
  return .obj [("program", .str command.program),
    ("args", .arr (command.args.map .str)),
    ("working_directory", workingDirectory),
    ("environment", command.environment.toJson)]

def ProcessInfo.toJson (process : ProcessInfo) : Json :=
  .obj [("supervisor_pid", optional natural process.supervisorPid),
    ("process_pid", optional natural process.processPid),
    ("tree_control", .str process.treeControl.name)]

def ExitInfo.toJson (exit : ExitInfo) : Json :=
  .obj [("code", optional .num exit.code),
    ("signal", optional .num exit.signal),
    ("reason", .str exit.reason.name),
    ("finished_at_ms", natural exit.finishedAtMs)]

def FailureInfo.toJson (failure : FailureInfo) : Json :=
  .obj [("kind", .str failure.kind), ("message", .str failure.message)]

def ReadinessCondition.toJson : ReadinessCondition → Option Json
  | .tcp address => some (.obj [("type", .str "tcp"), ("address", .str address)])
  | .http url => some (.obj [("type", .str "http"), ("url", .str url)])
  | .file path => path.toJson.map fun text => .obj [("type", .str "file"), ("path", text)]
  | .log literal => some (.obj [("type", .str "log"), ("literal", .str literal)])
  | .portLease name => some (.obj [("type", .str "port_lease"), ("name", .str name)])

def ReadinessCheck.toJson (check : ReadinessCheck) : Option Json := do
  let condition ← check.condition.toJson
  return .obj [("id", .str check.id),
    ("condition", condition),
    ("ready_at_ms", optional natural check.readyAtMs),
    ("evidence", optional .str check.evidence)]

def ReadinessState.toJson (readiness : ReadinessState) : Option Json := do
  let checks ← readiness.checks.mapM ReadinessCheck.toJson
  return .obj [("status", .str readiness.status.name),
    ("timeout_ms", natural readiness.timeoutMs),
    ("deadline_at_ms", optional natural readiness.deadlineAtMs),
    ("ready_at_ms", optional natural readiness.readyAtMs),
    ("failure_reason", optional .str readiness.failureReason),
    ("checks", .arr checks)]

def PortLease.toJson (lease : PortLease) : Json :=
  .obj [("name", .str lease.name),
    ("address", optional .str lease.address),
    ("port", optional natural lease.port),
    ("acquired_at_ms", optional natural lease.acquiredAtMs),
    ("handoff_at_ms", optional natural lease.handoffAtMs),
    ("handoff_gap_ms", optional natural lease.handoffGapMs),
    ("released_at_ms", optional natural lease.releasedAtMs),
    ("guarantee", .str "coordinated_best_effort")]

def TempDirectoryLease.toJson (lease : TempDirectoryLease) : Option Json := do
  let path ←
    match lease.path with
    | none => pure Json.null
    | some path => path.toJson
  return .obj [("name", .str lease.name),
    ("path", path),
    ("acquired_at_ms", optional natural lease.acquiredAtMs),
    ("released_at_ms", optional natural lease.releasedAtMs),
    ("retained_after_release", .bool true)]

def LeaseState.toJson (leases : LeaseState) : Option Json := do
  let tempDirectories ← leases.tempDirectories.mapM TempDirectoryLease.toJson
  return .obj [("ports", .arr (leases.ports.map PortLease.toJson)),
    ("temp_directories", .arr tempDirectories)]

def RunLimits.toJson (limits : RunLimits) : Json :=
  .obj [("max_runtime_ms", optional natural limits.maxRuntimeMs),
    ("runtime_deadline_at_ms", optional natural limits.runtimeDeadlineAtMs),
    ("runtime_grace_ms", natural limits.runtimeGraceMs),
    ("runtime_limit_triggered_at_ms", optional natural limits.runtimeLimitTriggeredAtMs)]

def CleanupInfo.toJson (cleanup : CleanupInfo) : Json :=
  .obj [("requested_at_ms", optional natural cleanup.requestedAtMs),
    ("completed_at_ms", optional natural cleanup.completedAtMs),
    ("grace_ms", optional natural cleanup.graceMs),
    ("graceful_signal_supported", .bool cleanup.gracefulSignalSupported),
    ("force_used", .bool cleanup.forceUsed),
    ("descendant_cleanup_triggered", .bool cleanup.descendantCleanupTriggered)]

def LogSummary.toJson (logs : LogSummary) : Json :=
  .obj [("next_cursor", natural logs.nextCursor),
    ("captured_bytes", natural logs.capturedBytes),
    ("dropped_bytes", natural logs.droppedBytes),
    ("max_bytes", natural logs.maxBytes),
    ("stdout_sha256", optional .str logs.stdoutSha256),
    ("stderr_sha256", optional .str logs.stderrSha256)]

def RunState.toJson (state : RunState) : Option Json := do
  let command ← state.command.toJson
  let readiness ← state.readiness.toJson
  let leases ← state.leases.toJson
  return .obj [("schema_version", .str state.schemaVersion),
    ("run_id", .str state.runId),
    ("status", .str state.status.name),
    ("created_at_ms", natural state.createdAtMs),
    ("updated_at_ms", natural state.updatedAtMs),
    ("command", command),
    ("process", state.process.toJson),
    ("exit", optional ExitInfo.toJson state.exit),
    ("failure", optional FailureInfo.toJson state.failure),
    ("readiness", readiness),
    ("leases", leases),
    ("limits", state.limits.toJson),
    ("cleanup", state.cleanup.toJson),
    ("logs", state.logs.toJson)]

/-- The bytes that `write_new_json` and `atomic_write_json` write, unless the state
    cannot be serialized. -/
def RunState.encode (state : RunState) : Option Bytes :=
  state.toJson.map fun document => Json.utf8 (document.pretty 0) ++ [10]

def LeaseRequests.toJson (requests : LeaseRequests) : Json :=
  .obj [("port_names", .arr (requests.portNames.map .str)),
    ("temp_directory_names", .arr (requests.tempDirectoryNames.map .str))]

def SupervisorSpec.toJson (spec : SupervisorSpec) : Option Json := do
  let command ← spec.command.toJson
  let readiness ← spec.readiness.toJson
  return .obj [("schema_version", .str spec.schemaVersion),
    ("run_id", .str spec.runId),
    ("owner_token", .str spec.ownerToken),
    ("command", command),
    ("max_log_bytes", natural spec.maxLogBytes),
    ("readiness", readiness),
    ("lease_requests", spec.leaseRequests.toJson),
    ("max_runtime_ms", optional natural spec.maxRuntimeMs),
    ("runtime_grace_ms", natural spec.runtimeGraceMs)]

/-- The bytes that `write_new_json` writes. -/
def SupervisorSpec.encode (spec : SupervisorSpec) : Option Bytes :=
  spec.toJson.map fun document => Json.utf8 (document.pretty 0) ++ [10]

end Serialize

/-- `serde_json` writes the documents that are modelled here. -/
class LawfulStateFormat [Toolchain] : Prop where
  stateLength_eq : ∀ (state : RunState) (bytes : Bytes), state.encode = some bytes →
    Toolchain.stateLength state = bytes.length
  specLength_eq : ∀ (spec : SupervisorSpec) (bytes : Bytes), spec.encode = some bytes →
    Toolchain.specLength spec = bytes.length

/-! ## Reading -/

section Read

variable [Toolchain]

/-- `read_json` on the bytes of a regular file. -/
def readJson {α : Type} (decode : Bytes → Except String α) (path : PathBuf) (bytes : Bytes) :
    Except AppError α :=
  if DOCUMENT_LIMIT < bytes.length then .error (oversizedDocument path)
  else
    match decode bytes with
    | .ok document => .ok document
    | .error detail => .error (invalidDocument path detail)

/-- `Store::read_state` of a run whose `state.json` holds `bytes`. -/
def readStateDocument (decode : Bytes → Except String RunState) (path : PathBuf) (runId : String)
    (bytes : Bytes) : Except AppError RunState := do
  let state ← readJson decode path bytes
  checkState runId state

/-- `parse_run_state_document`. -/
def parseRunStateDocument (decode : Bytes → Except String RunState) (bytes : Bytes) :
    Except AppError RunState := do
  if DOCUMENT_LIMIT < bytes.length then
    throw (.integrity ("run state document exceeds " ++ toString DOCUMENT_LIMIT ++ " bytes"))
  match decode bytes with
  | .error detail => throw (.integrity ("invalid run state JSON: " ++ detail))
  | .ok state =>
    validatePersistedRunState state
    return state

/-- Both readers give back the state. -/
structure Readback (decode : Bytes → Except String RunState) (path : PathBuf) (runId : String)
    (bytes : Bytes) (state : RunState) : Prop where
  readState : readStateDocument decode path runId bytes = .ok state
  parse : parseRunStateDocument decode bytes = .ok state

/-- The escaped strings, the numbers and the indentation of the state fit into the
    limit, with the newline at the end. -/
def RunState.Fits (state : RunState) : Prop :=
  ∀ document, state.toJson = some document → document.size 0 + 1 ≤ DOCUMENT_LIMIT

variable {decode : Bytes → Except String RunState} {path : PathBuf} {runId : String}
  {bytes : Bytes} {state : RunState}

omit [Toolchain] in
theorem length_document (document : Json) :
    (Json.utf8 (document.pretty 0) ++ [10]).length = document.size 0 + 1 := by
  rw [List.length_append, Json.length_utf8_pretty]
  rfl

omit [Toolchain] in
theorem RunState.fits_iff (h : state.encode = some bytes) :
    state.Fits ↔ bytes.length ≤ DOCUMENT_LIMIT := by
  obtain ⟨document, hdocument, rfl⟩ := Option.map_eq_some_iff.mp h
  rw [length_document]
  constructor
  · exact fun hfits => hfits document hdocument
  · intro hle other hother
    rwa [← Option.some.inj (hdocument.symm.trans hother)]

/-- What `read_json` accepts is what fits. -/
theorem RunState.readable_iff [LawfulStateFormat] (h : state.encode = some bytes) :
    state.Readable ↔ state.Fits := by
  rw [RunState.fits_iff h, RunState.Readable, LawfulStateFormat.stateLength_eq state bytes h]

theorem RunState.readable_of_size [LawfulStateFormat]
    (h : state.toJson.any fun document => document.size 0 + 1 ≤ DOCUMENT_LIMIT) :
    state.Readable := by
  obtain ⟨document, hdocument, hsize⟩ := (Option.any_eq_true _ _).mp h
  have hencode : state.encode = some _ := Option.map_eq_some_iff.mpr ⟨document, hdocument, rfl⟩
  rw [RunState.Readable, LawfulStateFormat.stateLength_eq state _ hencode, length_document]
  exact of_decide_eq_true hsize

theorem SupervisorSpec.length_of_size [LawfulStateFormat] {spec : SupervisorSpec}
    (h : spec.toJson.any fun document => document.size 0 + 1 ≤ DOCUMENT_LIMIT) :
    Toolchain.specLength spec ≤ DOCUMENT_LIMIT := by
  obtain ⟨document, hdocument, hsize⟩ := (Option.any_eq_true _ _).mp h
  have hencode : spec.encode = some _ := Option.map_eq_some_iff.mpr ⟨document, hdocument, rfl⟩
  rw [LawfulStateFormat.specLength_eq spec _ hencode, length_document]
  exact of_decide_eq_true hsize

theorem readJson_of_le {α : Type} {decode : Bytes → Except String α} {document : α}
    (hlength : bytes.length ≤ DOCUMENT_LIMIT) (hdecode : decode bytes = .ok document) :
    readJson decode path bytes = .ok document := by
  rw [readJson, if_neg (Nat.not_lt.mpr hlength), hdecode]

theorem readJson_of_lt {α : Type} (decode : Bytes → Except String α) (path : PathBuf)
    (hlength : DOCUMENT_LIMIT < bytes.length) : ∃ e, readJson decode path bytes = .error e := by
  rw [readJson, if_pos hlength]
  exact ⟨_, rfl⟩

/-- What was written is read back if and only if it is within the limit. -/
theorem readback_iff (hdecode : decode bytes = .ok state)
    (hcheck : checkState runId state = .ok state) :
    Readback decode path runId bytes state ↔ bytes.length ≤ DOCUMENT_LIMIT := by
  constructor
  · intro h
    by_contra hlength
    obtain ⟨e, hread⟩ := readJson_of_lt decode path (Nat.lt_of_not_le hlength)
    have hstate := h.readState
    rw [readStateDocument, hread] at hstate
    cases hstate
  · intro hlength
    constructor
    · rw [readStateDocument, readJson_of_le hlength hdecode]
      exact hcheck
    · have hvalid : validatePersistedRunState state = .ok () := by
        cases hvalid : validatePersistedRunState state with
        | ok u => rfl
        | error e =>
          rw [checkState, hvalid] at hcheck
          cases hcheck
      simp only [parseRunStateDocument, if_neg (Nat.not_lt.mpr hlength), hdecode, hvalid, bind,
        Except.bind, pure, Except.pure]

end Read

/-! ## The arguments in a document -/

theorem CommandSpec.le_size {command : CommandSpec} {document : Json} {depth : Nat}
    (h : command.toJson = some document) :
    (command.args.map fun arg => Json.quotedSize arg.toList).sum ≤ document.size depth := by
  obtain ⟨workingDirectory, -, hdocument⟩ := Option.bind_eq_some_iff.mp h
  obtain rfl := Option.some.inj hdocument
  have hargs : ("args", Json.arr (command.args.map .str)) ∈
      [("program", Json.str command.program), ("args", .arr (command.args.map .str)),
        ("working_directory", workingDirectory), ("environment", command.environment.toJson)] :=
    List.mem_cons_of_mem _ List.mem_cons_self
  refine Nat.le_trans ?_ (Json.size_le_of_field hargs)
  refine Nat.le_trans (Nat.le_of_eq ?_) (Json.size_le_of_items _)
  rw [List.map_map]
  refine congrArg List.sum (List.map_congr_left fun arg _ => ?_)
  rw [Function.comp_apply, Json.size]

/-- A document has at least the size of its arguments. -/
theorem RunState.le_size_of_args {state : RunState} {document : Json}
    (h : state.toJson = some document) :
    (state.command.args.map fun arg => Json.quotedSize arg.toList).sum ≤ document.size 0 := by
  obtain ⟨command, hcommand, h⟩ := Option.bind_eq_some_iff.mp h
  obtain ⟨readiness, -, h⟩ := Option.bind_eq_some_iff.mp h
  obtain ⟨leases, -, h⟩ := Option.bind_eq_some_iff.mp h
  obtain rfl := Option.some.inj h
  refine Nat.le_trans (CommandSpec.le_size hcommand)
    (@Json.size_le_of_field 0 "command" command _ ?_)
  simp only [List.mem_cons, true_or, or_true]

/-! ## Runs -/

/-- Whatever state a run writes can be read back if and only if its text is within
    the limit of the readers. -/
theorem state_readback [Toolchain] (setup : Setup) (decode : Bytes → Except String RunState)
    (path : PathBuf) {cfg : system.Config} (h : Machine.Reach system.always setup.initial cfg)
    (hdecode : ∀ state ∈ cfg.world.history, ∀ bytes, state.encode = some bytes →
      decode bytes = .ok state) :
    ∀ state ∈ cfg.world.history, ∀ bytes, state.encode = some bytes →
      (Readback decode path setup.options.runId bytes state ↔ state.Fits) := by
  intro state hstate bytes hbytes
  have hreadable := reach_readable h
  have hfounded := hreadable.founded (List.ne_nil_of_mem hstate)
  rw [state.fits_iff hbytes]
  exact readback_iff (hdecode state hstate bytes hbytes)
    (checkState_of_documents hfounded.runId (hreadable.documents state hstate))

end Procherd

namespace Procherd.Reference

open Interaction

/-- The first state of the reference run. -/
def firstState : RunState :=
  options.initialState { portNames := [], tempDirectoryNames := [] } 0

/-- A decoder that knows one document. -/
def decodeFirst (bytes : Bytes) : Except String RunState :=
  if firstState.encode = some bytes then .ok firstState else .error "unexpected document"

theorem encode_firstState : (firstState.encode.map List.length) = some 1302 := by decide +kernel

/-- The first state of the reference run is read back. -/
theorem state_readback_created : ∃ (cfg : system.Config) (bytes : Bytes),
    cfg.world.history = [firstState] ∧ firstState.encode = some bytes ∧
      Readback decodeFirst (.ofString "/state.json") options.runId bytes firstState := by
  have hrun : (Machine.run (setup idle).initial (steps .start 5 {})).map
      (fun cfg => cfg.world.history) = some [firstState] := by decide +kernel
  obtain ⟨cfg, hcfg, hhistory⟩ := Option.map_eq_some_iff.mp hrun
  obtain ⟨bytes, hbytes, hlength⟩ := Option.map_eq_some_iff.mp encode_firstState
  have hmem : firstState ∈ cfg.world.history := hhistory ▸ List.mem_cons_self
  refine ⟨cfg, bytes, hhistory, hbytes, ?_⟩
  refine (state_readback (setup idle) decodeFirst (.ofString "/state.json") (.of_run hcfg) ?_
    firstState hmem bytes hbytes).mpr ((RunState.fits_iff hbytes).mpr ?_)
  · intro state hstate bytes hbytes
    rw [hhistory] at hstate
    rw [List.mem_singleton.mp hstate] at hbytes ⊢
    rw [decodeFirst, if_pos hbytes]
  · rw [hlength]
    decide

/-! ### A large command line -/

/-- Eight arguments of 100000 control characters each. -/
def controlArgs : List String :=
  List.replicate 8 (String.ofList (List.replicate 100000 (Char.ofNat 1)))

def bulkyOptions : StartOptions := { options with args := controlArgs }

def bulky : Setup := { setup idle with options := bulkyOptions }

theorem size_controlArgs :
    (controlArgs.map fun arg => Json.quotedSize arg.toList).sum = 8 * 600002 := by
  have hsize : Json.escapedSize (Char.ofNat 1) = 6 := by decide
  rw [controlArgs, List.map_replicate, List.sum_replicate, String.toList_ofList, Json.quotedSize,
    List.map_replicate, List.sum_replicate, hsize]
  rfl

/-- The state of a run with such arguments is written but cannot be read. -/
theorem state_readback_bulky : ∃ (cfg : system.Config) (state : RunState) (bytes : Bytes),
    Machine.Reach system.always bulky.initial cfg ∧ cfg.world.history = [state] ∧
      state.encode = some bytes ∧ ∀ (decode : Bytes → Except String RunState) (path : PathBuf),
        ∃ e, readStateDocument decode path options.runId bytes = .error e := by
  have hrun : (Machine.run bulky.initial (steps .start 8 {})).map
      (fun cfg => cfg.world.phase) = some .launched := by decide +kernel
  obtain ⟨cfg, hcfg, hphase⟩ := Option.map_eq_some_iff.mp hrun
  have hreach : Machine.Reach system.always bulky.initial cfg := .of_run hcfg
  have hlaunched : Launched bulkyOptions cfg.world :=
    Machine.Reach.invariant (M := system) (J := Launched bulkyOptions)
      (fun _ _ _ _ _ _ _ hok hexec => Launched.step hok.2.1 hexec) (reach_launched hreach)
      ⟨⟨fun h => (by cases h), fun h => (by cases h)⟩, fun h => (by cases h)⟩
  obtain ⟨requests, createdAtMs, hcheck, -, -, hhistory, -⟩ := (hlaunched.created hphase).documents
  obtain rfl := validateRequests_eq (check_requests hcheck)
  have hpath : bulkyOptions.workingDirectory.toJson = some (.str "/work") := by
    rw [OsString.toJson, show bulkyOptions.workingDirectory.toStr = some "/work" by decide +kernel]
    rfl
  obtain ⟨command, hcommand⟩ : ∃ command, bulkyOptions.command.toJson = some command := by
    refine Option.isSome_iff_exists.mp ?_
    rw [CommandSpec.toJson,
      show bulkyOptions.command.workingDirectory.toJson = some (.str "/work") from hpath]
    rfl
  obtain ⟨document, hdocument⟩ : ∃ document,
      (bulkyOptions.initialState ⟨[], []⟩ createdAtMs).toJson = some document := by
    refine Option.isSome_iff_exists.mp ?_
    rw [RunState.toJson, show (bulkyOptions.initialState ⟨[], []⟩ createdAtMs).command.toJson =
      some command from hcommand]
    rfl
  have hsize : DOCUMENT_LIMIT < (Json.utf8 (document.pretty 0) ++ [10]).length := by
    have hargs := RunState.le_size_of_args hdocument
    rw [show (bulkyOptions.initialState ⟨[], []⟩ createdAtMs).command.args = controlArgs from rfl,
      size_controlArgs] at hargs
    rw [List.length_append, Json.length_utf8_pretty]
    exact Nat.lt_of_lt_of_le (by decide) (Nat.le_add_right_of_le hargs)
  refine ⟨cfg, _, _, hreach, hhistory, Option.map_eq_some_iff.mpr ⟨document, hdocument, rfl⟩, ?_⟩
  intro decode path
  obtain ⟨e, hread⟩ := readJson_of_lt decode path hsize
  exact ⟨e, by rw [readStateDocument, hread]; rfl⟩

end Procherd.Reference
