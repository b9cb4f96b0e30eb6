-- SUMMARY: The documents of a run directory (`store.rs`): reading and validating `state.json`, and the stop request.
import Procherd.Leases
import Procherd.Format.Json

/-!
# Store

What `store.rs` does with a document once the system calls have succeeded. The
states of a run are documents as they are; the stop request is bytes, because
anything may have been placed at its path.
-/

namespace Procherd

def DOCUMENT_LIMIT : Nat := 4 * 1024 * 1024

/-- The integrity error of `read_json` on a document that does not parse. -/
def invalidDocument [Toolchain] (path : PathBuf) (detail : String) : AppError :=
  .integrity ("invalid JSON document " ++ Toolchain.displayPath path ++ ": " ++ detail)

/-- The integrity error of `read_json` on a document that is too large to parse. -/
def oversizedDocument [Toolchain] (path : PathBuf) : AppError :=
  .integrity ("document exceeds " ++ toString DOCUMENT_LIMIT ++ " bytes: " ++
    Toolchain.displayPath path)

section ReadSized

variable [Toolchain] {α : Type} {path : PathBuf} {length : Nat} {document : α} {e : AppError}

/-- `read_json` on the text of a document. -/
def readSized (path : PathBuf) (length : Nat) (document : α) : Except AppError α :=
  if DOCUMENT_LIMIT < length then .error (oversizedDocument path) else .ok document

theorem readSized_of_le (h : length ≤ DOCUMENT_LIMIT) :
    readSized path length document = .ok document :=
  if_neg (Nat.not_lt.mpr h)

theorem readSized_of_lt (h : DOCUMENT_LIMIT < length) :
    readSized path length document = .error (oversizedDocument path) :=
  if_pos h

theorem readSized_ok {found : α} (h : readSized path length document = .ok found) :
    found = document ∧ length ≤ DOCUMENT_LIMIT := by
  rcases Nat.lt_or_ge DOCUMENT_LIMIT length with hlt | hle
  · rw [readSized_of_lt hlt] at h
    cases h
  · rw [readSized_of_le hle] at h
    cases h
    exact ⟨rfl, hle⟩

theorem readSized_error (h : readSized path length document = .error e) :
    e = oversizedDocument path ∧ DOCUMENT_LIMIT < length := by
  rcases Nat.lt_or_ge DOCUMENT_LIMIT length with hlt | hle
  · rw [readSized_of_lt hlt] at h
    cases h
    exact ⟨rfl, hlt⟩
  · rw [readSized_of_le hle] at h
    cases h

end ReadSized

/-! ## state.json -/

/-- `state.json`: it is created empty, then written, and from then on replaced
    as a whole. -/
inductive StateFile where
  | absent
  | incomplete
  | document (state : RunState)
deriving DecidableEq

def StateFile.state? : StateFile → Option RunState
  | .document state => some state
  | _ => none

/-- The document of the state is one that `read_json` parses. -/
def RunState.Readable [Toolchain] (state : RunState) : Prop :=
  Toolchain.stateLength state ≤ DOCUMENT_LIMIT

instance [Toolchain] (state : RunState) : Decidable state.Readable :=
  inferInstanceAs (Decidable (Toolchain.stateLength state ≤ DOCUMENT_LIMIT))

namespace StateFile

variable [Toolchain] {path : PathBuf} {file : StateFile} {state : RunState} {e : AppError}

/-- `read_json` at `state.json`. -/
def read (path : PathBuf) : StateFile → Except AppError RunState
  | .absent => .error (.ofIo .missing)
  | .incomplete => .error (invalidDocument path "EOF while parsing a value")
  | .document state => readSized path (Toolchain.stateLength state) state

theorem read_document (h : state.Readable) : (StateFile.document state).read path = .ok state :=
  readSized_of_le h

theorem read_oversized (h : ¬ state.Readable) :
    (StateFile.document state).read path = .error (oversizedDocument path) :=
  readSized_of_lt (Nat.lt_of_not_le h)

theorem read_ok (h : file.read path = .ok state) : file.state? = some state := by
  cases file with
  | document found => exact congrArg some (readSized_ok h).1.symm
  | absent => exact nomatch h
  | incomplete => exact nomatch h

theorem read_error (h : file.read path = .error e) : e.kind = "io" ∨ e.kind = "integrity" := by
  cases file with
  | document found => exact .inr (congrArg AppError.kind (readSized_error h).1)
  | absent => exact .inl (congrArg AppError.kind (Except.error.inj h)).symm
  | incomplete => exact .inr (congrArg AppError.kind (Except.error.inj h)).symm

/-- A document that is there is refused for its length only. -/
theorem read_document_error (h : (StateFile.document state).read path = .error e) :
    e = oversizedDocument path ∧ ¬ state.Readable :=
  (readSized_error h).imp_right Nat.not_le.mpr

end StateFile

def validatePersistedRunState [Toolchain] (state : RunState) : Except AppError Unit := do
  if state.schemaVersion ≠ RUN_SCHEMA_VERSION then
    throw (.integrity ("unsupported run state schema " ++ state.schemaVersion))
  match canonicalRunId state.runId with
  | .error _ => throw (.integrity "run state contains an invalid run ID")
  | .ok _ =>
    match validateRequests (state.leases.ports.map (·.name))
        (state.leases.tempDirectories.map (·.name)) with
    | .error e => throw (.integrity ("run state contains invalid leases: " ++ e.message))
    | .ok _ => return ()

/-- What `Store::read_state` does with the document it read. -/
def checkState [Toolchain] (runId : String) (state : RunState) : Except AppError RunState := do
  validatePersistedRunState state
  if state.runId ≠ runId then
    throw (.integrity ("state run ID " ++ state.runId ++ " does not match directory " ++ runId))
  return state

theorem validatePersistedRunState_error [Toolchain] {state : RunState} {e : AppError}
    (h : validatePersistedRunState state = .error e) : e.kind = "integrity" := by
  simp only [validatePersistedRunState, bind, Except.bind, throw, throwThe, MonadExceptOf.throw,
    pure, Except.pure] at h
  repeat' split at h
  all_goals cases h
  all_goals rfl

theorem checkState_error [Toolchain] {runId : String} {state : RunState} {e : AppError}
    (h : checkState runId state = .error e) : e.kind = "integrity" := by
  unfold checkState at h
  cases hv : validatePersistedRunState state with
  | error e' =>
    rw [hv] at h
    cases h
    exact validatePersistedRunState_error hv
  | ok u =>
    rw [hv] at h
    simp only [bind, Except.bind] at h
    split at h
    · cases h; rfl
    · cases h

theorem checkState_eq [Toolchain] {runId : String} {state state' : RunState}
    (h : checkState runId state = .ok state') : state' = state := by
  unfold checkState at h
  cases hv : validatePersistedRunState state with
  | error e => rw [hv] at h; cases h
  | ok u =>
    rw [hv] at h
    simp only [bind, Except.bind] at h
    split at h
    · cases h
    · cases h; rfl

/-! ## stop.request.json -/

def StopRequest.toJson (request : StopRequest) : Json :=
  .obj [("schema_version", .str request.schemaVersion),
    ("run_id", .str request.runId),
    ("owner_token", .str request.ownerToken),
    ("requested_at_ms", .num request.requestedAtMs),
    ("grace_ms", .num request.graceMs)]

/-- The bytes that `atomic_write_json` commits. -/
def StopRequest.encode (request : StopRequest) : Bytes :=
  Json.utf8 (request.toJson.pretty 0) ++ [10]

/-- `read_json` at `stop.request.json`, on the bytes it opened. -/
def parseStopRequest [Toolchain] (path : PathBuf) (bytes : Bytes) : Except AppError StopRequest :=
  if DOCUMENT_LIMIT < bytes.length then .error (oversizedDocument path)
  else
    match Toolchain.decodeStopRequest bytes with
    | .ok request => .ok request
    | .error detail => .error (invalidDocument path detail)

/-- `serde_json` reads back the stop requests that it wrote. -/
class LawfulStopFormat [Toolchain] : Prop where
  decode_encode : ∀ request : StopRequest,
    request.requestedAtMs ≤ u64Max → request.graceMs ≤ u64Max →
    Toolchain.decodeStopRequest request.encode = .ok request

def STOP_REQUEST_SCHEMA : String := "procherd.stop-request.v1"

/-- What `read_stop_request` checks of a request. -/
def authentic (spec : SupervisorSpec) (request : StopRequest) : Bool :=
  request.schemaVersion = STOP_REQUEST_SCHEMA ∧ request.runId = spec.runId ∧
    request.ownerToken = spec.ownerToken

def validateStopRequest (spec : SupervisorSpec) (request : StopRequest) : Except AppError Unit :=
  if authentic spec request then .ok ()
  else .error (.integrity "stop request failed run identity or owner-token validation")

/-! ## owner.token -/

def isAsciiHexdigit (byte : UInt8) : Bool :=
  (48 ≤ byte && byte ≤ 57) || (97 ≤ byte && byte ≤ 102) || (65 ≤ byte && byte ≤ 70)

/-- What `read_owner_token` checks of the trimmed text. -/
def validOwnerToken (token : String) : Bool :=
  let bytes := (OsString.ofString token).bytes
  decide (bytes.length = 64) && bytes.all isAsciiHexdigit

end Procherd
