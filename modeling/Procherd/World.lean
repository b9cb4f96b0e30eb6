-- SUMMARY: The world of one run: its directory, its lock, its pipes and channel, and the commands of the threads that share it.
import Procherd.Interaction.Machine
import Procherd.Logs
import Procherd.Store
import Procherd.Readiness

/-!
# World

Everything about one run that its threads share. The threads are the `start`
command, the supervisor, the two reader threads of the supervisor, and any
number of other clients. A command is one system call, or a group of calls of
which only one touches something shared.

Next to what the system keeps, the world records what happened: the successive
contents of `state.json`, the bytes and chunks that moved, the signals. The
program never reads these records.
-/

namespace Procherd

open Interaction

inductive Thread where
  | start
  | supervisor
  | reader (stream : LogStream)
  | client (index : Nat)
deriving DecidableEq

/-! ## The shared state -/

/-- Where the supervisor process is: `active` is the time during which it holds
    `supervisor.lock`. -/
inductive Phase where
  | unlaunched
  | launchFailed
  | launched
  | active
  | released
deriving DecidableEq

/-- No supervisor has acquired its lock yet, and one still may. -/
def Phase.early : Phase → Bool
  | .unlaunched | .launched => true
  | _ => false

inductive ReaderStatus where
  | idle
  | reading
  | finished
deriving DecidableEq

inductive Signal where
  | terminate
  | kill
deriving DecidableEq

structure ExitStatus where
  code : Option Int
  signal : Option Int
deriving DecidableEq

structure World where
  runDir : PathBuf
  runId : String
  dir : Bool := false
  lockFile : Bool := false
  stateJson : StateFile := .absent
  specJson : Option SupervisorSpec := none
  ownerToken : Option String := none
  stopRequest : Option Bytes := none
  logsNdjson : Option Bytes := none
  /-- `port-leases.json` of the state root. -/
  registry : Option PortRegistry := none
  /-- The thread that holds `supervisor.lock`. -/
  lock : Option Thread := none
  phase : Phase := .unlaunched
  /-- What the process tree writes to a pipe and has not been read. -/
  pipe : LogStream → Bytes
  reader : LogStream → ReaderStatus := fun _ => .idle
  /-- The supervisor's own sender is not dropped. -/
  mainSender : Bool := false
  /-- The receiver is not dropped. -/
  receiver : Bool := false
  queue : List LogChunk := []
  /-- The contents `state.json` has had, the newest first. -/
  history : List RunState := []
  /-- The bytes a reader thread has read. -/
  taken : LogStream → Bytes := fun _ => []
  sent : List LogChunk := []
  received : List LogChunk := []
  /-- The supervisor saw that the channel is disconnected. -/
  closed : Bool := false
  /-- Some read of a pipe failed for good. -/
  readFailed : LogStream → Bool := fun _ => false
  /-- The calls that signal the tree, the last one first. -/
  signals : List Signal := []
  /-- Those of them that succeeded or found the tree gone. -/
  delivered : List Signal := []
  /-- The stop requests that were committed. -/
  requests : List StopRequest := []
  /-- The current poll of `stop.request.json` found no file. -/
  pollMissed : Bool := false
  /-- The phase at a thread's last test of the lock. -/
  tested : Thread → Option Phase := fun _ => none
  /-- A thread has found the lock free since it last read `state.json`. -/
  foundFree : Thread → Bool := fun _ => false

namespace World

def statePath (w : World) : PathBuf := w.runDir.join "state.json"
def specPath (w : World) : PathBuf := w.runDir.join "spec.json"

/-- The document in `state.json`. -/
def state? (w : World) : Option RunState := w.stateJson.state?

/-- Replace `state.json` as a whole. -/
def setState (w : World) (state : RunState) : World :=
  { w with stateJson := .document state, history := state :: w.history }

/-- Signal the tree, where `failure` is what the call reports. -/
def send (w : World) (signal : Signal) (failure : Option IoError) : World :=
  { w with
    signals := signal :: w.signals
    delivered := if failure.all isProcessGone then signal :: w.delivered else w.delivered }

/-- Every sender of the channel is dropped. -/
def sendersDropped (w : World) : Bool :=
  !w.mainSender && w.reader .stdout != .reading && w.reader .stderr != .reading

end World

/-! ## Answers -/

/-- A failure that the outside world causes: of a system call, or of reading a
    document. -/
inductive Fault where
  | io (error : IoError)
  | document (message : String)

def Fault.error : Fault → AppError
  | .io error => .ofIo error
  | .document message => .integrity message

/-- What the outside world decides about one step. -/
structure Answer where
  /-- The step fails. -/
  fault : Option Fault := none
  /-- The system call fails, where the caller looks at the error. -/
  io : Option IoError := none
  /-- A launch that fails found its executable. -/
  located : Bool := true
  /-- A failed replacement of a file took effect nevertheless. -/
  took : Bool := false
  /-- How many bytes a read or a write moves. -/
  count : Nat := 0
  /-- How much of an interrupted line stays in the write buffer. -/
  kept : Nat := 0
  time : Nat := 0
  clock : Nat → Nat := fun _ => 0
  pid : Nat := 0
  exit : Option ExitStatus := none
  polled : PollInputs := {}
  offers : PortOffers := {}
  /-- Which run's supervisor lock the `i`-th test reports held. -/
  active : Nat → String → Bool := fun _ _ => false

/-- A reading of `now_ms`. -/
def Answer.now (a : Answer) : Nat := min a.time u64Max

/-- A step that fails where the answer says so. -/
def fallible {α : Type} (a : Answer) (w : World) (success : Option (Except AppError α × World)) :
    Option (Except AppError α × World) :=
  match a.fault with
  | some fault => some (.error fault.error, w)
  | none => success

/-- The replacement of a file, which may take effect and report a failure. -/
def committed {α : Type} (a : Answer) (w : World) (success : α × World) :
    Option (Except AppError α × World) :=
  match a.fault with
  | some fault => some (.error fault.error, if a.took then success.2 else w)
  | none => some (.ok success.1, success.2)

/-- A system call that fails where the answer says so. -/
def fallibleIo {α : Type} (a : Answer) (w : World) (success : Option (Except IoError α × World)) :
    Option (Except IoError α × World) :=
  match a.io with
  | some e => some (.error e, w)
  | none => success

/-! ## Commands of the creation of a run -/

inductive CreateCmd : Type → Type where
  | now : CreateCmd Nat
  /-- `create_new_private_dir`, which refuses an existing directory. -/
  | createDir : CreateCmd (Except AppError Unit)
  | createLockFile : CreateCmd (Except AppError Unit)
  | createState : CreateCmd (Except AppError Unit)
  | writeNewState (state : RunState) : CreateCmd (Except AppError Unit)
  | writeNewSpec (spec : SupervisorSpec) : CreateCmd (Except AppError Unit)
  | writeNewToken (token : String) : CreateCmd (Except AppError Unit)
  | launch : CreateCmd (Except AppError Unit)
  /-- `atomic_write_json` of the state after a failed launch. -/
  | replaceState (state : RunState) : CreateCmd (Except AppError Unit)

/-- The error of `supervisor::launch`. -/
def launchError (located : Bool) (fault : Fault) : AppError :=
  .operational "supervisor_launch"
    ((if located then "cannot start detached supervisor: " else "cannot locate executable: ") ++
      fault.error.message)

def execCreate : {β : Type} → CreateCmd β → Answer → World → Option (β × World)
  | _, .now, a, w => some (a.now, w)
  | _, .createDir, a, w =>
    fallible a w <| some
      (if w.dir then (.error (.ofIo .existing), w) else (.ok (), { w with dir := true }))
  | _, .createLockFile, a, w => fallible a w (some (.ok (), { w with lockFile := true }))
  | _, .createState, a, w => fallible a w (some (.ok (), { w with stateJson := .incomplete }))
  | _, .writeNewState state, a, w => committed a w ((), w.setState state)
  | _, .writeNewSpec spec, a, w => fallible a w (some (.ok (), { w with specJson := some spec }))
  | _, .writeNewToken token, a, w =>
    fallible a w (some (.ok (), { w with ownerToken := some token }))
  | _, .launch, a, w =>
    -- One run has one supervisor: there is no second launch.
    if w.phase ≠ .unlaunched then none
    else
      match a.fault with
      | some fault =>
        some (.error (launchError a.located fault), { w with phase := .launchFailed })
      | none => some (.ok (), { w with phase := .launched })
  | _, .replaceState state, a, w => committed a w ((), w.setState state)

/-! ## Commands of clients -/

inductive ClientCmd : Type → Type where
  | now : ClientCmd Nat
  | instant : ClientCmd Nat
  /-- `Store::read_state`. -/
  | readState : ClientCmd (Except AppError RunState)
  /-- `FileExt::try_lock` of `supervisor.lock`; `true` if it was free. -/
  | tryLock : ClientCmd (Except AppError Bool)
  | unlock : ClientCmd (Except AppError Unit)
  | readOwnerToken : ClientCmd (Except AppError String)
  /-- `Store::write_stop_request`. -/
  | writeStopRequest (request : StopRequest) : ClientCmd (Except AppError Unit)
  /-- Block until `logs.ndjson` exists. -/
  | awaitLogs : ClientCmd Unit
  /-- Open `logs.ndjson` and read it to its end. -/
  | readLogs : ClientCmd (Except IoError (Except AppError Bytes))
  /-- A registry transaction of another run. -/
  | updateRegistry (update : PortRegistry → PortRegistry) : ClientCmd Unit

def missingRun (w : World) : AppError := .notFound ("run not found: " ++ w.runId)

def execClient [Toolchain] (t : Thread) :
    {β : Type} → ClientCmd β → Answer → World → Option (β × World)
  | _, .now, a, w => some (a.now, w)
  | _, .instant, a, w => some (a.time, w)
  | _, .readState, a, w =>
    fallible a w <| some
      (if w.dir then (w.stateJson.read w.statePath).bind (checkState w.runId)
        else .error (missingRun w),
        { w with foundFree := Function.update w.foundFree t false })
  | _, .tryLock, a, w =>
    fallible a w <|
      if !w.dir then some (.error (missingRun w), w)
      else if !w.lockFile then some (.error (.ofIo .missing), w)
      else
        let tested := Function.update w.tested t (some w.phase)
        match w.lock with
        | some _ => some (.ok false, { w with tested })
        | none => some (.ok true, { w with
            tested, lock := some t, foundFree := Function.update w.foundFree t true })
  | _, .unlock, a, w =>
    -- The lock goes with the file handle, also where `unlock` reports an error.
    let w' := if w.lock = some t then { w with lock := none } else w
    fallible a w' (some (.ok (), w'))
  | _, .readOwnerToken, a, w =>
    fallible a w <| some
      (match w.ownerToken with
        | none => .error (.ofIo .missing)
        | some token =>
          if validOwnerToken token then .ok token
          else .error (.integrity "owner token is malformed"), w)
  | _, .writeStopRequest request, a, w =>
    if w.dir then
      committed a w ((), { w with
        stopRequest := some request.encode, requests := request :: w.requests })
    else fallible a w (some (.error (missingRun w), w))
  | _, .awaitLogs, _, w => if w.logsNdjson.isSome then some ((), w) else none
  | _, .readLogs, a, w =>
    fallibleIo a w <| some
      (match w.logsNdjson with
        | none => .error .missing
        | some bytes =>
          .ok (match a.fault with | some fault => .error fault.error | none => .ok bytes), w)
  | _, .updateRegistry update, _, w =>
    some ((), { w with registry := some (update (w.registry.getD .empty)) })

/-! ## Commands of the reader threads -/

inductive ReadResult where
  | eof
  | bytes (bytes : Bytes)
  | interrupted
  | failed
deriving DecidableEq

inductive ReaderCmd : Type → Type where
  /-- `Read::read` into a buffer of `READ_CHUNK_BYTES` bytes. -/
  | read : ReaderCmd ReadResult
  /-- `SyncSender::send`; `false` if the receiver is dropped. -/
  | send (chunk : LogChunk) : ReaderCmd Bool
  | dropSender : ReaderCmd Unit

/-- How many bytes of `available` a read moves. -/
def readCount (a : Answer) (available : Nat) : Nat :=
  max 1 (min a.count (min available READ_CHUNK_BYTES))

/-- A thread that has not been started or has ended executes nothing. -/
def execReader (stream : LogStream) {β : Type} (c : ReaderCmd β) (a : Answer) (w : World) :
    Option (β × World) :=
  if w.reader stream ≠ .reading then none
  else
    match c with
    | .read =>
      match a.io with
      | some e =>
        if e.kind = .interrupted then some (.interrupted, w)
        else some (.failed, { w with readFailed := Function.update w.readFailed stream true })
      | none =>
        if w.pipe stream = [] then some (.eof, w)
        else
          let n := readCount a (w.pipe stream).length
          let bytes := (w.pipe stream).take n
          some (.bytes bytes, { w with
            pipe := Function.update w.pipe stream ((w.pipe stream).drop n)
            taken := Function.update w.taken stream (w.taken stream ++ bytes) })
    | .send chunk =>
      if !w.receiver then some (false, w)
      else if w.queue.length < LOG_CHANNEL_CAPACITY then
        some (true, { w with queue := w.queue ++ [chunk], sent := w.sent ++ [chunk] })
      else none
    | .dropSender => some ((), { w with reader := Function.update w.reader stream .finished })

/-! ## Commands of the supervisor -/

inductive LockCmd : Type → Type where
  /-- `open_supervisor_lock`. -/
  | acquire : LockCmd (Except AppError Unit)
  | release : LockCmd Unit

def execLock : {β : Type} → LockCmd β → Answer → World → Option (β × World)
  | _, .acquire, a, w =>
    if w.phase ≠ .launched then none
    else
      match a.fault with
      | some fault => some (.error fault.error, w)
      | none =>
        if w.lock = none then
          some (.ok (), { w with lock := some .supervisor, phase := .active })
        else none
  | _, .release, _, w =>
    if w.phase = .active then some ((), { w with lock := none, phase := .released })
    else some ((), w)

inductive AppendResult where
  | wrote (count : Nat)
  | failed (error : AppError) (kept : Nat)

inductive Received where
  | chunk (chunk : LogChunk)
  | empty
  | disconnected
deriving DecidableEq

inductive BodyCmd : Type → Type where
  | now : BodyCmd Nat
  | clock : BodyCmd (Nat → Nat)
  | instant : BodyCmd Nat
  | sleep (interval : Nat) : BodyCmd Unit
  | readSpec : BodyCmd (Except AppError SupervisorSpec)
  | readState : BodyCmd (Except AppError RunState)
  | removeSpec : BodyCmd (Except AppError Unit)
  | supervisorPid : BodyCmd Nat
  | persistState (state : RunState) : BodyCmd (Except AppError Unit)
  | createTempDirectories (names : List String) : BodyCmd (Except AppError (BTreeMap PathBuf))
  | reservePorts (runId : String) (names : List String) :
      BodyCmd (Except AppError (List ReservedPort))
  | releaseRegistry (runId : String) : BodyCmd (Except AppError Unit)
  | spawn (command : CommandSpec) (environment : List (String × OsString)) :
      BodyCmd (Except IoError Nat)
  | openChannel : BodyCmd Unit
  | captureStream (stream : LogStream) : BodyCmd Unit
  | dropSender : BodyCmd Unit
  | createLog : BodyCmd (Except AppError Unit)
  /-- One write of the current line to `logs.ndjson`. -/
  | appendLog (bytes : Bytes) : BodyCmd AppendResult
  | syncLog : BodyCmd (Except AppError Unit)
  /-- Drop the log writer, which writes what is left in its buffer. -/
  | dropLog (buffer : Bytes) : BodyCmd Unit
  | tryRecv : BodyCmd Received
  | recvTimeout (timeout : Nat) : BodyCmd Received
  | dropReceiver : BodyCmd Unit
  | pollReadiness : BodyCmd PollInputs
  | signal (number : Nat) : BodyCmd (Except IoError Unit)
  | startKill : BodyCmd (Except IoError Unit)
  | tryWait : BodyCmd (Except IoError (Option ExitStatus))
  /-- The poll of `stop.request.json`: `ensure_regular_file`. -/
  | inspectStop : BodyCmd (Except AppError Unit)
  /-- `File::open`; what the open file holds is what was there at this time. -/
  | openStop : BodyCmd (Except AppError Bytes)
  | readStop (file : Bytes) : BodyCmd (Except AppError Bytes)
  /-- `Path::exists`. -/
  | stopExists : BodyCmd Bool
  | removeStop : BodyCmd (Except AppError Unit)

/-- The operations on `stop.request.json`. -/
def BodyCmd.stopFile {β : Type} : BodyCmd β → Bool
  | .inspectStop | .openStop | .readStop _ | .stopExists | .removeStop => true
  | _ => false

def BodyCmd.writesState {β : Type} : BodyCmd β → Bool
  | .persistState _ => true
  | _ => false

/-- The directory of the temporary-directory leases. -/
def tempRoot (runDir : PathBuf) : PathBuf := (runDir.join "resources").join "temp"

def tempPaths (runDir : PathBuf) (names : List String) : BTreeMap PathBuf :=
  .ofList (names.map fun name => (name, (tempRoot runDir).join name))

/-- What a receiving call finds. -/
def receive (w : World) : Received × World :=
  match w.queue with
  | chunk :: queue =>
    (.chunk chunk, { w with queue, received := w.received ++ [chunk] })
  | [] =>
    if w.sendersDropped then (.disconnected, { w with closed := true }) else (.empty, w)

/-- Append to `logs.ndjson`. -/
def World.append (w : World) (bytes : Bytes) : World :=
  { w with logsNdjson := w.logsNdjson.map (· ++ bytes) }

def execBody [Toolchain] : {β : Type} → BodyCmd β → Answer → World → Option (β × World)
  | _, .now, a, w => some (a.now, w)
  | _, .clock, a, w => some (fun i => min (a.clock i) u64Max, w)
  | _, .instant, a, w => some (a.time, w)
  | _, .sleep _, _, w => some ((), w)
  | _, .readSpec, a, w =>
    fallible a w <| some
      (match w.specJson with
        | none => .error (.ofIo .missing)
        | some spec => readSized w.specPath (Toolchain.specLength spec) spec, w)
  | _, .readState, a, w => fallible a w (some (w.stateJson.read w.statePath, w))
  | _, .removeSpec, a, w => fallible a w (some (.ok (), { w with specJson := none }))
  | _, .supervisorPid, a, w => some (a.pid, w)
  | _, .persistState state, a, w => committed a w ((), w.setState state)
  | _, .createTempDirectories names, a, w => fallible a w (some (.ok (tempPaths w.runDir names), w))
  | _, .reservePorts runId names, a, w =>
    match updateRegistry w.registry (reservePorts a.active a.offers runId names) with
    | .ok (reserved, registry) => committed a w (reserved, { w with registry := some registry })
    | .error e => fallible a w (some (.error e, w))
  | _, .releaseRegistry runId, a, w =>
    match updateRegistry w.registry (releaseEntries runId) with
    | .ok ((), registry) => committed a w ((), { w with registry := some registry })
    | .error e => fallible a w (some (.error e, w))
  | _, .spawn _ _, a, w => fallibleIo a w (some (.ok a.pid, w))
  | _, .openChannel, _, w => some ((), { w with mainSender := true, receiver := true })
  | _, .captureStream stream, _, w =>
    some ((), { w with reader := Function.update w.reader stream .reading })
  | _, .dropSender, _, w => some ((), { w with mainSender := false })
  | _, .createLog, a, w => fallible a w (some (.ok (), { w with logsNdjson := some [] }))
  | _, .appendLog bytes, a, w =>
    match a.fault with
    | some fault => some (.failed fault.error a.kept, w)
    | none =>
      let n := max 1 (min a.count bytes.length)
      some (.wrote n, w.append (bytes.take n))
  | _, .syncLog, a, w => fallible a w (some (.ok (), w))
  | _, .dropLog buffer, a, w => some ((), w.append (buffer.take a.count))
  | _, .tryRecv, _, w => if w.receiver then some (receive w) else none
  | _, .recvTimeout _, _, w => if w.receiver then some (receive w) else none
  | _, .dropReceiver, _, w => some ((), { w with receiver := false })
  | _, .pollReadiness, a, w => some (a.polled, w)
  | _, .signal _, a, w =>
    fallibleIo a (w.send .terminate a.io) (some (.ok (), w.send .terminate a.io))
  | _, .startKill, a, w => fallibleIo a (w.send .kill a.io) (some (.ok (), w.send .kill a.io))
  | _, .tryWait, a, w => fallibleIo a w (some (.ok a.exit, w))
  | _, .inspectStop, a, w =>
    fallible a w <|
      match w.stopRequest with
      | none => some (.error (.ofIo .missing), { w with pollMissed := true })
      | some _ => some (.ok (), w)
  | _, .openStop, a, w =>
    fallible a w <|
      match w.stopRequest with
      | none => some (.error (.ofIo .missing), { w with pollMissed := true })
      | some bytes => some (.ok bytes, w)
  | _, .readStop file, a, w => fallible a w (some (.ok file, w))
  | _, .stopExists, a, w =>
    some (a.fault.isNone && w.stopRequest.isSome, { w with pollMissed := false })
  | _, .removeStop, a, w =>
    fallible a w <|
      match w.stopRequest with
      | none => some (.error (.ofIo .missing), w)
      | some _ => some (.ok (), { w with stopRequest := none })

/-! ## The machine -/

/-- The commands of a thread that uses two signatures. -/
abbrev Either (C D : Type → Type) (β : Type) : Type := C β ⊕ D β

def execEither {C D : Type → Type} {β : Type} (execC : C β → Answer → World → Option (β × World))
    (execD : D β → Answer → World → Option (β × World)) :
    Either C D β → Answer → World → Option (β × World)
  | .inl c => execC c
  | .inr d => execD d

def Thread.Cmd : Thread → Type → Type
  | .start => Either CreateCmd ClientCmd
  | .supervisor => Either LockCmd BodyCmd
  | .reader _ => ReaderCmd
  | .client _ => ClientCmd

def exec [Toolchain] : (t : Thread) → {β : Type} → t.Cmd β → Answer → World → Option (β × World)
  | .start, _, c => execEither execCreate (execClient .start) c
  | .supervisor, _, c => execEither execLock execBody c
  | .reader stream, _, c => execReader stream c
  | .client index, _, c => execClient (.client index) c

/-! ## Frames

What the commands of a thread leave alone, as an equation: the world after a
command is the world before it, up to the fields that such a command may set. -/

section Frames

variable {α β : Type} {a : Answer} {w w' : World} {b : β}

/-- A fallible step either fails where the answer says so, or does its work. -/
theorem fallible_cases {success : Option (Except AppError α × World)} {r : Except AppError α}
    (h : fallible a w success = some (r, w')) :
    (∃ fault, a.fault = some fault ∧ r = .error fault.error ∧ w' = w) ∨
      (a.fault = none ∧ success = some (r, w')) := by
  unfold fallible at h
  split at h
  · rename_i fault hfault
    cases h
    exact .inl ⟨fault, hfault, rfl, rfl⟩
  · rename_i hnone
    exact .inr ⟨hnone, h⟩

/-- A replacement succeeds, or fails with or without an effect. -/
theorem committed_cases {success : α × World} {r : Except AppError α}
    (h : committed a w success = some (r, w')) :
    (∃ fault, a.fault = some fault ∧ r = .error fault.error ∧ (w' = w ∨ w' = success.2)) ∨
      (a.fault = none ∧ r = .ok success.1 ∧ w' = success.2) := by
  unfold committed at h
  split at h
  · rename_i fault hfault
    cases h
    refine .inl ⟨fault, hfault, rfl, ?_⟩
    split
    · exact .inr rfl
    · exact .inl rfl
  · rename_i hnone
    cases h
    exact .inr ⟨hnone, rfl, rfl⟩

/-- A step whose work succeeds fails only with a fault. -/
theorem fallible_error {value : α} {e : AppError} {w'' : World}
    (h : fallible a w (some (.ok value, w'')) = some (.error e, w')) :
    ∃ fault : Fault, e = fault.error := by
  obtain ⟨fault, -, hr, -⟩ | ⟨-, h⟩ := fallible_cases h
  · exact ⟨fault, Except.error.inj hr⟩
  · cases h

theorem committed_error {success : α × World} {e : AppError}
    (h : committed a w success = some (.error e, w')) : ∃ fault : Fault, e = fault.error := by
  obtain ⟨fault, -, hr, -⟩ | ⟨-, hr, -⟩ := committed_cases h
  · exact ⟨fault, Except.error.inj hr⟩
  · cases hr

theorem fallibleIo_cases {success : Option (Except IoError α × World)} {r : Except IoError α}
    (h : fallibleIo a w success = some (r, w')) :
    (∃ e, a.io = some e ∧ r = .error e ∧ w' = w) ∨
      (a.io = none ∧ success = some (r, w')) := by
  unfold fallibleIo at h
  split at h
  · rename_i e he
    cases h
    exact .inl ⟨e, he, rfl, rfl⟩
  · rename_i hnone
    exact .inr ⟨hnone, h⟩

/-- The creation of a directory that exists, or of a new one. -/
theorem createDir_cases {r : Except AppError Unit} (h : execCreate .createDir a w = some (r, w')) :
    (∃ fault : Fault, r = .error fault.error ∧ w' = w) ∨ (r = .ok () ∧ w' = { w with dir := true }) := by
  obtain ⟨fault, -, rfl, rfl⟩ | ⟨-, h⟩ := fallible_cases h
  · exact .inl ⟨fault, rfl, rfl⟩
  · split at h <;> cases h
    · exact .inl ⟨.io .existing, rfl, rfl⟩
    · exact .inr ⟨rfl, rfl⟩

theorem execCreate_frame {c : CreateCmd β} (h : execCreate c a w = some (b, w')) :
    w' = { w with
      dir := w'.dir, lockFile := w'.lockFile, stateJson := w'.stateJson
      history := w'.history, specJson := w'.specJson, ownerToken := w'.ownerToken
      phase := w'.phase } := by
  cases c <;> simp only [execCreate, fallible, committed] at h <;> repeat' split at h
  all_goals cases h <;> rfl

theorem execClient_frame [Toolchain] {t : Thread} {c : ClientCmd β}
    (h : execClient t c a w = some (b, w')) :
    w' = { w with
      lock := w'.lock, tested := w'.tested, foundFree := w'.foundFree
      stopRequest := w'.stopRequest, requests := w'.requests, registry := w'.registry } := by
  cases c <;> simp only [execClient, fallible, committed, fallibleIo] at h <;> repeat' split at h
  all_goals cases h <;> rfl

theorem execReader_frame {stream : LogStream} {c : ReaderCmd β}
    (h : execReader stream c a w = some (b, w')) :
    w' = { w with
      pipe := w'.pipe, taken := w'.taken, readFailed := w'.readFailed
      reader := w'.reader, queue := w'.queue, sent := w'.sent } := by
  cases c <;> simp only [execReader] at h <;> repeat' split at h
  all_goals cases h <;> rfl

theorem execLock_frame {c : LockCmd β} (h : execLock c a w = some (b, w')) :
    w' = { w with lock := w'.lock, phase := w'.phase } := by
  cases c <;> simp only [execLock] at h <;> repeat' split at h
  all_goals cases h <;> rfl

theorem execBody_frame [Toolchain] {c : BodyCmd β} (h : execBody c a w = some (b, w')) :
    w' = { w with
      stateJson := w'.stateJson, history := w'.history, specJson := w'.specJson
      stopRequest := w'.stopRequest, pollMissed := w'.pollMissed
      logsNdjson := w'.logsNdjson, registry := w'.registry, mainSender := w'.mainSender
      receiver := w'.receiver, reader := w'.reader, queue := w'.queue
      received := w'.received, closed := w'.closed, signals := w'.signals
      delivered := w'.delivered } := by
  cases c <;> simp only [execBody, fallible, committed, fallibleIo, receive] at h <;>
    repeat' split at h
  all_goals cases h <;> rfl

theorem execBody_state [Toolchain] {c : BodyCmd β} (hc : c.writesState = false)
    (h : execBody c a w = some (b, w')) :
    w'.stateJson = w.stateJson ∧ w'.history = w.history := by
  cases c with
  | persistState state => cases hc
  | _ =>
    simp only [execBody, fallible, committed, fallibleIo, receive] at h
    repeat' split at h
    all_goals cases h <;> exact ⟨rfl, rfl⟩

end Frames

end Procherd
