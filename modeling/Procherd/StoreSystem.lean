-- SUMMARY: The state root as a machine: any number of runs, and the clients that list them, collect them and use them.
import Procherd.System
import Mathlib.Data.List.Sort
import Mathlib.Data.List.Dedup

/-!
# Store system

The runs of one state root, each with its own `start`, supervisor and reader
threads, and the clients. A client may use several runs: `list` and `gc` go
through all of them, and `gc --execute` removes run directories, one entry of
the directory at a time. The runs share the port registry.

Next to what the store keeps, the world records the clients' readings of the
clock and what each removal found.
-/

namespace Procherd

open Interaction

/-! ## The shared state -/

/-- An entry of a run directory. -/
inductive RunEntry where
  | lockFile
  | stateJson
  | specJson
  | ownerToken
  | stopRequest
  | logsNdjson
deriving DecidableEq

namespace World

def unlink (w : World) : RunEntry → World
  | .lockFile => { w with lockFile := false }
  | .stateJson => { w with stateJson := .absent }
  | .specJson => { w with specJson := none }
  | .ownerToken => { w with ownerToken := none }
  | .stopRequest => { w with stopRequest := none }
  | .logsNdjson => { w with logsNdjson := none }

/-- Nothing is left in the run directory. -/
def emptied (w : World) : Bool :=
  !w.lockFile && w.stateJson = .absent && w.specJson.isNone && w.ownerToken.isNone &&
    w.stopRequest.isNone && w.logsNdjson.isNone

end World

/-- The removal of a run directory. -/
structure Removal where
  client : Nat
  /-- The client's last reading of the clock. -/
  observedAtMs : Option Nat
  /-- The run when the removal begins. -/
  run : World

structure StoreWorld where
  /-- The names in the state root. -/
  entries : List String := []
  runs : String → World
  /-- `port-leases.json`, which the runs share. -/
  registry : Option PortRegistry
  observedAtMs : Nat → Option Nat := fun _ => none
  removal : String → Option Removal := fun _ => none

namespace StoreWorld

def run (w : StoreWorld) (id : String) : World := { w.runs id with registry := w.registry }

def setRun (w : StoreWorld) (id : String) (run : World) : StoreWorld :=
  { w with
    entries := if run.dir && !(w.runs id).dir then w.entries ++ [id] else w.entries
    runs := Function.update w.runs id run
    registry := run.registry }

/-- A client begins or continues the removal of a run directory. -/
def noteRemoval (w : StoreWorld) (client : Nat) (id : String) : StoreWorld :=
  match w.removal id with
  | some _ => w
  | none =>
    let removal : Removal := { client, observedAtMs := w.observedAtMs client, run := w.run id }
    { w with removal := Function.update w.removal id (some removal) }

/-- Remove an entry of a run directory, or the directory once it is empty. -/
def unlink (w : StoreWorld) (id : String) (entry : RunEntry) : Bool × StoreWorld :=
  if (w.run id).emptied then
    (true, { w.setRun id { w.run id with dir := false } with entries := w.entries.erase id })
  else (false, w.setRun id ((w.run id).unlink entry))

end StoreWorld

/-! ## Commands -/

structure StoreAnswer extends Answer where
  /-- The names that appear in the state root during a scan. -/
  appearing : List String := []
  /-- The entry of the run directory that is removed next. -/
  entry : RunEntry := .stateJson

/-- The commands on the state root as a whole, and on run directories. -/
inductive RootCmd : Type → Type where
  | now : RootCmd Nat
  /-- `fs::read_dir` of the state root. -/
  | readDir : RootCmd (Except AppError (List String))
  /-- The scan of the state root passes a name: is it a directory there? -/
  | entry (name : String) : RootCmd (Except AppError Bool)
  /-- `Store::run_dir`. -/
  | runDir (id : String) : RootCmd (Except AppError Unit)
  /-- One step of `fs::remove_dir_all`; `true` if it was the last one. -/
  | unlink (id : String) : RootCmd (Except AppError Bool)

/-- A client's command on one run. -/
structure OnRun (β : Type) where
  id : String
  cmd : ClientCmd β

abbrev StoreCmd : Type → Type := Either RootCmd OnRun

/-- A step that fails where the answer says so. -/
def storeFallible {α : Type} (a : StoreAnswer) (w : StoreWorld)
    (success : Except AppError α × StoreWorld) : Option (Except AppError α × StoreWorld) :=
  match a.fault with
  | some fault => some (.error fault.error, w)
  | none => some success

def execRoot (n : Nat) :
    {β : Type} → RootCmd β → StoreAnswer → StoreWorld → Option (β × StoreWorld)
  | _, .now, a, w =>
    some (a.now, { w with observedAtMs := Function.update w.observedAtMs n (some a.now) })
  | _, .readDir, a, w => storeFallible a w (.ok (w.entries ++ a.appearing).dedup, w)
  | _, .entry name, a, w => storeFallible a w (.ok (w.run name).dir, w)
  | _, .runDir id, a, w =>
    storeFallible a w (if (w.run id).dir then .ok () else .error (missingRun (w.run id)), w)
  | _, .unlink id, a, w =>
    storeFallible a w <|
      if (w.run id).dir then
        let r := (w.noteRemoval n id).unlink id a.entry
        (.ok r.1, r.2)
      else (.error (.ofIo .missing), w)

def execOnRun [Toolchain] (n : Nat) {β : Type} (c : OnRun β) (a : StoreAnswer) (w : StoreWorld) :
    Option (β × StoreWorld) :=
  (execClient (.client n) c.cmd a.toAnswer (w.run c.id)).map fun r => (r.1, w.setRun c.id r.2)

/-! ## The commands of the store -/

abbrev StoreProc (α : Type) := Proc StoreCmd AppError Unit α

/-- A client procedure on one run. -/
def onRun {α : Type} (runId : String) (m : Client α) : StoreProc α :=
  m.hoist fun c => .inr { id := runId, cmd := c }

def scanEntries [Toolchain] : List String → StoreProc (List String)
  | [] => pure []
  | name :: names => do
    let isDir ← Proc.attempt (.inl (.entry name))
    let ids ← scanEntries names
    return if isDir && (canonicalRunId name).isOk then name :: ids else ids

/-- `Store::list_run_ids`. -/
def listRunIds [Toolchain] : StoreProc (List String) := do
  let names ← Proc.attempt (.inl .readDir)
  let ids ← scanEntries names
  return (ids.insertionSort (· ≤ ·)).reverse

structure ListResult where
  schemaVersion : String
  runs : List RunView
deriving DecidableEq

def loadViews : List String → StoreProc (List RunView)
  | [] => pure []
  | runId :: runIds => do
    let view ← onRun runId loadView
    let views ← loadViews runIds
    return view :: views

def list [Toolchain] : StoreProc ListResult := do
  let runIds ← listRunIds
  let runs ← loadViews runIds
  return { schemaVersion := "procherd.list.v1", runs }

/-! ### gc -/

structure GcEntry where
  runId : String
  status : RunStatus
  ageMs : Nat
  eligible : Bool
  reason : String
  deleted : Bool
deriving DecidableEq

structure GcResult where
  schemaVersion : String
  execute : Bool
  olderThanMs : Nat
  entries : List GcEntry
deriving DecidableEq

def gcLiveRun (what runId : String) : AppError :=
  .operational "gc_live_run" ("refusing to remove " ++ what ++ " run " ++ runId)

/-- `fs::remove_dir_all`. -/
def removeDirAll (runId : String) : StoreProc Unit :=
  Proc.repeatUntil do
    if ← Proc.attempt (.inl (.unlink runId)) then return some () else return none

/-- `Store::remove_terminal_run`. -/
def removeTerminalRun [Toolchain] (runId : String) : StoreProc Unit := do
  let _ ← Proc.ofExcept (canonicalRunId runId)
  Proc.attempt (.inl (.runDir runId))
  let active ← onRun runId supervisorActive
  Proc.throwIf active (gcLiveRun "active" runId)
  let state ← onRun runId (Proc.attempt .readState)
  Proc.throwIf (!state.status.isTerminal) (gcLiveRun "non-terminal" runId)
  removeDirAll runId

/-- Whether `gc` may remove a run, and why. -/
def gcReason (olderThanMs ageMs : Nat) (view : RunView) : Bool × String :=
  if view.supervisorActive then (false, "supervisor_active")
  else if !view.state.status.isTerminal then (false, "non_terminal_or_orphaned")
  else if ageMs < olderThanMs then (false, "younger_than_threshold")
  else (true, "terminal_and_inactive")

/-- What `gc` does with one run. -/
def gcRun [Toolchain] (observedAtMs olderThanMs : Nat) (execute : Bool) (runId : String) :
    StoreProc GcEntry := do
  let view ← onRun runId loadView
  let ageMs := observedAtMs - view.state.updatedAtMs
  let (eligible, reason) := gcReason olderThanMs ageMs view
  let entry : GcEntry :=
    { runId, status := view.state.status, ageMs, eligible, reason, deleted := false }
  if execute && eligible then
    removeTerminalRun runId
    return { entry with deleted := true }
  else return entry

def gcRuns [Toolchain] (observedAtMs olderThanMs : Nat) (execute : Bool) :
    List String → StoreProc (List GcEntry)
  | [] => pure []
  | runId :: runIds => do
    let entry ← gcRun observedAtMs olderThanMs execute runId
    let entries ← gcRuns observedAtMs olderThanMs execute runIds
    return entry :: entries

def gc [Toolchain] (olderThanMs : Nat) (execute : Bool) : StoreProc GcResult := do
  let observedAtMs ← Proc.call (.inl .now)
  let runIds ← listRunIds
  let entries ← gcRuns observedAtMs olderThanMs execute runIds
  return { schemaVersion := "procherd.gc.v1", execute, olderThanMs, entries }

/-! ## The machine -/

inductive StoreThread where
  /-- A thread of one run. -/
  | run (id : String) (t : Thread)
  | client (n : Nat)
deriving DecidableEq

/-- What a client of the store runs. -/
inductive StoreClient where
  | list
  | gc (olderThanMs : Nat) (execute : Bool)
  /-- Any other use of the runs. -/
  | use (program : Prog OnRun ClientResult)

inductive StoreResult where
  | listed (result : Except AppError ListResult)
  | collected (result : Except AppError GcResult)
  | used (result : ClientResult)

def StoreThread.Cmd : StoreThread → Type → Type
  | .run _ t => t.Cmd
  | .client _ => StoreCmd

def StoreThread.Result : StoreThread → Type
  | .run _ t => t.Result
  | .client _ => StoreResult

section Machine

variable [Toolchain]

def StoreClient.program : StoreClient → Prog StoreCmd StoreResult
  | .list => (Procherd.list ()).bind fun r => .ret (.listed r.1)
  | .gc olderThanMs execute =>
    (Procherd.gc olderThanMs execute ()).bind fun r => .ret (.collected r.1)
  | .use program => (program.hoist .inr).bind fun r => .ret (.used r)

/-- A client is a thread of the store, not of one run. -/
def StoreThread.exec : (i : StoreThread) → {β : Type} → i.Cmd β → StoreAnswer → StoreWorld →
    Option (β × StoreWorld)
  | .run _ (.client _), _, _, _, _ => none
  | .run id t, _, c, a, w =>
    (Procherd.exec t c a.toAnswer (w.run id)).map fun r => (r.1, w.setRun id r.2)
  | .client n, _, .inl c, a, w => execRoot n c a w
  | .client n, _, .inr c, a, w => execOnRun n c a w

abbrev storeSystem : Machine where
  Thread := StoreThread
  Cmd := StoreThread.Cmd
  Result := StoreThread.Result
  World := StoreWorld
  Answer := StoreAnswer
  exec := StoreThread.exec

end Machine

/-- What a state root is used for: the run that each run ID stands for, and the
    clients. -/
structure StoreSetup where
  root : PathBuf
  registry : Option PortRegistry
  options : String → StartOptions
  runId_eq : ∀ id, (options id).runId = id
  /-- What the process tree of a run writes to its pipes. -/
  output : String → LogStream → Bytes
  clients : Nat → StoreClient

namespace StoreSetup

variable [Toolchain] (setup : StoreSetup)

/-- One run by itself. -/
def run (id : String) : Setup :=
  { options := setup.options id
    root := setup.root
    registry := setup.registry
    output := setup.output id
    clients := fun _ => .ret (.observed (.error (.usage "no client"))) }

def world : StoreWorld :=
  { runs := fun id => (setup.run id).world
    registry := setup.registry }

def thread : (i : StoreThread) → Prog i.Cmd i.Result
  | .run id t => (setup.run id).thread t
  | .client n => (setup.clients n).program

def initial : storeSystem.Config := { world := setup.world, thread := setup.thread }

end StoreSetup

end Procherd
