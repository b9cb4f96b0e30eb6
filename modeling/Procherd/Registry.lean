-- SUMMARY: The processes that share the port registry: `update_registry`, its callers and its lock, call by call (`leases.rs`).
import Procherd.Ports
import Procherd.Interaction.Tampering
import Procherd.Interaction.Straight

/-!
# The registry, call by call

`Ports` takes a transaction of the registry as one event that holds the lock.
Here a transaction is the program of `leases.rs`: it opens the lock file, waits
for the lock, reads, tests the supervisors of the entries, binds ports, replaces
the file and unlocks. Each of these calls may fail, and a process may be killed
before any of them.
-/

namespace Procherd

open Interaction

namespace Registry

/-! ## Commands -/

/-- What a transaction is for. -/
inductive Purpose where
  | reserve (names : List String)
  | release
deriving DecidableEq

/-- The reservation that a transaction is before its first test. -/
def Purpose.reservation (runId : String) : Purpose → Option Reservation
  | .reserve names => some { runId, names }
  | .release => none

/-- The calls of a supervisor that concern the registry. The purpose of a `lock`
    and the ports of a `writeJson` are there for the specification: the system
    does not look at them. -/
inductive Cmd : Type → Type where
  /-- `open_supervisor_lock`. -/
  | lockSupervisor : Cmd (Except AppError Unit)
  /-- `open_registry_lock`. -/
  | openLock : Cmd (Except AppError Unit)
  | lock (purpose : Purpose) : Cmd (Except AppError Unit)
  | pathExists : Cmd Bool
  | readJson : Cmd (Except AppError PortRegistry)
  /-- The file system's part of `run_supervisor_active`. -/
  | supervisorActive (runId : String) : Cmd Bool
  /-- `TcpListener::bind` of port 0, and `local_addr`. -/
  | bind : Cmd (Except AppError Nat)
  | now : Cmd Nat
  /-- `atomic_write_json`. -/
  | writeJson (registry : PortRegistry) (reserved : List ReservedPort) : Cmd (Except AppError Unit)
  | unlock : Cmd (Except AppError Unit)
  /-- The file of the registry lock goes out of scope. -/
  | closeLock : Cmd Unit
  /-- The file of the supervisor lock goes out of scope. -/
  | closeSupervisorLock : Cmd Unit

/-- What the outside world decides about one call. -/
structure Answer where
  /-- The call fails. -/
  fault : Option Fault := none
  /-- A failed replacement of the file took effect nevertheless. -/
  took : Bool := false
  port : Nat := 0
  active : Bool := false
  time : Nat := 0

/-! ## The state root -/

structure World where
  /-- `port-leases.json`, where it exists. -/
  file : Option PortRegistry := none
  /-- The process that holds the lock of the registry. -/
  lock : Option Nat := none
  /-- The process that holds the `supervisor.lock` of a run. -/
  supervisor : String → Option Nat := fun _ => none
  killed : Nat → Bool := fun _ => false
  /-- What is known of the transaction that holds the lock: a history variable. -/
  reservation : Option Reservation := none
  /-- The ports that a run was told it has: a history variable. -/
  leases : String → List ReservedPort := fun _ => []

namespace World

/-- The state root as `Ports` sees it. -/
def root (w : World) : Root where
  registry := w.file
  held runId := (w.supervisor runId).isSome
  leases := w.leases
  reservation := w.reservation

def write (runId : String) (registry : PortRegistry) (reserved : List ReservedPort)
    (reported : Bool) (w : World) : World :=
  match w.reservation with
  | some reservation => { w with
      file := some registry
      leases := if reported then
          Function.update w.leases reservation.runId (w.leases reservation.runId ++ reserved)
        else w.leases
      reservation := none }
  | none => { w with
      file := some registry
      leases := Function.update w.leases runId [] }

/-- The process no longer holds the lock of the registry. -/
def unlock (n : Nat) (w : World) : World :=
  if w.lock = some n then { w with lock := none, reservation := none } else w

/-- The process no longer holds the lock of its run. -/
def unlockSupervisor (runId : String) (n : Nat) (w : World) : World :=
  if w.supervisor runId = some n then { w with
    supervisor := Function.update w.supervisor runId none
    leases := Function.update w.leases runId [] }
  else w

/-- The process is killed: the system closes its files. -/
def kill (runId : String) (n : Nat) (w : World) : World :=
  let w := (w.unlock n).unlockSupervisor runId n
  { w with killed := Function.update w.killed n true }

end World

/-- A call that fails where the answer says so. -/
def fallible {α : Type} (a : Answer) (w : World) (success : Option (Except AppError α × World)) :
    Option (Except AppError α × World) :=
  match a.fault with
  | some fault => some (.error fault.error, w)
  | none => success

/-- A call of process `n`, the supervisor of the run `runId`. -/
def execLive (runId : String) (n : Nat) :
    {β : Type} → Cmd β → Answer → World → Option (β × World)
  | _, .lockSupervisor, a, w => fallible a w <|
    if (w.supervisor runId).isSome then none
    else some (.ok (), { w with supervisor := Function.update w.supervisor runId (some n) })
  | _, .openLock, a, w => fallible a w (some (.ok (), w))
  | _, .lock purpose, a, w => fallible a w <|
    if w.lock.isSome then none
    else some (.ok (), { w with
      lock := some n
      reservation := purpose.reservation runId })
  -- `exists` does not tell a failed call from a missing file.
  | _, .pathExists, a, w => some (a.fault.isNone && w.file.isSome, w)
  | _, .readJson, a, w => fallible a w (some ((w.file.elim (.error (.ofIo .missing)) .ok), w))
  | _, .supervisorActive _, a, w => some (a.active, { w with
      reservation := if w.lock = some n then w.reservation.map fun reservation =>
          { reservation with answers := reservation.answers ++ [a.active] }
        else w.reservation })
  | _, .bind, a, w => fallible a w (some (.ok a.port, w))
  | _, .now, a, w => some (min a.time u64Max, w)
  | _, .writeJson registry reserved, a, w =>
    match a.fault with
    | some fault =>
      some (.error fault.error, if a.took then w.write runId registry reserved false else w)
    | none => some (.ok (), w.write runId registry reserved true)
  | _, .unlock, a, w => fallible a w (some (.ok (), w.unlock n))
  | _, .closeLock, _, w => some ((), w.unlock n)
  | _, .closeSupervisorLock, _, w => some ((), w.unlockSupervisor runId n)

def exec (runId : String) (n : Nat) {β : Type} (c : Cmd β) (a : Answer) (w : World) :
    Option (β × World) :=
  if w.killed n then none else execLive runId n c a w

end Registry

/-! ## `leases.rs` -/

abbrev RegistryProc (α : Type) := Proc Registry.Cmd AppError Unit α

namespace RegistryProc

open Registry (Purpose)

variable [Toolchain]

def runSupervisorActive (runId : String) : RegistryProc Bool :=
  match canonicalRunId runId with
  | .error _ => pure false
  | .ok runId => Proc.call (.supervisorActive runId)

/-- `retain` of `prune_stale`. -/
def retainEntries : List PortRegistryEntry → RegistryProc (List PortRegistryEntry)
  | [] => pure []
  | entry :: rest => do
    let active ← runSupervisorActive entry.runId
    let retained ← retainEntries rest
    return if active then entry :: retained else retained

def pruneStale (registry : PortRegistry) : RegistryProc PortRegistry := do
  let entries ← retainEntries registry.entries
  return { registry with entries }

/-- The attempts for one name. -/
def allocatePort (unavailable : List Nat) : Nat → RegistryProc Nat
  | 0 =>
    Proc.throw (.operational "port_lease"
      "could not find a free port outside the ProcHerd lease registry")
  | attempts + 1 => do
    let port ← Proc.attempt .bind
    if port ∈ unavailable then allocatePort unavailable attempts else pure port

/-- The loop over the names: what is reserved, and the entries. -/
def reserveNames (runId : String) : List String → List Nat → List PortRegistryEntry →
    List ReservedPort → RegistryProc (List ReservedPort × List PortRegistryEntry)
  | [], _, entries, reserved => pure (reserved, entries)
  | name :: rest, unavailable, entries, reserved => do
    let port ← allocatePort unavailable MAX_ALLOCATION_ATTEMPTS
    let acquiredAtMs ← Proc.call .now
    reserveNames runId rest (port :: unavailable) (entries ++ [{ runId, name, port, acquiredAtMs }])
      (reserved ++ [{ name, port }])

/-- The update closure of `reserve_ports`. -/
def reserveUpdate (runId : String) (names : List String) (registry : PortRegistry) :
    RegistryProc (List ReservedPort × PortRegistry) := do
  let registry ← pruneStale registry
  let unavailable := registry.entries.map (·.port)
  let (reserved, entries) ← reserveNames runId names unavailable registry.entries []
  return (reserved, { registry with entries })

/-- The update closure of `release_registry`. -/
def releaseUpdate (runId : String) (registry : PortRegistry) :
    RegistryProc (List ReservedPort × PortRegistry) :=
  pure ([], { registry with entries := registry.entries.filter fun entry => entry.runId ≠ runId })

/-- The registry that `update_registry` finds. -/
def loadRegistry : RegistryProc PortRegistry := do
  let found ← Proc.call .pathExists
  if found then Proc.attempt .readJson else return .empty

/-- `update_registry` once the lock file is open. -/
def lockedUpdate (purpose : Purpose)
    (update : PortRegistry → RegistryProc (List ReservedPort × PortRegistry)) :
    RegistryProc (List ReservedPort) := do
  Proc.attempt (.lock purpose)
  let registry ← loadRegistry
  if registry.schemaVersion ≠ REGISTRY_SCHEMA then
    Proc.attempt .unlock
    Proc.throw (.integrity ("unsupported port lease registry schema " ++ registry.schemaVersion))
  else
    Proc.ofExcept (validateRegistry registry)
    let result ← Proc.outcome do
      let (reserved, registry) ← update registry
      Proc.attempt (.writeJson registry reserved)
      return reserved
    Proc.attempt .unlock
    Proc.ofExcept result

def updateRegistry (purpose : Purpose)
    (update : PortRegistry → RegistryProc (List ReservedPort × PortRegistry)) :
    RegistryProc (List ReservedPort) := do
  Proc.attempt .openLock
  Proc.ensuring (lockedUpdate purpose update) (Proc.call .closeLock)

def reservePorts (runId : String) (names : List String) : RegistryProc (List ReservedPort) :=
  if names = [] then pure [] else updateRegistry (.reserve names) (reserveUpdate runId names)

def releaseRegistry (runId : String) : RegistryProc (List ReservedPort) :=
  updateRegistry .release (releaseUpdate runId)

end RegistryProc

namespace Registry

/-! ## Supervisors -/

/-- What a supervisor wants of the registry, which may depend on what it got. -/
inductive User where
  | done
  | reserve (names : List String) (next : Except AppError (List ReservedPort) → User)
  | release (next : Except AppError (List ReservedPort) → User)

def User.serve [Toolchain] (runId : String) : User → RegistryProc Unit
  | .done => pure ()
  | .reserve names next => do
    let result ← Proc.outcome (RegistryProc.reservePorts runId names)
    (next result).serve runId
  | .release next => do
    let result ← Proc.outcome (RegistryProc.releaseRegistry runId)
    (next result).serve runId

/-- `supervise`, as far as the registry is concerned. -/
def User.supervise [Toolchain] (runId : String) (user : User) : RegistryProc Unit := do
  Proc.attempt .lockSupervisor
  Proc.ensuring (user.serve runId) (Proc.call .closeSupervisorLock)

/-- Any number of processes, each of which supervises the run that `runs` names. -/
abbrev system (runs : Nat → String) : Machine where
  Thread := Nat
  Cmd := fun _ => Cmd
  Result := fun _ => Except AppError Unit × Unit
  World := World
  Answer := Answer
  exec := fun n {_} c a w => exec (runs n) n c a w

/-- The processes begin, in a state root where no process holds a lock. -/
def initial [Toolchain] (runs : Nat → String) (users : Nat → User) (file : Option PortRegistry) :
    (system runs).Config where
  world := { file }
  thread n := (users n).supervise (runs n) ()

/-- `exists` finds the file of the registry, and a lock test reports a held lock
    as held. -/
def truthful (runs : Nat → String) : (system runs).Condition := fun _ {_} c a w =>
  match c with
  | .pathExists => a.fault = none
  | .supervisorActive runId => (w.supervisor runId).isSome → a.active
  | _ => True

/-- A process may be killed at any time. -/
def kills (runs : Nat → String) (w w' : World) : Prop := ∃ n, w' = w.kill (runs n) n

end Registry

end Procherd
