-- SUMMARY: The readiness tracker (`readiness.rs`): log matching, polling, rotation, and the final statuses.
import Procherd.Model

/-!
# Readiness

The tracker as pure functions of what the system tells it. `now_ms` may be read
several times in one call; the readings come as a function `clock`, whose `i`-th
value is the `i`-th reading of that call. `PollInputs` collects everything that
`poll` asks the system for.
-/

namespace Procherd

def MAX_LOG_LITERAL_BYTES : Nat := 1024
def PROBE_INTERVAL : Nat := 50

def literalBytes (literal : String) : Bytes := (OsString.ofString literal).bytes

/-- Some window of `haystack` is `needle`. -/
def containsBytes : Bytes → Bytes → Bool
  | [], needle => needle.isEmpty
  | b :: rest, needle => needle.isPrefixOf (b :: rest) || containsBytes rest needle

structure ReadinessTracker where
  lastProbe : Option Nat := none
  nextProbeIndex : Nat := 0
  stdoutTail : Bytes := []
  stderrTail : Bytes := []
deriving DecidableEq

def ReadinessTracker.new : ReadinessTracker := {}

/-! ## Completion -/

def finishIfReady (state : ReadinessState) (now : Nat) : ReadinessState × Bool :=
  if state.status = .pending ∧ state.checks.all (·.readyAtMs.isSome) then
    ({ state with status := .ready, readyAtMs := some now }, true)
  else (state, false)

/-! ## Log evidence -/

/-- The loop of `observe_log` over the checks, from the `i`-th reading of the
    clock on. Returns the checks, the number of readings used, and whether a
    check changed. -/
def observeChecks (stream : LogStream) (searchable : Bytes) (clock : Nat → Nat) :
    Nat → List ReadinessCheck → List ReadinessCheck × Nat × Bool
  | i, [] => ([], i, false)
  | i, check :: rest =>
    match check.readyAtMs, check.condition with
    | none, .log literal =>
      if containsBytes searchable (literalBytes literal) then
        let observedAt := clock i
        let evidence := stream.name ++ " contained the configured literal at timestamp " ++
          toString observedAt
        let (checks, j, _) := observeChecks stream searchable clock (i + 1) rest
        ({ check with readyAtMs := some observedAt, evidence := some evidence } :: checks, j, true)
      else
        let (checks, j, changed) := observeChecks stream searchable clock i rest
        (check :: checks, j, changed)
    | _, _ =>
      let (checks, j, changed) := observeChecks stream searchable clock i rest
      (check :: checks, j, changed)

/-- How much of the searched bytes the tail has to keep for an unmatched
    literal that continues in the next chunk. -/
def maxTail (checks : List ReadinessCheck) : Nat :=
  let wanted := checks.filterMap fun check =>
    match check.condition with
    | .log literal =>
      if check.readyAtMs.isNone then some ((literalBytes literal).length - 1) else none
    | _ => none
  min (wanted.foldl max 0) (MAX_LOG_LITERAL_BYTES - 1)

namespace ReadinessTracker

def tail (tracker : ReadinessTracker) : LogStream → Bytes
  | .stdout => tracker.stdoutTail
  | .stderr => tracker.stderrTail

def setTail (tracker : ReadinessTracker) (stream : LogStream) (bytes : Bytes) : ReadinessTracker :=
  match stream with
  | .stdout => { tracker with stdoutTail := bytes }
  | .stderr => { tracker with stderrTail := bytes }

def observeLog (tracker : ReadinessTracker) (state : ReadinessState) (stream : LogStream)
    (bytes : Bytes) (clock : Nat → Nat) : ReadinessTracker × ReadinessState × Bool :=
  if state.status ≠ .pending then (tracker, state, false)
  else
    let searchable := tracker.tail stream ++ bytes
    let (checks, i, changed) := observeChecks stream searchable clock 0 state.checks
    let keep := min searchable.length (maxTail checks)
    let tracker := tracker.setTail stream (searchable.drop (searchable.length - keep))
    let (state, completed) := finishIfReady { state with checks } (clock i)
    (tracker, state, changed || completed)

/-! ## Polling -/

/-- An unready check that a probe can decide. -/
def external (check : ReadinessCheck) : Bool :=
  check.readyAtMs.isNone &&
    match check.condition with
    | .log _ | .portLease _ => false
    | _ => true

def nextExternalCheck (tracker : ReadinessTracker) (state : ReadinessState) : Option Nat :=
  let count := state.checks.length
  ((List.range count).map fun offset => (tracker.nextProbeIndex + offset) % count).find? fun index =>
    (state.checks[index]?).any external

end ReadinessTracker

/-- What `poll` asks the system for: the clock against the deadline, the
    monotonic clock against the last probe, the probe, and the clock after it. -/
structure PollInputs where
  now : Nat := 0
  elapsedNow : Nat := 0
  instant : Nat := 0
  probe : ReadinessCondition → Option String := fun _ => none
  observedAt : Nat := 0
  readyAt : Nat := 0

namespace ReadinessTracker

def poll (tracker : ReadinessTracker) (state : ReadinessState) (inputs : PollInputs) :
    ReadinessTracker × ReadinessState × Bool :=
  if state.status ≠ .pending then (tracker, state, false)
  else if state.deadlineAtMs.any (fun deadline => decide (deadline ≤ inputs.now)) then
    (tracker, { state with status := .timedOut, failureReason := some "readiness_timeout" }, true)
  else if tracker.lastProbe.any (fun last => decide (inputs.elapsedNow - last < PROBE_INTERVAL)) then
    (tracker, state, false)
  else
    let tracker := { tracker with lastProbe := some inputs.instant }
    match tracker.nextExternalCheck state with
    | none =>
      let (state, completed) := finishIfReady state inputs.readyAt
      (tracker, state, completed)
    | some index =>
      let tracker := { tracker with nextProbeIndex := index + 1 }
      let evidence := (state.checks[index]?).bind fun check =>
        match check.condition with
        | .log _ | .portLease _ => none
        | condition => inputs.probe condition
      match evidence with
      | some evidence =>
        let checks := state.checks.modify index fun check =>
          { check with readyAtMs := some inputs.observedAt, evidence := some evidence }
        (tracker, (finishIfReady { state with checks } inputs.readyAt).1, true)
      | none => (tracker, state, false)

def processExited (state : ReadinessState) : ReadinessState × Bool :=
  if state.status ≠ .pending then (state, false)
  else
    ({ state with status := .failed, failureReason := some "process_exited_before_ready" }, true)

end ReadinessTracker

end Procherd
