-- SUMMARY: Stop arbitration on Unix: the first trigger decides how a run is stopped, whatever the clocks, the stop requests and the child do.
import Procherd.Interaction.Trace
import Procherd.OutputFrame
import Procherd.Reference

/-!
# Stop arbitration

An observer of the supervisor sees its commands and their answers. From these
alone it keeps the first trigger of a stop, the signals and kills before the exit
of the child is observed, and the monotonic reading each kill was made at. The
supervisor sends at most one signal and one kill, the kill only once the grace of
the first trigger is over, and the documents it writes tell of that trigger.
-/

namespace Procherd

open Interaction

/-! ## The observer -/

/-- What stops a run: a request, or the end of its runtime. -/
structure Trigger where
  reason : ExitReason
  graceMs : Nat
  /-- The first monotonic reading after it was accepted. -/
  startedAt : Option Nat := none

structure Arbitration where
  /-- The first trigger that was accepted before the exit. -/
  trigger : Option Trigger := none
  /-- How many graceful signals were sent before the exit. -/
  signals : Nat := 0
  /-- The readings at the kills before the exit. -/
  kills : List Nat := []
  /-- The exit of the child was observed. -/
  exited : Bool := false

/-- What the observer knows of the run beforehand. -/
structure Terms where
  path : PathBuf
  graceMs : Nat
  deadlineAtMs : Option Nat

/-- What an observer of the loop knows beforehand. -/
def Locals.terms (path : PathBuf) (l : Locals) : Terms where
  path := path
  graceMs := l.spec.runtimeGraceMs
  deadlineAtMs := l.state.limits.runtimeDeadlineAtMs

structure Ledger where
  arbitration : Arbitration := {}
  /-- The last monotonic reading. -/
  reading : Nat := 0
  /-- The stop request that was read last. -/
  request : Option StopRequest := none
  /-- The last command found no stop request. -/
  absent : Bool := false
  /-- The document that the last command wrote. -/
  written : Option RunState := none

def Arbitration.accept (reason : ExitReason) (graceMs : Nat) (a : Arbitration) : Arbitration :=
  if a.trigger.isSome ∨ a.exited then a else { a with trigger := some { reason, graceMs } }

def Trigger.start (reading : Nat) (trigger : Trigger) : Trigger :=
  { trigger with startedAt := trigger.startedAt.or (some reading) }

/-- A stop request is accepted when it is removed. The end of the runtime is
    accepted when the clock, read where no stop request was found, is past it. -/
def Ledger.arbitrate (terms : Terms) (o : Ledger) : {β : Type} → BodyCmd β → β → Arbitration
  | _, .removeStop, .ok () =>
    o.request.elim o.arbitration fun request =>
      o.arbitration.accept .stopRequested request.graceMs
  | _, .now, now =>
    if o.absent ∧ terms.deadlineAtMs.any (fun deadline => decide (deadline ≤ now)) then
      o.arbitration.accept .runtimeLimit terms.graceMs
    else o.arbitration
  | _, .instant, reading =>
    { o.arbitration with trigger := o.arbitration.trigger.map (·.start reading) }
  | _, .signal _, _ =>
    if o.arbitration.exited then o.arbitration
    else { o.arbitration with signals := o.arbitration.signals + 1 }
  | _, .startKill, _ =>
    if o.arbitration.exited then o.arbitration
    else { o.arbitration with kills := o.arbitration.kills ++ [o.reading] }
  | _, .tryWait, .ok (some _) => { o.arbitration with exited := true }
  | _, _, _ => o.arbitration

section Observer

variable [Toolchain]

def Ledger.note (terms : Terms) (o : Ledger) {β : Type} (c : BodyCmd β) (b : β) : Ledger where
  arbitration := o.arbitrate terms c b
  reading :=
    match c, b with
    | .instant, reading => reading
    | _, _ => o.reading
  request :=
    match c, b with
    | .readStop _, .ok bytes => (parseStopRequest terms.path bytes).toOption
    | .readStop _, .error _ => none
    | _, _ => o.request
  absent :=
    match c, b with
    | .stopExists, found => !found
    | _, _ => false
  written :=
    match c, b with
    | .persistState state, _ => some state
    | _, _ => none

/-- What an observer of the loop has noted after a trace. -/
def Locals.observe (path : PathBuf) (l : Locals) (trace : List (Event BodyCmd)) : Ledger :=
  ledger (fun o _ c b => o.note (l.terms path) c b) {} trace

end Observer

attribute [local simp] Ledger.note

/-! ## What is to hold -/

/-- A document tells of the trigger. -/
structure Arbitration.Agrees (a : Arbitration) (state : RunState) : Prop where
  graceMs : state.cleanup.graceMs = a.trigger.map (·.graceMs)
  requested : state.cleanup.requestedAtMs.isSome ↔ a.trigger.isSome
  runtimeLimit : state.limits.runtimeLimitTriggeredAtMs.isSome ↔
    ∃ trigger ∈ a.trigger, trigger.reason = .runtimeLimit

/-- A state is the one that a run with this trigger ends in. -/
structure Arbitration.Ends (a : Arbitration) (state : RunState) : Prop where
  exited : a.exited
  status : state.status = if a.trigger.isSome then .stopped else .exited
  reason : ∃ exit ∈ state.exit, exit.reason = a.trigger.elim .processExited (·.reason)
  runtimeLimit : state.limits.runtimeLimitTriggeredAtMs.isSome ↔
    ∃ exit ∈ state.exit, exit.reason = .runtimeLimit
  requested : state.cleanup.requestedAtMs.isSome ↔ state.status = .stopped

/-- At most one signal, and only after a trigger; at most one kill, and only after
    the signal and the grace of the trigger. -/
structure Arbitration.Bounded (a : Arbitration) : Prop where
  signals : a.signals ≤ 1
  triggered : a.signals ≠ 0 → a.trigger.isSome
  kills : a.kills.length ≤ 1
  forced : ∀ reading ∈ a.kills, a.signals = 1 ∧
    ∃ trigger ∈ a.trigger, ∃ startedAt ∈ trigger.startedAt, startedAt + trigger.graceMs ≤ reading

structure Ledger.Arbitrated (o : Ledger) : Prop where
  bounded : o.arbitration.Bounded
  agrees : ∀ state ∈ o.written, o.arbitration.Agrees state
  ends : ∀ state ∈ o.written, state.status = .exited ∨ state.status = .stopped →
    o.arbitration.Ends state

/-- What the loop is entered with: a run that nothing has stopped yet. -/
structure Locals.Undisturbed (l : Locals) : Prop where
  stopping : l.stopping = none
  graceMs : l.state.cleanup.graceMs = none
  requestedAtMs : l.state.cleanup.requestedAtMs = none
  runtimeLimitTriggeredAtMs : l.state.limits.runtimeLimitTriggeredAtMs = none
  live : ¬ (l.state.status = .exited ∨ l.state.status = .stopped)

/-- What the supervisor remembers of the trigger. -/
def Arbitration.stopping (a : Arbitration) : Option Stopping := do
  let trigger ← a.trigger
  let startedAt ← trigger.startedAt
  return {
    deadline := startedAt + trigger.graceMs, forceSent := a.kills ≠ [], reason := trigger.reason }

/-! ## Between the commands on the child -/

/-- What holds of the observed where no trigger is being handled. -/
structure Arbitration.Steady (a : Arbitration) : Prop where
  started : ∀ trigger ∈ a.trigger, trigger.startedAt.isSome
  signals : a.signals = if a.trigger.isSome then 1 else 0
  kills : a.kills.length ≤ 1
  forced : ∀ reading ∈ a.kills, ∃ trigger ∈ a.trigger, ∃ startedAt ∈ trigger.startedAt,
    startedAt + trigger.graceMs ≤ reading

/-- The supervisor and the observer agree. -/
structure Guided (terms : Terms) (exited : Bool) (l : Locals) (o : Ledger) : Prop where
  graceMs : l.spec.runtimeGraceMs = terms.graceMs
  deadlineAtMs : l.state.limits.runtimeDeadlineAtMs = terms.deadlineAtMs
  absent : o.absent = false
  exited : o.arbitration.exited = exited
  steady : o.arbitration.Steady
  stopping : l.stopping = o.arbitration.stopping
  agrees : o.arbitration.Agrees l.state
  live : ¬ (l.state.status = .exited ∨ l.state.status = .stopped)

/-- The commands that the observer takes no notice of, unless a trigger is being
    handled. -/
def BodyCmd.unnoticed {β : Type} : BodyCmd β → Bool
  | .signal _ | .startKill | .tryWait | .stopExists | .removeStop | .persistState _ => false
  | _ => true

variable {terms : Terms} {exited : Bool} {l : Locals} {o : Ledger}

theorem Arbitration.Steady.trigger_start {a : Arbitration} (h : a.Steady) (reading : Nat) :
    a.trigger.map (·.start reading) = a.trigger := by
  cases htrigger : a.trigger with
  | none => rfl
  | some trigger =>
    have hstarted := h.started trigger htrigger
    obtain ⟨reason, graceMs, startedAt⟩ := trigger
    cases startedAt with
    | none => cases hstarted
    | some startedAt => rfl

theorem arbitrate_unnoticed (habsent : o.absent = false) (hsteady : o.arbitration.Steady)
    {β : Type} {c : BodyCmd β} (hc : c.unnoticed) (b : β) :
    o.arbitrate terms c b = o.arbitration := by
  cases c with
  | now => simp [Ledger.arbitrate, habsent]
  | instant => simp only [Ledger.arbitrate, hsteady.trigger_start]
  | signal _ => cases hc
  | startKill => cases hc
  | tryWait => cases hc
  | removeStop => cases hc
  | _ => rfl

theorem Guided.of_arbitration (h : Guided terms exited l o) {o' : Ledger}
    (harbitration : o'.arbitration = o.arbitration) (habsent : o'.absent = false) :
    Guided terms exited l o' where
  graceMs := h.graceMs
  deadlineAtMs := h.deadlineAtMs
  absent := habsent
  exited := by rw [harbitration, h.exited]
  steady := by rw [harbitration]; exact h.steady
  stopping := by rw [harbitration, h.stopping]
  agrees := by rw [harbitration]; exact h.agrees
  live := h.live

theorem Arbitration.Steady.bounded {a : Arbitration} (h : a.Steady) : a.Bounded where
  signals := by
    rw [h.signals]
    split <;> omega
  triggered hsignals := by
    rw [h.signals] at hsignals
    by_contra hnone
    simp [hnone] at hsignals
  kills := h.kills
  forced reading hreading := by
    obtain ⟨trigger, htrigger, hforced⟩ := h.forced reading hreading
    refine ⟨?_, trigger, htrigger, hforced⟩
    rw [h.signals, Option.mem_def.mp htrigger]
    rfl

/-- Where no document has just been written, there is nothing to say of one. -/
theorem Arbitration.Bounded.arbitrated (h : o.arbitration.Bounded) (hwritten : o.written = none) :
    o.Arbitrated :=
  ⟨h, by simp [hwritten], by simp [hwritten]⟩

section Loop

variable [Toolchain]

theorem note_written (terms : Terms) (o : Ledger) {β : Type} {c : BodyCmd β} (hc : c.unnoticed)
    (b : β) :
    (o.note terms c b).written = none ∧ (o.note terms c b).absent = false := by
  cases c <;> first | exact ⟨rfl, rfl⟩ | cases hc

/-- The interface that keeps the ledger. -/
abbrev arbitrating (terms : Terms) : Interface BodyCmd Ledger :=
  .observed (fun o _ c b => o.note terms c b) Ledger.Arbitrated

theorem guided_keeps (l : Locals) :
    (arbitrating terms).Keeps BodyCmd.unnoticed (Guided terms exited l) := by
  rintro β c hc o _ b _ h rfl rfl
  have harbitration : (o.note terms c b).arbitration = o.arbitration :=
    arbitrate_unnoticed h.absent h.steady hc b
  have ⟨hwritten, habsent⟩ := note_written terms o hc b
  exact ⟨Arbitration.Bounded.arbitrated (harbitration ▸ h.steady.bounded) hwritten,
    h.of_arbitration harbitration habsent⟩

/-! ## The capture of output -/

theorem guidedOutput : OutputFrame (arbitrating terms) (Guided terms exited) (fun _ _ _ => True) where
  command c hc l o o' b o'' h hrely hs := by
    have hunnoticed : c.unnoticed := by cases c <;> first | rfl | cases hc
    exact guided_keeps l c hunnoticed h hrely hs
  logs logs h := { h with }
  readiness tracker readiness h :=
    { h with agrees := ⟨h.agrees.graceMs, h.agrees.requested, h.agrees.runtimeLimit⟩ }
  appendFailed _ _ _ _ := trivial
  drainTimeout _ := trivial

/-! ## Documents -/

/-- The assertion that nothing is claimed of errors. -/
abbrev anyError : AppError → Locals → Ledger → Prop := fun _ _ _ => True

theorem wp_unnoticed {β : Type} {c : BodyCmd β} (hc : c.unnoticed) (h : Guided terms exited l o) :
    Proc.wp (arbitrating terms) (Proc.call c) (fun _ l' o' => l' = l ∧ Guided terms exited l o')
      anyError l o :=
  Proc.wp_call_keeps (guided_keeps l) hc h

theorem wp_unnoticed_attempt {β : Type} {c : BodyCmd (Except AppError β)} (hc : c.unnoticed)
    (h : Guided terms exited l o) :
    Proc.wp (arbitrating terms) (Proc.attempt c) (fun _ l' o' => l' = l ∧ Guided terms exited l o')
      anyError l o :=
  Proc.wp_attempt_keeps (guided_keeps l) hc (fun _ _ _ => trivial) h

/-- The updates of the locals that arbitration does not depend on. -/
structure Locals.Alike (l l' : Locals) : Prop where
  spec : l'.spec = l.spec
  stopping : l'.stopping = l.stopping
  status : l'.state.status = l.state.status
  limits : l'.state.limits = l.state.limits
  graceMs : l'.state.cleanup.graceMs = l.state.cleanup.graceMs
  requestedAtMs : l'.state.cleanup.requestedAtMs = l.state.cleanup.requestedAtMs

omit [Toolchain] in
theorem Guided.alike (h : Guided terms exited l o) {l' : Locals} (hl : l.Alike l') :
    Guided terms exited l' o where
  graceMs := by rw [hl.spec, h.graceMs]
  deadlineAtMs := by rw [hl.limits, h.deadlineAtMs]
  absent := h.absent
  exited := h.exited
  steady := h.steady
  stopping := by rw [hl.stopping, h.stopping]
  agrees := ⟨by rw [hl.graceMs, h.agrees.graceMs], by rw [hl.requestedAtMs, h.agrees.requested],
    by rw [hl.limits, h.agrees.runtimeLimit]⟩
  live := by rw [hl.status]; exact h.live

theorem wp_touchGuided (h : Guided terms exited l o) :
    Proc.wp (arbitrating terms) touch (fun _ => Guided terms exited) anyError l o := by
  refine Proc.wp_seq _ (wp_unnoticed rfl h) ?_
  rintro now _ o ⟨rfl, h⟩
  simp only [Proc.wp_modify_iff]
  exact h.alike ⟨rfl, rfl, rfl, rfl, rfl, rfl⟩

theorem wp_markStateWriteGuided (h : Guided terms exited l o) :
    Proc.wp (arbitrating terms) markStateWrite (fun _ => Guided terms exited) anyError l o := by
  refine Proc.wp_seq _ (wp_unnoticed rfl h) ?_
  rintro now _ o ⟨rfl, h⟩
  simp only [Proc.wp_modify_iff]
  exact h.alike ⟨rfl, rfl, rfl, rfl, rfl, rfl⟩

/-- The documents of the loop agree with the trigger. -/
theorem wp_persistGuided (h : Guided terms exited l o) :
    Proc.wp (arbitrating terms) persistState (fun _ => Guided terms exited) anyError l o := by
  simp only [persistState, Proc.wp_get_bind]
  refine Proc.wp_attempt ?_
  rintro _ rfl r _ rfl
  refine ⟨⟨h.steady.bounded, ?_, ?_⟩, ?_⟩
  · rintro _ ⟨⟩
    exact h.agrees
  · rintro _ ⟨⟩ hended
    exact absurd hended h.live
  · cases r with
    | error e => exact trivial
    | ok _ => exact h.of_arbitration rfl rfl

theorem wp_pollGuided (h : Guided terms exited l o) :
    Proc.wp (arbitrating terms) pollReadiness (fun _ => Guided terms exited) anyError l o := by
  refine Proc.wp_seq _ (wp_unnoticed rfl h) ?_
  rintro inputs _ o ⟨rfl, h⟩
  simp only [Proc.wp_get_bind, Proc.wp_modify_bind, Proc.wp_pure_iff]
  exact h.alike ⟨rfl, rfl, rfl, rfl, rfl, rfl⟩

theorem wp_persistReadinessGuided (changed : Bool) (h : Guided terms exited l o) :
    Proc.wp (arbitrating terms) (persistReadiness changed) (fun _ => Guided terms exited) anyError
      l o := by
  unfold persistReadiness
  split
  · refine Proc.wp_seq _ (wp_touchGuided h) fun _ l o h => ?_
    exact Proc.wp_seq _ (wp_persistGuided h) fun _ l o h => wp_markStateWriteGuided h
  · exact Proc.wp_pure h

theorem wp_snapshotGuided (h : Guided terms exited l o) :
    Proc.wp (arbitrating terms) snapshotIfDue (fun _ => Guided terms exited) anyError l o := by
  refine Proc.wp_seq _ (wp_unnoticed rfl h) ?_
  rintro now _ o ⟨rfl, h⟩
  simp only [Proc.wp_get_bind]
  split
  · simp only [Proc.wp_modify_bind]
    refine Proc.wp_seq _ (wp_touchGuided (h.alike ⟨rfl, rfl, rfl, rfl, rfl, rfl⟩)) fun _ l o h => ?_
    exact Proc.wp_seq _ (wp_persistGuided h) fun _ l o h => wp_markStateWriteGuided h
  · exact Proc.wp_pure h

/-! ## The first trigger -/

/-- A trigger has been accepted, and the child knows nothing of it yet. -/
structure Deciding (terms : Terms) (reason : ExitReason) (graceMs : Nat) (l : Locals) (o : Ledger) :
    Prop where
  spec : l.spec.runtimeGraceMs = terms.graceMs
  deadlineAtMs : l.state.limits.runtimeDeadlineAtMs = terms.deadlineAtMs
  absent : o.absent = false
  arbitration : o.arbitration = { trigger := some { reason, graceMs } }

/-- A document tells of a trigger that has just been accepted. -/
structure Announces (reason : ExitReason) (graceMs : Nat) (state : RunState) : Prop where
  status : state.status = .stopping
  graceMs : state.cleanup.graceMs = some graceMs
  requested : state.cleanup.requestedAtMs.isSome
  runtimeLimit : state.limits.runtimeLimitTriggeredAtMs.isSome ↔ reason = .runtimeLimit

variable {reason : ExitReason} {graceMs : Nat}

/-- The commands that change nothing between the trigger and the signal. -/
theorem wp_acceptedNow (h : Deciding terms reason graceMs l o) :
    Proc.wp (arbitrating terms) (Proc.call .now)
      (fun _ l' o' => l' = l ∧ Deciding terms reason graceMs l o') anyError l o := by
  refine Proc.wp_call ?_
  rintro _ rfl now _ rfl
  have harbitration : (o.note terms .now now).arbitration = o.arbitration := by
    simp [Ledger.arbitrate, h.absent]
  have hbounded : o.arbitration.Bounded := by
    rw [h.arbitration]
    exact ⟨by simp, by simp, by simp, by simp⟩
  exact ⟨Arbitration.Bounded.arbitrated (harbitration ▸ hbounded) rfl, rfl,
    ⟨h.spec, h.deadlineAtMs, rfl, harbitration.trans h.arbitration⟩⟩

/-- The reading from which the grace counts. -/
theorem wp_startGrace (l₁ : Locals) (hspec : l₁.spec.runtimeGraceMs = terms.graceMs)
    (hdeadline : l₁.state.limits.runtimeDeadlineAtMs = terms.deadlineAtMs)
    (hstate : Announces reason graceMs l₁.state)
    (harbitration : o.arbitration = { trigger := some { reason, graceMs }, signals := 1 }) :
    Proc.wp (arbitrating terms)
      (Proc.call .instant >>= fun now =>
        pure { deadline := now + graceMs, forceSent := false, reason })
      (fun stopping l' o' => Guided terms false { l' with stopping := some stopping } o')
      anyError l₁ o := by
  refine Proc.wp_seq (fun now l' o' => l' = l₁ ∧ o'.absent = false ∧
    o'.arbitration = { trigger := some { reason, graceMs, startedAt := some now }, signals := 1 })
    ?_ ?_
  · refine Proc.wp_call ?_
    rintro _ rfl now _ rfl
    have hstarted : (o.note terms .instant now).arbitration =
        { trigger := some { reason, graceMs, startedAt := some now }, signals := 1 } := by
      simp [Ledger.arbitrate, harbitration, Trigger.start]
    refine ⟨Arbitration.Bounded.arbitrated ?_ rfl, rfl, rfl, hstarted⟩
    rw [hstarted]
    exact ⟨le_rfl, fun _ => rfl, Nat.zero_le _, nofun⟩
  rintro now _ o ⟨rfl, habsent, hstarted⟩
  refine Proc.wp_pure ⟨hspec, hdeadline, habsent, ?_, ?_, ?_, ?_, ?_⟩
  · rw [hstarted]
  · rw [hstarted]
    exact ⟨by rintro _ ⟨⟩; rfl, rfl, Nat.zero_le _, nofun⟩
  · rw [hstarted]
    rfl
  · rw [hstarted]
    refine ⟨hstate.graceMs, by simp [hstate.requested], ?_⟩
    simp [hstate.runtimeLimit]
  · simp [hstate.status]

/-- The signal, unless it is too late for it. -/
theorem wp_requestStop (hplatform : Toolchain.platform = .unix)
    (h : Deciding terms reason graceMs l o) (hstate : Announces reason graceMs l.state) :
    Proc.wp (arbitrating terms) (requestStop graceMs reason)
      (fun stopping l' o' => Guided terms false { l' with stopping := some stopping } o')
      anyError l o := by
  simp only [requestStop, Proc.wp_modify_bind]
  rw [hplatform]
  simp only
  refine Proc.wp_seq (fun _ l' o' => l' = { l with
      state := { l.state with cleanup := { l.state.cleanup with
        descendantCleanupTriggered := true } } } ∧
    o'.arbitration = { trigger := some { reason, graceMs }, signals := 1 }) ?_ ?_
  · refine Proc.wp_call ?_
    rintro _ rfl r _ rfl
    have hsignalled : (o.note terms (.signal 15) r).arbitration =
        { trigger := some { reason, graceMs }, signals := 1 } := by
      simp [Ledger.arbitrate, h.arbitration]
    refine ⟨Arbitration.Bounded.arbitrated ?_ rfl, rfl, hsignalled⟩
    rw [hsignalled]
    exact ⟨le_rfl, fun _ => rfl, Nat.zero_le _, fun _ h => by cases h⟩
  rintro r _ o ⟨rfl, hsignalled⟩
  have hgrace := wp_startGrace { l with
      state := { l.state with cleanup := { l.state.cleanup with
        descendantCleanupTriggered := true } } } h.spec h.deadlineAtMs
    ⟨hstate.status, hstate.graceMs, hstate.requested, hstate.runtimeLimit⟩ hsignalled
  cases r with
  | ok u => exact hgrace
  | error e =>
    simp only
    split
    · exact hgrace
    · exact Proc.wp_throw trivial

/-- A trigger ends with the first document that tells of it. -/
theorem wp_persistTrigger (hplatform : Toolchain.platform = .unix)
    (h : Deciding terms reason graceMs l o) (hstate : Announces reason graceMs l.state) :
    Proc.wp (arbitrating terms) (requestStop graceMs reason >>= fun stopping => do
        Proc.modify fun l => { l with stopping := some stopping }
        persistState) (fun _ => Guided terms false) anyError l o := by
  refine Proc.wp_seq _ (wp_requestStop hplatform h hstate) fun stopping l o h => ?_
  simp only [Proc.wp_modify_bind]
  exact wp_persistGuided h

theorem wp_acceptStopObserved (hplatform : Toolchain.platform = .unix) (request : StopRequest)
    (h : Deciding terms .stopRequested request.graceMs l o)
    (hlimit : l.state.limits.runtimeLimitTriggeredAtMs = none) :
    Proc.wp (arbitrating terms) (acceptStop request) (fun _ => Guided terms false) anyError l o := by
  simp only [acceptStop, touch, Proc.wp_modify_bind]
  refine Proc.wp_bind (Proc.wp_bind (Proc.wp_mono
    (wp_acceptedNow ⟨h.spec, h.deadlineAtMs, h.absent, h.arbitration⟩) ?_ fun _ _ _ => id))
  rintro now _ o ⟨rfl, h⟩
  simp only [Proc.wp_modify_iff, Proc.wp_modify_bind]
  exact wp_persistTrigger hplatform ⟨h.spec, h.deadlineAtMs, h.absent, h.arbitration⟩
    ⟨rfl, rfl, rfl, by simp [hlimit]⟩

theorem wp_expireRuntimeObserved (hplatform : Toolchain.platform = .unix)
    (h : Deciding terms .runtimeLimit terms.graceMs l o) :
    Proc.wp (arbitrating terms) expireRuntime (fun _ => Guided terms false) anyError l o := by
  refine Proc.wp_seq _ (wp_acceptedNow h) ?_
  rintro now _ o ⟨rfl, h⟩
  simp only [Proc.wp_get_bind, Proc.wp_modify_bind, h.spec]
  exact wp_persistTrigger hplatform ⟨h.spec, h.deadlineAtMs, h.absent, h.arbitration⟩
    ⟨rfl, rfl, rfl, by simp⟩

/-! ## Watching -/

omit [Toolchain] in
/-- While nothing stops the child, nothing has been accepted. -/
theorem Guided.watching (h : Guided terms false l o) (hnone : l.stopping = none) :
    o.arbitration = {} := by
  have htrigger : o.arbitration.trigger = none := by
    cases htrigger : o.arbitration.trigger with
    | none => rfl
    | some trigger =>
      obtain ⟨startedAt, hstarted⟩ :=
        Option.isSome_iff_exists.mp (h.steady.started trigger htrigger)
      have hstopping := h.stopping
      simp [hnone, Arbitration.stopping, htrigger, hstarted] at hstopping
  have hsignals := h.steady.signals
  have hforced := h.steady.forced
  have hexited := h.exited
  generalize o.arbitration = a at htrigger hsignals hforced hexited
  obtain ⟨trigger, signals, kills, exited⟩ := a
  obtain rfl : trigger = none := htrigger
  obtain rfl : signals = 0 := hsignals
  obtain rfl : exited = false := hexited
  cases kills with
  | nil => rfl
  | cons reading kills =>
    obtain ⟨_, htrigger, -⟩ := hforced reading List.mem_cons_self
    cases htrigger

omit [Toolchain] in
theorem steady_empty : ({} : Arbitration).Steady := ⟨nofun, rfl, Nat.zero_le _, nofun⟩

/-- Nothing has been accepted. -/
def Ledger.Idle (o : Ledger) : Prop := o.absent = false ∧ o.arbitration = {}

theorem idle_keeps : (arbitrating terms).Keeps BodyCmd.unnoticed Ledger.Idle := by
  rintro β c hc o _ b _ ⟨habsent, hempty⟩ rfl rfl
  have hsteady : o.arbitration.Steady := hempty ▸ steady_empty
  have harbitration : (o.note terms c b).arbitration = o.arbitration :=
    arbitrate_unnoticed habsent hsteady hc b
  have ⟨hwritten, habsent⟩ := note_written terms o hc b
  exact ⟨Arbitration.Bounded.arbitrated (harbitration ▸ hsteady.bounded) hwritten, habsent,
    harbitration.trans hempty⟩

theorem wp_readStopJsonObserved {σ : Type} {s : σ} (h : o.Idle) :
    Proc.wp (arbitrating terms) (readStopJson terms.path)
      (fun request s' o' => s' = s ∧ o'.Idle ∧ o'.request = some request)
      (fun _ s' o' => s' = s ∧ o'.Idle) s o := by
  refine Proc.wp_seq _ (Proc.wp_attempt_keeps idle_keeps rfl (fun _ _ h => ⟨rfl, h⟩) h) ?_
  rintro _ _ o ⟨rfl, h⟩
  refine Proc.wp_seq _ (Proc.wp_attempt_keeps idle_keeps rfl (fun _ _ h => ⟨rfl, h⟩) h) ?_
  rintro file _ o ⟨rfl, h⟩
  refine Proc.wp_bind (Proc.wp_attempt ?_)
  rintro _ rfl r _ rfl
  have hkeeps : (arbitrating terms).Keeps _ _ := idle_keeps
  have ⟨hgood, h'⟩ := hkeeps (.readStop file) rfl (b := r) h rfl rfl
  refine ⟨hgood, ?_⟩
  cases r with
  | error e => exact ⟨rfl, h'⟩
  | ok bytes =>
    refine Proc.wp_ofExcept (fun request hrequest => ⟨rfl, h', ?_⟩) fun _ _ => ⟨rfl, h'⟩
    simp [hrequest, Except.toOption]

theorem wp_readStopRequestObserved {σ : Type} {s : σ} {spec : SupervisorSpec} (h : o.Idle) :
    Proc.wp (arbitrating terms) (readStopRequest terms.path spec)
      (fun r s' o' => s' = s ∧
        match r with
        | some request => o'.absent = false ∧
            o'.arbitration =
              { trigger := some { reason := .stopRequested, graceMs := request.graceMs } }
        | none => o'.absent ∧ o'.arbitration = {})
      (fun _ _ _ => True) s o := by
  refine Proc.wp_seq (fun r s' o' => s' = s ∧ o'.Idle ∧ ∀ request, r = .ok request →
    o'.request = some request) (Proc.wp_outcome (Proc.wp_mono (wp_readStopJsonObserved h) ?_ ?_)) ?_
  · rintro request _ o ⟨rfl, h, hrequest⟩
    exact ⟨rfl, h, by rintro _ ⟨⟩; exact hrequest⟩
  · rintro e _ o ⟨rfl, h⟩
    exact ⟨rfl, h, nofun⟩
  rintro r _ o ⟨rfl, h, hrequest⟩
  cases r with
  | ok request =>
    refine Proc.wp_bind (Proc.wp_ofExcept (fun _ _ => ?_) fun _ _ => trivial)
    refine Proc.wp_bind (Proc.wp_attempt ?_)
    rintro _ rfl r _ rfl
    cases r with
    | error e =>
      refine ⟨Arbitration.Bounded.arbitrated ?_ rfl, trivial⟩
      simpa [Ledger.arbitrate, h.2] using steady_empty.bounded
    | ok u =>
      have haccepted : (o.note terms .removeStop (.ok u)).arbitration =
          { trigger := some { reason := .stopRequested, graceMs := request.graceMs } } := by
        simp [Ledger.arbitrate, hrequest request rfl, h.2, Arbitration.accept]
      refine ⟨Arbitration.Bounded.arbitrated ?_ rfl, Proc.wp_pure ⟨rfl, rfl, haccepted⟩⟩
      rw [haccepted]
      exact ⟨Nat.zero_le _, fun h => absurd rfl h, Nat.zero_le _, nofun⟩
  | error e =>
    simp only
    split
    · refine Proc.wp_bind (Proc.wp_call ?_)
      rintro _ rfl found _ rfl
      have hsame : (o.note terms .stopExists found).arbitration = {} := h.2
      refine ⟨Arbitration.Bounded.arbitrated (hsame ▸ steady_empty.bounded) rfl, ?_⟩
      cases found with
      | true => exact Proc.wp_throw trivial
      | false => exact Proc.wp_pure ⟨rfl, rfl, hsame⟩
    · exact Proc.wp_throw trivial

theorem wp_deadlineExpiredObserved (habsent : o.absent) (hempty : o.arbitration = {})
    (hdeadline : l.state.limits.runtimeDeadlineAtMs = terms.deadlineAtMs) :
    Proc.wp (arbitrating terms) deadlineExpired
      (fun expired l' o' => l' = l ∧
        if expired then o'.absent = false ∧
          o'.arbitration = { trigger := some { reason := .runtimeLimit, graceMs := terms.graceMs } }
        else o'.arbitration = {})
      anyError l o := by
  simp only [deadlineExpired, Proc.wp_get_bind, hdeadline]
  cases hterms : terms.deadlineAtMs with
  | none => exact Proc.wp_pure ⟨rfl, hempty⟩
  | some deadline =>
    refine Proc.wp_bind (Proc.wp_call ?_)
    rintro _ rfl now _ rfl
    by_cases hpast : deadline ≤ now
    · have haccepted : (o.note terms .now now).arbitration =
          { trigger := some { reason := .runtimeLimit, graceMs := terms.graceMs } } := by
        simp [Ledger.arbitrate, habsent, hterms, hpast, hempty, Arbitration.accept]
      refine ⟨Arbitration.Bounded.arbitrated ?_ rfl, Proc.wp_pure ⟨rfl, ?_⟩⟩
      · rw [haccepted]
        exact ⟨Nat.zero_le _, fun h => absurd rfl h, Nat.zero_le _, fun _ h => by cases h⟩
      · rw [if_pos (by simpa using hpast)]
        exact ⟨rfl, haccepted⟩
    · have hsame : (o.note terms .now now).arbitration = {} := by
        simp [Ledger.arbitrate, hterms, hpast, hempty]
      refine ⟨Arbitration.Bounded.arbitrated (hsame ▸ steady_empty.bounded) rfl,
        Proc.wp_pure ⟨rfl, ?_⟩⟩
      rw [if_neg (by simpa using hpast)]
      exact hsame

/-- The watch for triggers. The ledger may still hold that there was no stop
    request. -/
theorem wp_watchTriggersObserved (hplatform : Toolchain.platform = .unix)
    (h : Guided terms false l o) (hnone : l.stopping = none) :
    Proc.wp (arbitrating terms) (watchTriggers terms.path)
      (fun _ l' o' => Guided terms false l' { o' with absent := false }) anyError l o := by
  have hempty := h.watching hnone
  have hlimit : l.state.limits.runtimeLimitTriggeredAtMs = none := by
    have hagrees := h.agrees.runtimeLimit
    rw [hempty] at hagrees
    simpa using hagrees
  have hfinal : ∀ (l : Locals) (o : Ledger), Guided terms false l o →
      Guided terms false l { o with absent := false } :=
    fun l o h => h.of_arbitration rfl rfl
  simp only [watchTriggers, Proc.wp_get_bind]
  refine Proc.wp_seq _ (wp_readStopRequestObserved ⟨h.absent, hempty⟩) ?_
  rintro r _ o' ⟨rfl, hr⟩
  cases r with
  | some request =>
    refine Proc.wp_mono (wp_acceptStopObserved hplatform request
      ⟨h.graceMs, h.deadlineAtMs, hr.1, hr.2⟩ hlimit) (fun _ => hfinal) fun _ _ _ => id
  | none =>
    refine Proc.wp_seq _ (wp_deadlineExpiredObserved hr.1 hr.2 h.deadlineAtMs) ?_
    rintro expired _ o'' ⟨rfl, hexpired⟩
    cases expired with
    | true =>
      refine Proc.wp_mono (wp_expireRuntimeObserved hplatform
        ⟨h.graceMs, h.deadlineAtMs, hexpired.1, hexpired.2⟩) (fun _ => hfinal) fun _ _ _ => id
    | false => exact Proc.wp_pure (h.of_arbitration (hexpired.trans hempty.symm) rfl)

/-! ## Stopping -/

omit [Toolchain] in
/-- What the supervisor remembers of a trigger, the observer knows. -/
theorem Guided.remembered (h : Guided terms exited l o) {stopping : Stopping}
    (hsome : l.stopping = some stopping) :
    ∃ trigger startedAt, o.arbitration.trigger = some trigger ∧
      trigger.startedAt = some startedAt ∧
      stopping = {
        deadline := startedAt + trigger.graceMs
        forceSent := o.arbitration.kills ≠ []
        reason := trigger.reason } := by
  have hstopping := h.stopping
  rw [hsome, Arbitration.stopping] at hstopping
  obtain ⟨trigger, htrigger, hstopping⟩ := Option.bind_eq_some_iff.mp hstopping.symm
  obtain ⟨startedAt, hstarted, hstopping⟩ := Option.bind_eq_some_iff.mp hstopping
  exact ⟨trigger, startedAt, htrigger, hstarted, (Option.some.inj hstopping).symm⟩

/-- The kill is due: the grace is over by the last reading. -/
theorem wp_forceDueObserved {stopping : Stopping} (h : Guided terms exited l o) :
    Proc.wp (arbitrating terms) (forceDue stopping)
      (fun due l' o' => l' = l ∧ Guided terms exited l o' ∧
        (due → stopping.forceSent = false ∧ stopping.deadline ≤ o'.reading)) anyError l o := by
  unfold forceDue
  split
  · exact Proc.wp_pure ⟨rfl, h, nofun⟩
  · rename_i hsent
    refine Proc.wp_bind (Proc.wp_call ?_)
    rintro _ rfl now _ rfl
    have hkeeps : (arbitrating terms).Keeps _ (Guided terms exited l) := guided_keeps l
    have ⟨hgood, h'⟩ := hkeeps .instant rfl (b := now) h rfl rfl
    refine ⟨hgood, Proc.wp_pure ⟨rfl, h', fun hdue => ?_⟩⟩
    exact ⟨by simpa using hsent, of_decide_eq_true hdue⟩

/-- The kill before the exit, and what the supervisor notes of it. -/
theorem wp_forceKill {stopping : Stopping} (h : Guided terms false l o)
    (hsome : l.stopping = some stopping) (hsent : stopping.forceSent = false)
    (hdue : stopping.deadline ≤ o.reading) :
    Proc.wp (arbitrating terms) startKillTolerant
      (fun _ l' o' => Guided terms false
        { l' with stopping := some { stopping with forceSent := true } } o') anyError l o := by
  obtain ⟨trigger, startedAt, htrigger, hstarted, rfl⟩ := h.remembered hsome
  have hkills : o.arbitration.kills = [] := by simpa using hsent
  refine Proc.wp_seq (fun _ l' o' => Guided terms false { l' with stopping := some {
    deadline := startedAt + trigger.graceMs, forceSent := true, reason := trigger.reason } } o')
    (Proc.wp_call ?_) ?_
  · rintro _ rfl r _ rfl
    have hkilled : (o.note terms .startKill r).arbitration =
        { o.arbitration with kills := [o.reading] } := by
      simp [Ledger.arbitrate, h.exited, hkills]
    have hsteady : (o.note terms .startKill r).arbitration.Steady := by
      rw [hkilled]
      refine ⟨h.steady.started, h.steady.signals, le_rfl, ?_⟩
      intro reading hreading
      obtain rfl := List.mem_singleton.mp hreading
      exact ⟨trigger, htrigger, startedAt, hstarted, hdue⟩
    refine ⟨hsteady.bounded.arbitrated rfl, h.graceMs, h.deadlineAtMs, rfl, ?_, hsteady, ?_, ?_,
      h.live⟩
    · rw [hkilled]
      exact h.exited
    · rw [hkilled]
      simp [Arbitration.stopping, htrigger, hstarted]
    · rw [hkilled]
      exact ⟨h.agrees.graceMs, h.agrees.requested, h.agrees.runtimeLimit⟩
  · intro r l o h
    cases r with
    | ok u => exact Proc.wp_pure h
    | error e =>
      simp only
      split
      · exact Proc.wp_pure h
      · exact Proc.wp_throw trivial

theorem wp_enforceStopObserved {stopping : Stopping} (h : Guided terms false l o)
    (hsome : l.stopping = some stopping) :
    Proc.wp (arbitrating terms) (enforceStop stopping) (fun _ => Guided terms false) anyError l o := by
  refine Proc.wp_seq _ (wp_forceDueObserved h) ?_
  rintro due _ o ⟨rfl, h, hdue⟩
  cases due with
  | false => exact Proc.wp_pure h
  | true =>
    have ⟨hsent, hpast⟩ := hdue rfl
    refine Proc.wp_seq _ (wp_forceKill h hsome hsent hpast) fun killed l o h => ?_
    have hrest : ∀ l : Locals, Guided terms false l o →
        Proc.wp (arbitrating terms) (touch >>= fun _ => persistState) (fun _ => Guided terms false)
          anyError l o :=
      fun l h => Proc.wp_seq _ (wp_touchGuided h) fun _ l o h => wp_persistGuided h
    cases killed with
    | false =>
      simp only [Bool.false_eq_true, if_false, Proc.wp_modify_bind]
      exact hrest _ (h.alike ⟨rfl, rfl, rfl, rfl, rfl, rfl⟩)
    | true =>
      simp only [if_true, Proc.wp_modify_bind]
      exact hrest _ (h.alike ⟨rfl, rfl, rfl, rfl, rfl, rfl⟩)

theorem wp_superviseStopObserved (hplatform : Toolchain.platform = .unix)
    (h : Guided terms false l o) :
    Proc.wp (arbitrating terms) (superviseStop terms.path)
      (fun _ l' o' => Guided terms false l' { o' with absent := false }) anyError l o := by
  simp only [superviseStop, Proc.wp_get_bind]
  cases hstopping : l.stopping with
  | none => exact wp_watchTriggersObserved hplatform h hstopping
  | some stopping =>
    exact Proc.wp_mono (wp_enforceStopObserved h hstopping)
      (fun _ l o h => h.of_arbitration rfl rfl) fun _ _ _ => id

/-! ## The exit -/

theorem wp_tryWaitObserved (h : Guided terms false l { o with absent := false }) :
    Proc.wp (arbitrating terms) tryWaitRetry
      (fun status l' o' => Guided terms status.isSome l' o') anyError l o := by
  refine Proc.wp_repeatUntil (fun l o => Guided terms false l { o with absent := false })
    (fun l o h => ?_) h
  refine Proc.wp_bind (Proc.wp_call ?_)
  rintro _ rfl r _ rfl
  have hgood : ∀ status, (o.arbitrate terms .tryWait (.ok status)).Bounded := by
    intro status
    cases status with
    | none => exact h.steady.bounded
    | some status => exact ⟨h.steady.bounded.signals, h.steady.bounded.triggered,
        h.steady.bounded.kills, h.steady.bounded.forced⟩
  cases r with
  | ok status =>
    refine ⟨(hgood status).arbitrated rfl, Proc.wp_pure ?_⟩
    cases status with
    | none => exact h.of_arbitration rfl rfl
    | some status =>
      exact ⟨h.graceMs, h.deadlineAtMs, rfl, rfl,
        ⟨h.steady.started, h.steady.signals, h.steady.kills, h.steady.forced⟩, h.stopping,
        ⟨h.agrees.graceMs, h.agrees.requested, h.agrees.runtimeLimit⟩, h.live⟩
  | error e =>
    refine ⟨Arbitration.Bounded.arbitrated h.steady.bounded rfl, ?_⟩
    simp only
    split
    · exact Proc.wp_pure (h.of_arbitration rfl rfl)
    · exact Proc.wp_throw trivial

/-- After the exit, kills no longer count. -/
theorem wp_killRemainingObserved (h : Guided terms true l o) :
    Proc.wp (arbitrating terms) killRemaining (fun _ => Guided terms true) anyError l o := by
  refine Proc.wp_seq (fun _ => Guided terms true) (Proc.wp_bind (Proc.wp_call ?_)) ?_
  · rintro _ rfl r _ rfl
    have hsame : (o.note terms .startKill r).arbitration = o.arbitration := by
      simp [Ledger.arbitrate, h.exited]
    have h' : Guided terms true l (o.note terms .startKill r) := h.of_arbitration hsame rfl
    refine ⟨Arbitration.Bounded.arbitrated (hsame ▸ h.steady.bounded) rfl, ?_⟩
    cases r with
    | ok u => exact Proc.wp_pure h'
    | error e =>
      simp only
      split
      · exact Proc.wp_pure h'
      · exact Proc.wp_throw trivial
  · intro killed l o h
    cases killed with
    | false => exact Proc.wp_pure h
    | true =>
      simp only [if_true, Proc.wp_modify_iff]
      exact h.alike ⟨rfl, rfl, rfl, rfl, rfl, rfl⟩

theorem wp_finishLogsObserved (h : Guided terms exited l o) :
    Proc.wp (arbitrating terms) finishLogs (fun _ => Guided terms exited) anyError l o := by
  simp only [finishLogs, Proc.wp_modify_bind]
  refine Proc.wp_seq _ (wp_unnoticed_attempt rfl (h.alike ⟨rfl, rfl, rfl, rfl, rfl, rfl⟩)) ?_
  rintro _ _ o ⟨rfl, h⟩
  simp only [Proc.wp_modify_iff]
  exact h.alike ⟨rfl, rfl, rfl, rfl, rfl, rfl⟩

theorem wp_releaseLeasesObserved (h : Guided terms exited l o) :
    Proc.wp (arbitrating terms) releaseLeases (fun _ => Guided terms exited) anyError l o := by
  simp only [releaseLeases, Proc.wp_get_bind]
  have hregistry : Proc.wp (arbitrating terms) (releaseRegistry l.leases)
      (fun _ l' o' => l' = l ∧ Guided terms exited l o') anyError l o := by
    unfold releaseRegistry
    split
    · exact Proc.wp_pure ⟨rfl, h⟩
    · refine Proc.wp_seq _ (wp_unnoticed_attempt rfl h) ?_
      rintro _ _ o ⟨rfl, h⟩
      exact Proc.wp_pure ⟨rfl, h⟩
  refine Proc.wp_seq _ hregistry ?_
  rintro leases _ o ⟨rfl, h⟩
  simp only [Proc.wp_modify_bind]
  refine Proc.wp_seq _ (wp_unnoticed rfl (h.alike ⟨rfl, rfl, rfl, rfl, rfl, rfl⟩)) ?_
  rintro now _ o ⟨rfl, h⟩
  simp only [Proc.wp_modify_iff]
  exact h.alike ⟨rfl, rfl, rfl, rfl, rfl, rfl⟩

/-- The state a run ends with tells of the trigger. -/
theorem Guided.ends (h : Guided terms true l o) (exitStatus : ExitStatus) (finishedAtMs : Nat) :
    o.arbitration.Agrees (finalState l.state l.stopping exitStatus finishedAtMs) ∧
      o.arbitration.Ends (finalState l.state l.stopping exitStatus finishedAtMs) := by
  obtain ⟨hstopped, hreason⟩ : l.stopping.isSome = o.arbitration.trigger.isSome ∧
      l.stopping.elim ExitReason.processExited (·.reason) =
        o.arbitration.trigger.elim .processExited (·.reason) := by
    rw [h.stopping, Arbitration.stopping]
    cases htrigger : o.arbitration.trigger with
    | none => exact ⟨rfl, rfl⟩
    | some trigger =>
      obtain ⟨startedAt, hstarted⟩ :=
        Option.isSome_iff_exists.mp (h.steady.started trigger htrigger)
      simp [hstarted]
  have hstatus : (finalState l.state l.stopping exitStatus finishedAtMs).status =
      if o.arbitration.trigger.isSome then .stopped else .exited := by
    simp only [finalState, hstopped]
  have hstoppedIff : (finalState l.state l.stopping exitStatus finishedAtMs).status = .stopped ↔
      o.arbitration.trigger.isSome := by
    rw [hstatus]
    split <;> simp_all
  refine ⟨⟨h.agrees.graceMs, h.agrees.requested, h.agrees.runtimeLimit⟩, h.exited, hstatus,
    ?_, ?_, ?_⟩
  · exact ⟨_, rfl, hreason⟩
  · refine h.agrees.runtimeLimit.trans ⟨?_, ?_⟩
    · rintro ⟨trigger, htrigger, hlimit⟩
      refine ⟨_, rfl, hreason.trans ?_⟩
      rw [Option.mem_def.mp htrigger]
      exact hlimit
    · rintro ⟨_, ⟨⟩, hlimit⟩
      have hlimit' := hreason.symm.trans hlimit
      cases htrigger : o.arbitration.trigger with
      | none =>
        rw [htrigger] at hlimit'
        cases hlimit'
      | some trigger =>
        rw [htrigger] at hlimit'
        exact ⟨trigger, rfl, hlimit'⟩
  · exact h.agrees.requested.trans hstoppedIff.symm

/-- What a run that has ended leaves. -/
def Ended (l : Locals) (o : Ledger) : Prop := o.arbitration.Ends l.state ∧ o.Arbitrated

theorem wp_handleExitObserved (exitStatus : ExitStatus) (h : Guided terms true l o) :
    Proc.wp (arbitrating terms) (handleExit exitStatus) (fun _ => Ended) anyError l o := by
  refine Proc.wp_seq _ (wp_killRemainingObserved h) fun _ l o h => ?_
  simp only [Proc.wp_modify_bind]
  refine Proc.wp_seq _ (guidedOutput.wp_drainUntilClosed _
    (h.alike ⟨rfl, rfl, rfl, rfl, rfl, rfl⟩)) fun _ l o h => ?_
  simp only [Proc.wp_modify_bind]
  refine Proc.wp_seq _ (wp_finishLogsObserved
    (h.alike ⟨rfl, rfl, rfl, rfl, rfl, rfl⟩)) fun _ l o h => ?_
  refine Proc.wp_seq _ (wp_releaseLeasesObserved h) fun _ l o h => ?_
  refine Proc.wp_seq _ (wp_touchGuided h) fun _ l o h => ?_
  refine Proc.wp_seq _ (wp_unnoticed rfl h) ?_
  rintro finishedAtMs _ o ⟨rfl, h⟩
  simp only [Proc.wp_modify_bind, persistState, Proc.wp_get_bind]
  obtain ⟨hagrees, hends⟩ := h.ends exitStatus finishedAtMs
  refine Proc.wp_attempt ?_
  rintro _ rfl r _ rfl
  have hgood : ∀ state r, o.arbitration.Agrees state → o.arbitration.Ends state →
      (o.note terms (.persistState state) r).Arbitrated := by
    intro state r hagrees hends
    refine ⟨h.steady.bounded, ?_, ?_⟩
    · rintro _ ⟨⟩
      exact hagrees
    · rintro _ ⟨⟩ _
      exact hends
  refine ⟨hgood _ r hagrees hends, ?_⟩
  cases r with
  | error e => exact trivial
  | ok _ => exact ⟨hends, hgood _ _ hagrees hends⟩

/-! ## The loop -/

theorem wp_superviseRoundObserved (hplatform : Toolchain.platform = .unix)
    (h : Guided terms false l o) :
    Proc.wp (arbitrating terms) (superviseRound terms.path)
      (fun r l' o' => r.elim (Guided terms false l' o') (fun _ => Ended l' o')) anyError l o := by
  refine Proc.wp_seq _ (guidedOutput.wp_drainAvailable h) fun drain l o h => ?_
  refine Proc.wp_seq _ (wp_pollGuided h) fun polled l o h => ?_
  refine Proc.wp_seq _ (wp_persistReadinessGuided _ h) fun _ l o h => ?_
  refine Proc.wp_seq _ (wp_superviseStopObserved hplatform h) fun _ l o h => ?_
  refine Proc.wp_seq _ (wp_tryWaitObserved h) fun status l o h => ?_
  cases status with
  | some exitStatus =>
    exact Proc.wp_seq _ (wp_handleExitObserved exitStatus h) fun _ _ _ h => Proc.wp_pure h
  | none =>
    refine Proc.wp_seq _ (wp_snapshotGuided h) fun _ l o h => ?_
    refine Proc.wp_seq _ (wp_unnoticed rfl h) ?_
    rintro _ _ o ⟨rfl, h⟩
    exact Proc.wp_pure h

/-- The loop is entered so: what a run is created with, its leases populated and
    handed off, and its child spawned. -/
structure Locals.Entered (l : Locals) : Prop where
  stopping : l.stopping = none
  spawned : ∃ (options : StartOptions) (requests : LeaseRequests)
    (createdAtMs updatedAtMs acquiredAtMs : Nat) (process : ProcessInfo) (ports : List ReservedPort)
    (tempPaths : BTreeMap PathBuf) (state : RunState) (environment : List (String × OsString)),
    LeaseAllocation.populateState ports
      { options.initialState requests createdAtMs with status := .starting, updatedAtMs, process }
      acquiredAtMs tempPaths = .ok (state, environment) ∧
    ∃ (handoffAtMs spawnedAtMs updatedAtMs : Nat) (process : ProcessInfo) (deadline : Option Nat),
      l.state = { recordSpawn spawnedAtMs (l.leases.handoffAt handoffAtMs state) with
        status := .running, limits := { state.limits with runtimeDeadlineAtMs := deadline }
        updatedAtMs, process }

theorem Locals.Entered.undisturbed (h : l.Entered) : l.Undisturbed := by
  obtain ⟨hstopping, options, requests, createdAtMs, updatedAtMs, acquiredAtMs, process, ports,
    tempPaths, state, environment, hpopulate, handoffAtMs, spawnedAtMs, updatedAtMs', process',
    deadline, hstate⟩ := h
  have hframe := LeaseAllocation.populateState_frame hpopulate
  have hcleanup : state.cleanup = (options.initialState requests createdAtMs).cleanup := by
    rw [hframe]
  have hlimits : state.limits = (options.initialState requests createdAtMs).limits := by
    rw [hframe]
  have hlcleanup : l.state.cleanup = state.cleanup := by
    rw [hstate]
    rfl
  refine ⟨hstopping, ?_, ?_, ?_, ?_⟩
  · rw [hlcleanup, hcleanup]
    rfl
  · rw [hlcleanup, hcleanup]
    rfl
  · rw [hstate]
    exact congrArg RunLimits.runtimeLimitTriggeredAtMs hlimits
  · have hstatus : l.state.status = .running := by rw [hstate]
    rw [hstatus]
    decide

omit [Toolchain] in
theorem Locals.Undisturbed.guided (h : l.Undisturbed) (path : PathBuf) :
    Guided (l.terms path) false l {} :=
  ⟨rfl, rfl, rfl, rfl, steady_empty, h.stopping,
    ⟨h.graceMs, by simp [h.requestedAtMs], by simp [h.runtimeLimitTriggeredAtMs]⟩, h.live⟩

/-- Whatever happens to a loop that is entered as the supervisor enters it: what the
    observer has seen is arbitrated; after every number of rounds the supervisor goes
    by the first trigger; and where the loop returns, the run has ended as the first
    trigger says. -/
theorem stop_arbitration (hplatform : Toolchain.platform = .unix) (path : PathBuf) (l : Locals)
    (hl : l.Entered ∨ l.Undisturbed) :
    (∀ trace rest, Prog.Emits (Proc.repeatUntil (superviseRound path) l) trace rest →
      (l.observe path trace).Arbitrated) ∧
    (∀ trace l', Proc.Rounds (superviseRound path) l trace l' →
      l'.stopping = (l.observe path trace).arbitration.stopping) ∧
    (∀ trace l', Prog.Emits (Proc.repeatUntil (superviseRound path) l) trace (.ret (.ok (), l')) →
      (l.observe path trace).arbitration.Ends l'.state) := by
  have hl : l.Undisturbed := hl.elim Locals.Entered.undisturbed id
  have hround : ∀ l' o, Guided (l.terms path) false l' o →
      Proc.wp (arbitrating (l.terms path)) (superviseRound path)
        (fun r l' o' => r.elim (Guided (l.terms path) false l' o') (fun _ => Ended l' o'))
        anyError l' o :=
    fun l' o h => wp_superviseRoundObserved hplatform h
  have hgood : ({} : Ledger).Arbitrated := steady_empty.bounded.arbitrated rfl
  have hloop : Proc.wp (arbitrating (l.terms path)) (Proc.repeatUntil (superviseRound path))
      (fun _ => Ended) anyError l {} :=
    Proc.wp_repeatUntil _ hround (hl.guided path)
  refine ⟨fun trace rest h => (h.wp hloop hgood).1, fun trace l' h => ?_, fun trace l' h => ?_⟩
  · exact (h.invariant hround (hl.guided path) hgood).stopping
  · exact (Prog.wp_ret_elim (h.wp hloop hgood).2).1

end Loop

end Procherd

namespace Procherd.Reference

open Interaction

/-- A child whose runtime ends at 50. -/
def running : Locals :=
  { spec := options.spec ⟨[], []⟩ 0
    state := { options.initialState ⟨[], []⟩ 0 with
      status := .running
      limits := { (options.initialState ⟨[], []⟩ 0).limits with
        maxRuntimeMs := some 50, runtimeDeadlineAtMs := some 50 } }
    leases := { runId := options.runId, ports := [] }
    logs := .create options.maxLogBytes }

theorem stop_arbitration_running :
    (∀ trace rest,
      Prog.Emits (Proc.repeatUntil (superviseRound (.ofString "/run")) running) trace rest →
      (running.observe (.ofString "/run") trace).Arbitrated) ∧
    (∀ trace l', Proc.Rounds (superviseRound (.ofString "/run")) running trace l' →
      l'.stopping = (running.observe (.ofString "/run") trace).arbitration.stopping) ∧
    (∀ trace l', Prog.Emits (Proc.repeatUntil (superviseRound (.ofString "/run")) running) trace
        (.ret (.ok (), l')) →
      (running.observe (.ofString "/run") trace).arbitration.Ends l'.state) :=
  stop_arbitration rfl _ running (.inr ⟨rfl, rfl, rfl, rfl, by decide⟩)

end Procherd.Reference
