-- SUMMARY: The supervisor over `state.json`: how the state that it holds continues the document on disk, and what a write of it promises.
import Procherd.LogView
import Procherd.LogMatching

/-!
# The document view

Between two writes the supervisor holds a state that continues the document on
disk: it is of the same run, its readiness has at most advanced, and the
literals of its ready log checks occur in the output received so far. A write
makes this state the document.

What is said about time holds under an assumption `timely` on the clock and on
when the evidence arrives; everything else holds without it.
-/

namespace Procherd

open Interaction

/-! ## One document after another -/

/-- What identifies a run and its leases. -/
structure RunState.SameIdentity (old state : RunState) : Prop where
  schemaVersion : state.schemaVersion = old.schemaVersion
  runId : state.runId = old.runId
  names : state.leases.names = old.leases.names

theorem RunState.SameIdentity.refl (state : RunState) : state.SameIdentity state := ⟨rfl, rfl, rfl⟩

theorem RunState.SameIdentity.trans {s₁ s₂ s₃ : RunState} (h : s₁.SameIdentity s₂)
    (h' : s₂.SameIdentity s₃) : s₁.SameIdentity s₃ :=
  ⟨h'.schemaVersion.trans h.schemaVersion, h'.runId.trans h.runId, h'.names.trans h.names⟩

/-- What the writer keeps of each stream. -/
def retainedBytes (maxBytes : Nat) (chunks : List LogChunk) (stream : LogStream) : Bytes :=
  streamBytes stream (retained maxBytes chunks)

/-- The literals of the ready log checks occur in `content`. -/
def ReadinessState.Evidenced (content : LogStream → Bytes) (readiness : ReadinessState) : Prop :=
  ∀ check ∈ readiness.checks, ∀ literal, check.condition = .log literal →
    check.readyAtMs.isSome → Occurs literal content

/-- A readiness that is pending in `old` and ready now became so before its
    deadline, and not before `old` was written. -/
def Punctual (old : RunState) (readiness : ReadinessState) : Prop :=
  old.readiness.status = .pending → readiness.status = .ready →
    ∃ readyAtMs deadlineAtMs, readiness.readyAtMs = some readyAtMs ∧
      readiness.deadlineAtMs = some deadlineAtMs ∧ readyAtMs < deadlineAtMs ∧
      old.updatedAtMs ≤ readyAtMs

/-- How a document follows the one that it replaces. -/
structure RunState.Succeeds (timely : Prop) (content : LogStream → Bytes) (old state : RunState) :
    Prop where
  identity : old.SameIdentity state
  settled : old.readiness.status ≠ .pending → state.readiness = old.readiness
  configured : old.readiness.status = .pending → state.readiness.status ≠ .notConfigured
  deadlineAtMs : state.readiness.deadlineAtMs = old.readiness.deadlineAtMs
  logs : ∀ check ∈ state.readiness.checks, ∀ literal, check.condition = .log literal →
    ∃ check' ∈ old.readiness.checks, check'.condition = .log literal
  evidenced : state.readiness.Evidenced content
  complete : state.status.complete → state.readiness.status ≠ .pending
  failed : state.status = .failed → state.readiness = old.readiness
  clocked : timely → old.updatedAtMs ≤ state.updatedAtMs
  punctual : timely → Punctual old state.readiness

/-! ## The view -/

/-- What the supervisor sees of its document. -/
structure DocumentView where
  document : Option RunState
  spec : Option SupervisorSpec
  received : List LogChunk

def World.documentView (w : World) : DocumentView :=
  { document := w.state?, spec := w.specJson, received := w.received }

/-- The evidence for a check is there: the literal in the output, or what the
    document says of another check. -/
def ReadinessCheck.Evident (content : LogStream → Bytes) (check : ReadinessCheck) : Prop :=
  match check.condition with
  | .log literal => Occurs literal content
  | _ => check.readyAtMs.isSome

namespace DocumentView

/-- The clock does not go behind the document. -/
def Clocked (o : DocumentView) (now : Nat) : Prop :=
  ∀ state, o.document = some state → state.updatedAtMs ≤ now

/-- The newest chunk, if it completes the evidence for a pending readiness, is
    observed before the deadline. -/
def TimelyChunk (maxBytes : Nat) (o : DocumentView) (clock : Nat → Nat) : Prop :=
  ∀ state, o.document = some state → state.readiness.status = .pending →
    (¬ ∀ check ∈ state.readiness.checks,
      check.Evident (retainedBytes maxBytes o.received.dropLast)) →
    (∀ check ∈ state.readiness.checks, check.Evident (retainedBytes maxBytes o.received)) →
    ∀ deadlineAtMs, state.readiness.deadlineAtMs = some deadlineAtMs → ∀ i, clock i < deadlineAtMs

/-- A probe that supplies the last evidence for a pending readiness, and starts
    before the deadline, has ended before it. -/
def TimelyProbe (maxBytes : Nat) (o : DocumentView) (inputs : PollInputs) : Prop :=
  ∀ state, o.document = some state → state.readiness.status = .pending →
    ∀ (index : Nat) (check : ReadinessCheck), state.readiness.checks[index]? = some check →
    ReadinessTracker.external check → (inputs.probe check.condition).isSome →
    (∀ (j : Nat) (other : ReadinessCheck), j ≠ index → state.readiness.checks[j]? = some other →
      other.Evident (retainedBytes maxBytes o.received)) →
    ∀ deadlineAtMs, state.readiness.deadlineAtMs = some deadlineAtMs → inputs.now < deadlineAtMs →
    inputs.readyAt < deadlineAtMs

/-- What a receiving call does. -/
def Receives (o : DocumentView) : Received → DocumentView → Prop
  | .chunk chunk, o' => o' = { o with received := o.received ++ [chunk] }
  | _, o' => o' = o

def step (maxBytes : Nat) (timely : Prop) : {β : Type} → BodyCmd β → DocumentView → β →
    DocumentView → Prop
  | _, .persistState state, o, r, o' =>
    (r = .ok () ∧ o' = { o with document := some state }) ∨
      ∃ e, r = .error e ∧ (o' = o ∨ o' = { o with document := some state })
  | _, .readSpec, o, r, o' => o' = o ∧ ∀ spec, r = .ok spec → o.spec = some spec
  | _, .readState, o, r, o' => o' = o ∧ ∀ state, r = .ok state → o.document = some state
  | _, .removeSpec, o, _, o' => ∃ spec, o' = { o with spec }
  | _, .now, o, now, o' => o' = o ∧ (timely → o.Clocked now)
  | _, .clock, o, clock, o' =>
    o' = o ∧ (timely → (∀ i, o.Clocked (clock i)) ∧ o.TimelyChunk maxBytes clock)
  | _, .pollReadiness, o, inputs, o' =>
    o' = o ∧ (timely → o.Clocked inputs.readyAt ∧ o.TimelyProbe maxBytes inputs)
  | _, .tryRecv, o, r, o' => o.Receives r o'
  | _, .recvTimeout _, o, r, o' => o.Receives r o'
  | _, _, o, _, o' => o' = o

def guar (maxBytes : Nat) (timely : Prop) : {β : Type} → BodyCmd β → DocumentView → Prop
  | _, .persistState state, o => ∃ old, o.document = some old ∧
      old.Succeeds timely (retainedBytes maxBytes o.received) state
  | _, _, _ => True

abbrev interface (maxBytes : Nat) (timely : Prop) : Interface BodyCmd DocumentView :=
  .isolated (step maxBytes timely) fun c o _ _ => guar maxBytes timely c o

/-- The commands that leave the view alone. -/
def quiet {β : Type} : BodyCmd β → Bool
  | .persistState _ | .removeSpec | .tryRecv | .recvTimeout _ => false
  | _ => true

variable {maxBytes : Nat} {timely : Prop} {o : DocumentView}

theorem keeps_quiet : (interface maxBytes timely).Keeps quiet fun o' => o' = o := by
  rintro β c hc _ _ b o'' rfl rfl hs
  cases c <;> first | exact ⟨trivial, hs.1⟩ | exact ⟨trivial, hs⟩ | cases hc

theorem quiet_of_control {β : Type} {c : BodyCmd β} (hc : c.control) : quiet c := by
  cases c <;> first | rfl | cases hc

variable {σ α : Type} {s : σ} {E : AppError → σ → DocumentView → Prop}

theorem wp_call {c : BodyCmd α} (hc : quiet c) {Q : α → σ → DocumentView → Prop}
    (h : ∀ a, Q a s o) : Proc.wp (interface maxBytes timely) (Proc.call c) Q E s o := by
  refine Proc.wp_mono (Proc.wp_call_keeps keeps_quiet hc rfl) ?_ fun _ _ _ => id
  rintro a _ _ ⟨rfl, rfl⟩
  exact h a

theorem wp_attempt {c : BodyCmd (Except AppError α)} (hc : quiet c)
    {Q : α → σ → DocumentView → Prop} (h : ∀ a, Q a s o) (hE : ∀ e, E e s o) :
    Proc.wp (interface maxBytes timely) (Proc.attempt c) Q E s o := by
  refine Proc.wp_mono (Proc.wp_attempt_keeps keeps_quiet hc (fun e _ ho => ho ▸ hE e) rfl) ?_
    fun _ _ _ => id
  rintro a _ _ ⟨rfl, rfl⟩
  exact h a

theorem wp_now {Q : Nat → σ → DocumentView → Prop} (h : ∀ now, (timely → o.Clocked now) → Q now s o) :
    Proc.wp (interface maxBytes timely) (Proc.call .now) Q E s o := by
  apply Proc.wp_call
  rintro _ rfl now _ ⟨rfl, hnow⟩
  exact ⟨trivial, h now hnow⟩

theorem wp_persist {old state : RunState} {Q : Unit → σ → DocumentView → Prop}
    (ho : o.document = some old)
    (hnext : old.Succeeds timely (retainedBytes maxBytes o.received) state)
    (hQ : Q () s { o with document := some state }) (hE : ∀ e, E e s o)
    (hE' : ∀ e, E e s { o with document := some state }) :
    Proc.wp (interface maxBytes timely) (Proc.attempt (.persistState state)) Q E s o := by
  apply Proc.wp_attempt
  rintro _ rfl r o' hs
  refine ⟨⟨old, ho, hnext⟩, ?_⟩
  obtain ⟨rfl, rfl⟩ | ⟨e, rfl, rfl | rfl⟩ := hs
  · exact hQ
  · exact hE e
  · exact hE' e

end DocumentView

/-! ## One observation -/

/-- Only a log check is ahead of the document. -/
def ReadinessCheck.AdvancesByLog (check check' : ReadinessCheck) : Prop :=
  check' = check ∨ (check.Advances check' ∧ ∃ literal, check.condition = .log literal)

theorem ReadinessCheck.AdvancesByLog.trans {check check' check'' : ReadinessCheck}
    (h : check.AdvancesByLog check') (h' : check'.AdvancesByLog check'') :
    check.AdvancesByLog check'' := by
  rcases h with rfl | ⟨hadvances, literal, hlog⟩
  · exact h'
  rcases h' with rfl | ⟨hadvances', -⟩
  · exact .inr ⟨hadvances, literal, hlog⟩
  · exact .inr ⟨hadvances.trans hadvances', literal, hlog⟩

/-- If the log checks are decided by `content`, the evidence for a check is there
    exactly if it is ready. -/
theorem ReadinessCheck.AdvancesByLog.evident_iff {check check' : ReadinessCheck}
    {content : LogStream → Bytes} (h : check.AdvancesByLog check')
    (hexact : ∀ literal, check'.condition = .log literal →
      (check'.readyAtMs.isSome ↔ Occurs literal content)) :
    check.Evident content ↔ check'.readyAtMs.isSome := by
  have hcondition : check'.condition = check.condition := by
    rcases h with rfl | ⟨hadvances, -⟩
    · rfl
    · exact hadvances.condition_eq
  unfold ReadinessCheck.Evident
  split
  · rename_i literal hlog
    exact (hexact literal (hcondition.trans hlog)).symm
  · rename_i hother
    obtain rfl | ⟨-, literal, hlog⟩ := h
    · rfl
    · exact absurd hlog (hother literal)

def LogsAhead (old readiness : ReadinessState) : Prop :=
  List.Forall₂ ReadinessCheck.AdvancesByLog old.checks readiness.checks

theorem LogsAhead.refl (readiness : ReadinessState) : LogsAhead readiness readiness :=
  List.forall₂_same.mpr fun _ _ => .inl rfl

theorem LogsAhead.trans {r₁ r₂ r₃ : ReadinessState} (h : LogsAhead r₁ r₂) (h' : LogsAhead r₂ r₃) :
    LogsAhead r₁ r₃ := by
  unfold LogsAhead at *
  generalize r₁.checks = xs at h
  generalize r₂.checks = ys at h h'
  generalize r₃.checks = zs at h'
  induction h generalizing zs with
  | nil => cases h'; exact .nil
  | cons hcheck _ ih =>
    cases h' with
    | cons hcheck' hrest' => exact .cons (hcheck.trans hcheck') (ih _ hrest')

/-- A check of the later state, and what the earlier one says of it. -/
theorem LogsAhead.check {old readiness : ReadinessState} (h : LogsAhead old readiness) {i : Nat}
    {check : ReadinessCheck} (hcheck : old.checks[i]? = some check) :
    ∃ check', readiness.checks[i]? = some check' ∧ check.AdvancesByLog check' := by
  obtain ⟨hi, rfl⟩ := List.getElem?_eq_some_iff.mp hcheck
  have hi' : i < readiness.checks.length := h.length_eq ▸ hi
  exact ⟨_, List.getElem?_eq_getElem hi', h.get hi hi'⟩

theorem ReadinessCheck.Observed.advancesByLog {searchable : Bytes} {check check' : ReadinessCheck}
    (h : check.Observed searchable check') : check.AdvancesByLog check' := by
  rcases h.advances with rfl | ⟨hnone, readyAt, evidence, rfl⟩
  · exact .inl rfl
  rcases h.ready.mp rfl with hready | ⟨literal, hlog, -⟩
  · rw [hnone] at hready
    cases hready
  · exact .inr ⟨h.advances, literal, hlog⟩

namespace ReadinessTracker

variable (tracker : ReadinessTracker) {state : ReadinessState}

theorem observeLog_logsAhead (stream : LogStream) (bytes : Bytes) (clock : Nat → Nat) :
    LogsAhead state (tracker.observeLog state stream bytes clock).2.1 := by
  by_cases hstatus : state.status = .pending
  · obtain ⟨-, i, hstate⟩ := tracker.observeLog_pending hstatus stream bytes clock
    rw [hstate, LogsAhead, ReadinessState.finish_checks]
    exact (observeChecks_observed stream (tracker.tail stream ++ bytes) clock 0 state.checks).imp
      fun _ _ h => h.advancesByLog
  · rw [observeLog_settled hstatus]
    exact .refl state

/-- An observation that completes the readiness does so at one of its readings
    of the clock. -/
theorem observeLog_ready (hstatus : state.status = .pending) (stream : LogStream) (bytes : Bytes)
    (clock : Nat → Nat) (hready : (tracker.observeLog state stream bytes clock).2.1.status = .ready) :
    ∃ i, (tracker.observeLog state stream bytes clock).2.1.readyAtMs = some (clock i) := by
  obtain ⟨-, i, hstate⟩ := tracker.observeLog_pending hstatus stream bytes clock
  rw [hstate] at hready ⊢
  exact ⟨i, (ReadinessState.finishIfReady_ready (by exact hstatus) hready).2⟩

/-- A poll that completes the readiness does so with the probe of one check,
    before which all the others are ready. -/
theorem poll_ready (h : state.Sound) (hstatus : state.status = .pending) (inputs : PollInputs)
    (hready : (tracker.poll state inputs).2.1.status = .ready) :
    (tracker.poll state inputs).2.1.readyAtMs = some inputs.readyAt ∧
      (∀ deadlineAtMs, state.deadlineAtMs = some deadlineAtMs → inputs.now < deadlineAtMs) ∧
      ∃ index check, state.checks[index]? = some check ∧ external check ∧
        (inputs.probe check.condition).isSome ∧
        ∀ (j : Nat) (other : ReadinessCheck), j ≠ index → state.checks[j]? = some other →
          other.readyAtMs.isSome := by
  generalize hresult : (tracker.poll state inputs).2 = result at hready ⊢
  have hpolled := hresult ▸ tracker.poll_polled hstatus inputs
  cases hpolled with
  | timedOut _ => cases hready
  | idle => exact absurd (hstatus.symm.trans hready) nofun
  | complete _ =>
    -- A pending readiness lacks a check, so there is nothing to complete.
    obtain ⟨check, hcheck, hnone⟩ := h.unready (by rw [hstatus]; decide) (by rw [hstatus]; decide)
    have hsome := (ReadinessState.finishIfReady_ready hstatus hready).1 check hcheck
    rw [hnone] at hsome
    cases hsome
  | @probed index check evidence hdeadline hcheck hexternal hprobe =>
    obtain ⟨hall, hreadyAt⟩ := ReadinessState.finishIfReady_ready (by exact hstatus) hready
    refine ⟨hreadyAt, fun deadlineAtMs hsome => ?_, index, check, hcheck, hexternal, ?_, ?_⟩
    · simpa [hsome] using hdeadline
    · rw [hprobe]
      rfl
    · intro j other hj hother
      refine hall other (List.mem_of_getElem? (i := j) ?_)
      rwa [List.getElem?_set_ne (Ne.symm hj)]

end ReadinessTracker

end Procherd
