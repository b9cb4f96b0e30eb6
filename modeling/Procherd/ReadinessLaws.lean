-- SUMMARY: The readiness state machine: what holds after any sequence of log observations, polls and exits, and what one call may change.
import Procherd.Readiness
import Mathlib.Data.List.Forall2

/-!
# The laws of readiness

`observe_log`, `poll` and `process_exited` in any order, with any bytes, any
readings of the clock and any results of the probes. A check advances at most
once, from unready to ready with evidence; the status leaves `pending` at most
once.
-/

namespace Procherd

/-! ## Checks -/

/-- A check stays as it is, or becomes ready together with its evidence. -/
def ReadinessCheck.Advances (check check' : ReadinessCheck) : Prop :=
  check' = check ∨ (check.readyAtMs = none ∧ ∃ readyAt evidence,
    check' = { check with readyAtMs := some readyAt, evidence := some evidence })

/-- The timestamp and the evidence of a check are set together. -/
def ReadinessCheck.Paired (check : ReadinessCheck) : Prop :=
  check.readyAtMs.isSome = check.evidence.isSome

namespace ReadinessCheck.Advances

variable {check check' check'' : ReadinessCheck}

theorem refl (check : ReadinessCheck) : check.Advances check := .inl rfl

theorem trans (h : check.Advances check') (h' : check'.Advances check'') :
    check.Advances check'' := by
  rcases h with rfl | ⟨hnone, readyAt, evidence, rfl⟩
  · exact h'
  · rcases h' with rfl | ⟨hnone', -⟩
    · exact .inr ⟨hnone, readyAt, evidence, rfl⟩
    · cases hnone'

theorem eq_of_ready (h : check.Advances check') (hready : check.readyAtMs.isSome) :
    check' = check := by
  rcases h with h | ⟨hnone, -⟩
  · exact h
  · simp [hnone] at hready

theorem id_eq (h : check.Advances check') : check'.id = check.id := by
  rcases h with rfl | ⟨-, _, _, rfl⟩ <;> rfl

theorem condition_eq (h : check.Advances check') : check'.condition = check.condition := by
  rcases h with rfl | ⟨-, _, _, rfl⟩ <;> rfl

theorem paired (h : check.Advances check') (hpaired : check.Paired) : check'.Paired := by
  rcases h with rfl | ⟨-, _, _, rfl⟩
  · exact hpaired
  · rfl

end ReadinessCheck.Advances

/-- What one search of the log does to a check. -/
structure ReadinessCheck.Observed (searchable : Bytes) (check check' : ReadinessCheck) : Prop where
  advances : check.Advances check'
  ready : check'.readyAtMs.isSome ↔ check.readyAtMs.isSome ∨ ∃ literal,
    check.condition = .log literal ∧ containsBytes searchable (literalBytes literal)

theorem observeChecks_observed (stream : LogStream) (searchable : Bytes) (clock : Nat → Nat) (i : Nat)
    (checks : List ReadinessCheck) :
    List.Forall₂ (ReadinessCheck.Observed searchable) checks
      (observeChecks stream searchable clock i checks).1 := by
  induction checks generalizing i with
  | nil => exact .nil
  | cons check rest ih =>
    unfold observeChecks
    split
    · rename_i literal hnone hcondition
      split
      · rename_i hcontains
        refine .cons ⟨.inr ⟨hnone, _, _, rfl⟩, ?_⟩ (ih _)
        exact ⟨fun _ => .inr ⟨literal, hcondition, hcontains⟩, fun _ => rfl⟩
      · rename_i hcontains
        refine .cons ⟨.refl check, ?_⟩ (ih _)
        refine ⟨.inl, fun h => h.resolve_right ?_⟩
        rintro ⟨literal', hcondition', hcontains'⟩
        rw [hcondition] at hcondition'
        cases hcondition'
        exact hcontains hcontains'
    · rename_i hother
      refine .cons ⟨.refl check, ?_⟩ (ih _)
      refine ⟨.inl, fun h => ?_⟩
      rcases h with h | ⟨literal, hcondition, -⟩
      · exact h
      · cases hready : check.readyAtMs with
        | none => exact absurd hcondition (hother literal hready)
        | some readyAt => rfl

theorem observeChecks_changed (stream : LogStream) (searchable : Bytes) (clock : Nat → Nat) (i : Nat)
    (checks : List ReadinessCheck) :
    (observeChecks stream searchable clock i checks).2.2 ↔
      (observeChecks stream searchable clock i checks).1 ≠ checks := by
  induction checks generalizing i with
  | nil => simp [observeChecks]
  | cons check rest ih =>
    unfold observeChecks
    split
    · rename_i literal hnone hcondition
      split
      · simp only [ne_eq, List.cons.injEq, not_and, true_iff]
        intro hcheck
        have := congrArg ReadinessCheck.readyAtMs hcheck
        simp [hnone] at this
      · simpa using ih i
    · simpa using ih i

theorem advances_trans {checks checks' checks'' : List ReadinessCheck}
    (h : List.Forall₂ ReadinessCheck.Advances checks checks')
    (h' : List.Forall₂ ReadinessCheck.Advances checks' checks'') :
    List.Forall₂ ReadinessCheck.Advances checks checks'' := by
  induction h generalizing checks'' with
  | nil => cases h'; exact .nil
  | cons hcheck _ ih =>
    cases h' with
    | cons hcheck' hrest' => exact .cons (hcheck.trans hcheck') (ih hrest')

theorem paired_of_advances {checks checks' : List ReadinessCheck}
    (h : List.Forall₂ ReadinessCheck.Advances checks checks')
    (hpaired : ∀ check ∈ checks, check.Paired) : ∀ check ∈ checks', check.Paired := by
  induction h with
  | nil => exact hpaired
  | cons hcheck _ ih =>
    have ⟨hhead, hrest⟩ := List.forall_mem_cons.mp hpaired
    exact List.forall_mem_cons.mpr ⟨hcheck.paired hhead, ih hrest⟩

theorem conditions_of_advances {checks checks' : List ReadinessCheck}
    (h : List.Forall₂ ReadinessCheck.Advances checks checks') :
    checks'.map (fun check => (check.id, check.condition)) =
      checks.map fun check => (check.id, check.condition) := by
  induction h with
  | nil => rfl
  | cons hcheck _ ih => rw [List.map_cons, List.map_cons, hcheck.id_eq, hcheck.condition_eq, ih]

/-- A single check that becomes ready. -/
theorem advances_set {checks : List ReadinessCheck} {index : Nat} {check : ReadinessCheck}
    (hcheck : checks[index]? = some check) (hnone : check.readyAtMs = none) (readyAt : Nat)
    (evidence : String) :
    List.Forall₂ ReadinessCheck.Advances checks (checks.set index
      { check with readyAtMs := some readyAt, evidence := some evidence }) := by
  induction checks generalizing index with
  | nil => cases hcheck
  | cons head rest ih =>
    cases index with
    | zero =>
      obtain rfl : head = check := Option.some.inj hcheck
      exact .cons (.inr ⟨hnone, readyAt, evidence, rfl⟩) (List.forall₂_same.mpr fun c _ => .refl c)
    | succ index => exact .cons (.refl head) (ih hcheck)

theorem set_ne {checks : List ReadinessCheck} {index : Nat} {check : ReadinessCheck}
    (hcheck : checks[index]? = some check) (hnone : check.readyAtMs = none) (readyAt : Nat)
    (evidence : String) :
    checks.set index { check with readyAtMs := some readyAt, evidence := some evidence } ≠
      checks := by
  intro hsame
  obtain ⟨hindex, -⟩ := List.getElem?_eq_some_iff.mp hcheck
  rw [← hsame, List.getElem?_set_self hindex] at hcheck
  have hready := congrArg ReadinessCheck.readyAtMs (Option.some.inj hcheck)
  rw [hnone] at hready
  cases hready

/-! ## The state -/

/-- What holds of the readiness of a run at any time. -/
structure ReadinessState.Sound (state : ReadinessState) : Prop where
  notConfigured : state.status = .notConfigured ↔ state.checks = []
  paired : ∀ check ∈ state.checks, check.Paired
  ready : state.status = .ready ↔
    state.checks ≠ [] ∧ ∀ check ∈ state.checks, check.readyAtMs.isSome
  readyAt : state.readyAtMs.isSome ↔ state.status = .ready
  failure : state.failureReason.isSome ↔ state.status = .timedOut ∨ state.status = .failed

/-- What a later state keeps of an earlier one. -/
structure ReadinessState.Grows (state state' : ReadinessState) : Prop where
  deadlineAtMs : state'.deadlineAtMs = state.deadlineAtMs
  checks : List.Forall₂ ReadinessCheck.Advances state.checks state'.checks
  settled : state.status ≠ .pending → state' = state

namespace ReadinessState

variable {state state' state'' : ReadinessState}

theorem Grows.refl (state : ReadinessState) : state.Grows state :=
  ⟨rfl, List.forall₂_same.mpr fun check _ => .refl check, fun _ => rfl⟩

theorem Grows.trans (h : state.Grows state') (h' : state'.Grows state'') : state.Grows state'' where
  deadlineAtMs := h'.deadlineAtMs.trans h.deadlineAtMs
  checks := advances_trans h.checks h'.checks
  settled hstatus := by
    obtain rfl := h.settled hstatus
    exact h'.settled hstatus

theorem Grows.pending (h : state.Grows state') (hstatus : state'.status = .pending) :
    state.status = .pending := by
  by_contra hne
  rw [h.settled hne] at hstatus
  exact hne hstatus

/-- A check of the earlier state is still there, and stays once it is ready. -/
theorem Grows.check (h : state.Grows state') {i : Nat} {check : ReadinessCheck}
    (hcheck : state.checks[i]? = some check) :
    ∃ check', state'.checks[i]? = some check' ∧ check.Advances check' := by
  obtain ⟨hi, rfl⟩ := List.getElem?_eq_some_iff.mp hcheck
  have hi' : i < state'.checks.length := h.checks.length_eq ▸ hi
  exact ⟨_, List.getElem?_eq_getElem hi', h.checks.get hi hi'⟩

/-! ## Completion -/

/-- A state that is still pending, apart from the claim that a check is unready. -/
structure Open (state : ReadinessState) : Prop where
  status : state.status = .pending
  checks : state.checks ≠ []
  paired : ∀ check ∈ state.checks, check.Paired
  readyAt : state.readyAtMs = none
  failure : state.failureReason = none

theorem Sound.open (h : state.Sound) (hstatus : state.status = .pending) : state.Open where
  status := hstatus
  checks hnil := by
    rw [h.notConfigured.mpr hnil] at hstatus
    cases hstatus
  paired := h.paired
  readyAt := by
    rw [← Option.not_isSome_iff_eq_none, h.readyAt, hstatus]
    decide
  failure := by
    rw [← Option.not_isSome_iff_eq_none, h.failure, hstatus]
    decide

theorem Open.advance (h : state.Open) {checks : List ReadinessCheck}
    (hchecks : List.Forall₂ ReadinessCheck.Advances state.checks checks) :
    ({ state with checks } : ReadinessState).Open where
  status := h.status
  checks hnil := by
    rw [show checks = [] from hnil, List.forall₂_nil_right_iff] at hchecks
    exact h.checks hchecks
  paired := paired_of_advances hchecks h.paired
  readyAt := h.readyAt
  failure := h.failure

/-- What `finish_if_ready` does to a pending state. -/
theorem finishIfReady_cases (hstatus : state.status = .pending) (now : Nat) :
    ((∀ check ∈ state.checks, check.readyAtMs.isSome) ∧
      finishIfReady state now = ({ state with status := .ready, readyAtMs := some now }, true)) ∨
    ((∃ check ∈ state.checks, check.readyAtMs = none) ∧ finishIfReady state now = (state, false)) := by
  unfold finishIfReady
  split
  · rename_i h
    exact .inl ⟨List.all_eq_true.mp h.2, rfl⟩
  · rename_i h
    refine .inr ⟨?_, rfl⟩
    simpa [hstatus] using h

/-- A pending state that is finished had all its checks ready. -/
theorem finishIfReady_ready {now : Nat} (hstatus : state.status = .pending)
    (hready : (finishIfReady state now).1.status = .ready) :
    (∀ check ∈ state.checks, check.readyAtMs.isSome) ∧
      (finishIfReady state now).1.readyAtMs = some now := by
  obtain ⟨hall, heq⟩ | ⟨-, heq⟩ := finishIfReady_cases hstatus now
  · rw [heq]
    exact ⟨hall, rfl⟩
  · rw [heq] at hready
    exact absurd (hstatus.symm.trans hready) nofun

theorem Open.finish_sound (h : state.Open) (now : Nat) : (finishIfReady state now).1.Sound := by
  rcases finishIfReady_cases h.status now with ⟨hall, heq⟩ | ⟨⟨check, hcheck, hnone⟩, heq⟩
  · rw [heq]
    exact ⟨⟨nofun, fun hnil => absurd hnil h.checks⟩, h.paired, ⟨fun _ => ⟨h.checks, hall⟩, fun _ => rfl⟩,
      ⟨fun _ => rfl, fun _ => rfl⟩, by simp [h.failure]⟩
  · rw [heq]
    refine ⟨?_, h.paired, ?_, ?_, ?_⟩
    · exact ⟨fun hs => absurd (h.status.symm.trans hs) nofun, fun hnil => absurd hnil h.checks⟩
    · refine ⟨fun hs => absurd (h.status.symm.trans hs) nofun, fun hall => ?_⟩
      simpa [hnone] using hall.2 check hcheck
    · simp [h.readyAt, h.status]
    · simp [h.failure, h.status]

theorem finish_checks (now : Nat) : (finishIfReady state now).1.checks = state.checks := by
  unfold finishIfReady
  split <;> rfl

theorem finish_deadline (now : Nat) :
    (finishIfReady state now).1.deadlineAtMs = state.deadlineAtMs := by
  unfold finishIfReady
  split <;> rfl

end ReadinessState

/-! ## Calls -/

/-- What one call does to the state of a tracker. -/
structure ReadinessState.Call (state : ReadinessState) (result : ReadinessState × Bool) : Prop where
  sound : result.1.Sound
  grows : state.Grows result.1
  changed : result.2 ↔ result.1 ≠ state

namespace ReadinessState

variable {state : ReadinessState}

theorem Call.unchanged_of_false {result : ReadinessState × Bool} (h : state.Call result)
    (hresult : result.2 = false) : result.1 = state := by
  by_contra hne
  rw [h.changed.mpr hne] at hresult
  cases hresult

theorem Call.unchanged (h : state.Sound) : state.Call (state, false) :=
  ⟨h, .refl state, by simp⟩

/-- A call that ends a pending readiness without success. -/
theorem Call.fail (h : state.Sound) (hstatus : state.status = .pending) {status : ReadinessStatus}
    (hfail : status = .timedOut ∨ status = .failed) (reason : String) :
    state.Call ({ state with status, failureReason := some reason }, true) := by
  have hopen := h.open hstatus
  refine ⟨⟨?_, h.paired, ?_, ?_, ?_⟩, ⟨rfl, List.forall₂_same.mpr fun check _ => .refl check, ?_⟩, ?_⟩
  · refine ⟨fun hs => ?_, fun hnil => absurd hnil hopen.checks⟩
    obtain rfl : status = .notConfigured := hs
    rcases hfail with hfail | hfail <;> cases hfail
  · refine ⟨fun hs => ?_, fun hall => ?_⟩
    · obtain rfl : status = .ready := hs
      rcases hfail with hfail | hfail <;> cases hfail
    · have hready := h.ready.mpr hall
      rw [hstatus] at hready
      cases hready
  · simp only [hopen.readyAt, Option.isSome_none, Bool.false_eq_true, false_iff]
    rintro rfl
    rcases hfail with hfail | hfail <;> cases hfail
  · simpa using hfail
  · exact fun hne => absurd hstatus hne
  · simp only [ne_eq, true_iff]
    intro heq
    have hreason := congrArg ReadinessState.failureReason heq
    rw [hopen.failure] at hreason
    cases hreason

/-- A call that advances the checks of a pending readiness and completes it if
    they are all ready. -/
theorem Call.advance (h : state.Sound) (hstatus : state.status = .pending)
    {checks : List ReadinessCheck} (changed : Bool) (now : Nat)
    (hchecks : List.Forall₂ ReadinessCheck.Advances state.checks checks)
    (hchanged : changed ↔ checks ≠ state.checks) :
    state.Call ((finishIfReady { state with checks } now).1,
      changed || (finishIfReady { state with checks } now).2) := by
  have hopen := (h.open hstatus).advance hchecks
  refine ⟨hopen.finish_sound now, ⟨finish_deadline now, by rw [finish_checks]; exact hchecks,
    fun hne => absurd hstatus hne⟩, ?_⟩
  rcases finishIfReady_cases (show ({ state with checks } : ReadinessState).status = .pending
    from hstatus) now with
    ⟨-, heq⟩ | ⟨-, heq⟩
  · rw [heq]
    simp only [Bool.or_true, ne_eq, true_iff]
    intro hsame
    have hready := congrArg ReadinessState.status hsame
    rw [hstatus] at hready
    cases hready
  · rw [heq]
    simp only [Bool.or_false, hchanged, ne_eq]
    refine not_congr ⟨?_, fun hsame => congrArg ReadinessState.checks hsame⟩
    rintro rfl
    rfl

end ReadinessState

namespace ReadinessTracker

variable (tracker : ReadinessTracker) {state : ReadinessState}

theorem observeLog_call (h : state.Sound) (stream : LogStream) (bytes : Bytes) (clock : Nat → Nat) :
    state.Call (tracker.observeLog state stream bytes clock).2 := by
  unfold observeLog
  split
  · exact .unchanged h
  · rename_i hstatus
    have hobserved := observeChecks_observed stream (tracker.tail stream ++ bytes) clock 0 state.checks
    exact .advance h (not_not.mp hstatus) _ _ (hobserved.imp fun _ _ hcheck => hcheck.advances)
      (observeChecks_changed _ _ _ _ _)

/-- The check that a poll probes. -/
theorem nextExternalCheck_spec {index : Nat} (h : tracker.nextExternalCheck state = some index) :
    ∃ check, state.checks[index]? = some check ∧ external check := by
  have hfound := List.find?_some h
  cases hcheck : state.checks[index]? with
  | none => simp [hcheck] at hfound
  | some check =>
    rw [hcheck] at hfound
    exact ⟨check, rfl, hfound⟩

/-- What a poll of a pending readiness can do. -/
inductive Polled (state : ReadinessState) (inputs : PollInputs) : ReadinessState × Bool → Prop where
  | timedOut : state.deadlineAtMs.any (fun deadline => decide (deadline ≤ inputs.now)) →
      Polled state inputs
        ({ state with status := .timedOut, failureReason := some "readiness_timeout" }, true)
  | idle : Polled state inputs (state, false)
  | complete : ¬ state.deadlineAtMs.any (fun deadline => decide (deadline ≤ inputs.now)) →
      Polled state inputs (finishIfReady state inputs.readyAt)
  | probed {index : Nat} {check : ReadinessCheck} {evidence : String} :
      ¬ state.deadlineAtMs.any (fun deadline => decide (deadline ≤ inputs.now)) →
      state.checks[index]? = some check → external check →
      inputs.probe check.condition = some evidence →
      Polled state inputs ((finishIfReady { state with
        checks := state.checks.set index { check with
          readyAtMs := some inputs.observedAt, evidence := some evidence } } inputs.readyAt).1, true)

theorem poll_tail (tracker : ReadinessTracker) (state : ReadinessState) (inputs : PollInputs)
    (stream : LogStream) : (tracker.poll state inputs).1.tail stream = tracker.tail stream := by
  unfold poll
  cases stream <;> simp only [tail] <;> repeat' split
  all_goals rfl

theorem poll_polled (hstatus : state.status = .pending) (inputs : PollInputs) :
    Polled state inputs (tracker.poll state inputs).2 := by
  unfold poll
  rw [if_neg (not_not.mpr hstatus)]
  split
  · rename_i hdeadline
    exact .timedOut hdeadline
  rename_i hdeadline
  split
  · exact .idle
  cases hnext : nextExternalCheck { tracker with lastProbe := some inputs.instant } state with
  | none => simpa only [hnext] using .complete hdeadline
  | some index =>
    obtain ⟨check, hcheck, hexternal⟩ := nextExternalCheck_spec _ hnext
    simp only [hnext, hcheck, Option.bind_some]
    split
    · rename_i evidence hevidence
      have hprobe : inputs.probe check.condition = some evidence := by
        split at hevidence
        · cases hevidence
        · cases hevidence
        · exact hevidence
      have hmodify : state.checks.modify index (fun check =>
          { check with readyAtMs := some inputs.observedAt, evidence := some evidence }) =
          state.checks.set index
            { check with readyAtMs := some inputs.observedAt, evidence := some evidence } := by
        rw [List.modify_eq_set_getElem?, hcheck]
        rfl
      rw [hmodify]
      exact .probed hdeadline hcheck hexternal hprobe
    · exact .idle

theorem unready_of_external {check : ReadinessCheck} (h : external check) : check.readyAtMs = none := by
  simp only [external, Bool.and_eq_true] at h
  exact Option.isNone_iff_eq_none.mp h.1

theorem poll_call (h : state.Sound) (inputs : PollInputs) : state.Call (tracker.poll state inputs).2 := by
  by_cases hstatus : state.status = .pending
  · generalize hresult : (tracker.poll state inputs).2 = result
    have hpolled := hresult ▸ tracker.poll_polled hstatus inputs
    cases hpolled with
    | timedOut _ => exact .fail h hstatus (.inl rfl) _
    | idle => exact .unchanged h
    | complete _ =>
      exact .advance h hstatus false _ (List.forall₂_same.mpr fun check _ => .refl check) (by simp)
    | @probed index check evidence _ hcheck hexternal _ =>
      have hnone := unready_of_external hexternal
      have hcall := ReadinessState.Call.advance h hstatus true inputs.readyAt
        (advances_set hcheck hnone inputs.observedAt evidence) ?_
      · rwa [Bool.true_or] at hcall
      · simp only [ne_eq, true_iff]
        exact set_ne hcheck hnone _ _
  · unfold poll
    rw [if_pos hstatus]
    exact .unchanged h

theorem processExited_call (h : state.Sound) : state.Call (processExited state) := by
  unfold processExited
  split
  · exact .unchanged h
  · rename_i hstatus
    exact .fail h (not_not.mp hstatus) (.inr rfl) _

end ReadinessTracker

/-! ## Sequences of calls -/

inductive ReadinessEvent where
  | observeLog (stream : LogStream) (bytes : Bytes) (clock : Nat → Nat)
  | poll (inputs : PollInputs)
  | processExited

abbrev Readiness := ReadinessTracker × ReadinessState

namespace ReadinessEvent

/-- One call, with what it returns. -/
def apply : ReadinessEvent → Readiness → Readiness × Bool
  | .observeLog stream bytes clock, (tracker, state) =>
    let (tracker, state, changed) := tracker.observeLog state stream bytes clock
    ((tracker, state), changed)
  | .poll inputs, (tracker, state) =>
    let (tracker, state, changed) := tracker.poll state inputs
    ((tracker, state), changed)
  | .processExited, (tracker, state) =>
    let (state, changed) := ReadinessTracker.processExited state
    ((tracker, state), changed)

/-- A sequence of calls. -/
def run (readiness : Readiness) (events : List ReadinessEvent) : Readiness :=
  events.foldl (fun readiness event => (event.apply readiness).1) readiness

theorem run_append (readiness : Readiness) (first rest : List ReadinessEvent) :
    run readiness (first ++ rest) = run (run readiness first) rest :=
  List.foldl_append

theorem apply_call {readiness : Readiness} (h : readiness.2.Sound) (event : ReadinessEvent) :
    readiness.2.Call ((event.apply readiness).1.2, (event.apply readiness).2) := by
  cases event with
  | observeLog stream bytes clock => exact ReadinessTracker.observeLog_call _ h stream bytes clock
  | poll inputs => exact ReadinessTracker.poll_call _ h inputs
  | processExited => exact ReadinessTracker.processExited_call h

theorem run_sound {readiness : Readiness} (h : readiness.2.Sound) (events : List ReadinessEvent) :
    (run readiness events).2.Sound ∧ readiness.2.Grows (run readiness events).2 := by
  induction events generalizing readiness with
  | nil => exact ⟨h, .refl _⟩
  | cons event events ih =>
    have hcall := apply_call h event
    have ⟨hsound, hgrows⟩ := ih hcall.sound
    exact ⟨hsound, hcall.grows.trans hgrows⟩

end ReadinessEvent

theorem ReadinessState.new_sound (conditions : List ReadinessCondition) (timeoutMs createdAtMs : Nat) :
    (ReadinessState.new conditions timeoutMs createdAtMs).Sound := by
  cases conditions with
  | nil => constructor <;> simp [ReadinessState.new]
  | cons condition conditions =>
    have hunready : ∀ check ∈ (ReadinessState.new (condition :: conditions) timeoutMs
        createdAtMs).checks, check.readyAtMs = none ∧ check.evidence = none := by
      intro check hcheck
      obtain ⟨i, hi, rfl⟩ := List.mem_mapIdx.mp hcheck
      exact ⟨rfl, rfl⟩
    refine ⟨by simp [ReadinessState.new], fun check hcheck => ?_, ?_, by simp [ReadinessState.new],
      by simp [ReadinessState.new]⟩
    · rw [ReadinessCheck.Paired, (hunready check hcheck).1, (hunready check hcheck).2]
      rfl
    · refine ⟨nofun, fun hall => ?_⟩
      obtain ⟨check, hcheck⟩ := List.exists_mem_of_ne_nil _ hall.1
      have hready := hall.2 check hcheck
      rw [(hunready check hcheck).1] at hready
      cases hready

/-! ## The state machine -/

/-- What the status of a readiness says of the rest of it. -/
structure ReadinessState.Lawful (state : ReadinessState) : Prop where
  notConfigured : state.status = .notConfigured ↔ state.checks = []
  pending : state.status = .pending → ∃ check ∈ state.checks, check.readyAtMs = none
  ready : state.status = .ready ↔ state.checks ≠ [] ∧
    ∀ check ∈ state.checks, check.readyAtMs.isSome ∧ check.evidence.isSome
  readyAt : state.status = .ready → state.readyAtMs.isSome ∧ state.failureReason = none
  ended : state.status = .timedOut ∨ state.status = .failed →
    (∃ check ∈ state.checks, check.readyAtMs = none) ∧ state.failureReason.isSome ∧
      state.readyAtMs = none

/-- What a later state of a readiness may differ in from an earlier one. -/
structure ReadinessState.Follows (state state' : ReadinessState) : Prop where
  /-- Once the status is not `pending`, nothing changes. -/
  settled : state.status ≠ .pending → state' = state
  conditions : state'.checks.map (fun check => (check.id, check.condition)) =
    state.checks.map fun check => (check.id, check.condition)
  /-- A check changes only while it has neither a timestamp nor evidence. -/
  checks : ∀ (i : Nat) (check : ReadinessCheck), state.checks[i]? = some check →
    check.readyAtMs.isSome ∨ check.evidence.isSome → state'.checks[i]? = some check

namespace ReadinessState

variable {state state' : ReadinessState}

theorem Sound.unready (h : state.Sound) (hready : state.status ≠ .ready)
    (hconfigured : state.status ≠ .notConfigured) : ∃ check ∈ state.checks, check.readyAtMs = none := by
  by_contra hall
  simp only [not_exists, not_and] at hall
  refine hready (h.ready.mpr ⟨fun hnil => hconfigured (h.notConfigured.mpr hnil), ?_⟩)
  exact fun check hcheck => Option.isSome_iff_ne_none.mpr (hall check hcheck)

theorem Sound.lawful (h : state.Sound) : state.Lawful where
  notConfigured := h.notConfigured
  pending hstatus := h.unready (by rw [hstatus]; decide) (by rw [hstatus]; decide)
  ready := by
    rw [h.ready]
    refine and_congr_right fun _ => forall₂_congr fun check hcheck => ?_
    rw [← h.paired check hcheck, and_self]
  readyAt hstatus := by
    refine ⟨h.readyAt.mpr hstatus, ?_⟩
    rw [← Option.not_isSome_iff_eq_none, h.failure, hstatus]
    decide
  ended hstatus := by
    have hne : state.status ≠ .ready ∧ state.status ≠ .notConfigured := by
      rcases hstatus with hstatus | hstatus <;> rw [hstatus] <;> decide
    refine ⟨h.unready hne.1 hne.2, h.failure.mpr hstatus, ?_⟩
    rw [← Option.not_isSome_iff_eq_none, h.readyAt]
    exact hne.1

theorem Grows.follows (h : state.Grows state') (hsound : state.Sound) : state.Follows state' where
  settled := h.settled
  conditions := conditions_of_advances h.checks
  checks i check hcheck hset := by
    obtain ⟨check', hcheck', hadvances⟩ := h.check hcheck
    have hpaired := hsound.paired check (List.mem_of_getElem? hcheck)
    have hready : check.readyAtMs.isSome := by
      rcases hset with hready | hevidence
      · exact hready
      · exact hpaired.trans hevidence
    rw [hcheck', hadvances.eq_of_ready hready]

end ReadinessState

/-- The readiness of a run is lawful after any sequence of calls; later calls
    change it only as `Follows` says; and a call reports exactly its changes. -/
theorem readiness_laws (conditions : List ReadinessCondition) (timeoutMs createdAtMs : Nat)
    (first rest : List ReadinessEvent) (event : ReadinessEvent) :
    let readiness := ReadinessEvent.run (.new, .new conditions timeoutMs createdAtMs)
    (readiness first).2.Lawful ∧ (readiness first).2.Follows (readiness (first ++ rest)).2 ∧
      ((event.apply (readiness first)).2 ↔
        (event.apply (readiness first)).1.2 ≠ (readiness first).2) := by
  intro readiness
  have hsound : (readiness first).2.Sound :=
    (ReadinessEvent.run_sound (ReadinessState.new_sound conditions timeoutMs createdAtMs) first).1
  refine ⟨hsound.lawful, ?_, (ReadinessEvent.apply_call hsound event).changed⟩
  simp only [readiness, ReadinessEvent.run_append]
  exact (ReadinessEvent.run_sound hsound rest).2.follows hsound

end Procherd
