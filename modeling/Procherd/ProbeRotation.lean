-- SUMMARY: The rotation of probes: which check a poll probes, and that no external check which stays unready is passed over for a whole round.
import Procherd.ReadinessLaws
import Procherd.Interaction.Rotation

/-!
# The rotation of probes

A poll probes one check and starts the next search behind it. Between two probes
other checks may become ready, by a probe or by the log. The eligible indices of
the rotation are those of the unready external checks; they only become fewer.
-/

namespace Procherd

namespace ReadinessTracker

/-! ## The check that is probed -/

/-- The check that a poll probes, if it gets that far. -/
def probeIndex (tracker : ReadinessTracker) (state : ReadinessState) (inputs : PollInputs) :
    Option Nat :=
  if state.status ≠ .pending then none
  else if state.deadlineAtMs.any (fun deadline => decide (deadline ≤ inputs.now)) then none
  else if tracker.lastProbe.any
      (fun last => decide (inputs.elapsedNow - last < PROBE_INTERVAL)) then none
  else tracker.nextExternalCheck state

/-- `next_external_check` with the remainder and the index as the source takes
    them: `none` where it would panic. -/
def checkedNextExternalCheck (tracker : ReadinessTracker) (state : ReadinessState) :
    Option (Option Nat) :=
  let count := state.checks.length
  (List.range count).findSomeM? fun offset => do
    let index ← if count = 0 then none else some ((tracker.nextProbeIndex + offset) % count)
    let check ← state.checks[index]?
    return if external check then some index else none

/-- The indices that `next_external_check` looks for. -/
def eligible (state : ReadinessState) (index : Nat) : Bool := (state.checks[index]?).any external

variable (tracker : ReadinessTracker) (state : ReadinessState) (inputs : PollInputs)

theorem nextExternalCheck_eq : tracker.nextExternalCheck state =
    Rotation.next state.checks.length (eligible state) tracker.nextProbeIndex := rfl

theorem probeIndex_spec {index : Nat} (h : tracker.probeIndex state inputs = some index) :
    Rotation.next state.checks.length (eligible state) tracker.nextProbeIndex = some index := by
  unfold probeIndex at h
  split at h
  · cases h
  split at h
  · cases h
  split at h
  · cases h
  · exact h

/-- The next search starts behind the check that was probed. -/
theorem poll_nextProbeIndex : (tracker.poll state inputs).1.nextProbeIndex =
    ((tracker.probeIndex state inputs).map (· + 1)).getD tracker.nextProbeIndex := by
  unfold poll probeIndex
  split
  · rfl
  split
  · rfl
  split
  · rfl
  change _ =
    ((nextExternalCheck { tracker with lastProbe := some inputs.instant } state).map _).getD _
  simp only
  cases nextExternalCheck { tracker with lastProbe := some inputs.instant } state with
  | none => rfl
  | some index =>
    simp only [Option.map_some, Option.getD_some]
    split <;> rfl

/-- A poll asks for no other probe than that of this check. -/
theorem poll_probe {probe : ReadinessCondition → Option String}
    (h : ∀ index ∈ tracker.probeIndex state inputs, ∀ check ∈ state.checks[index]?,
      probe check.condition = inputs.probe check.condition) :
    tracker.poll state { inputs with probe } = tracker.poll state inputs := by
  unfold poll probeIndex at *
  split
  · rfl
  split
  · rfl
  split
  · rfl
  rename_i hstatus hdeadline hlast
  rw [if_neg hstatus, if_neg hdeadline, if_neg hlast] at h
  change ∀ index ∈ nextExternalCheck { tracker with lastProbe := some inputs.instant } state, _ at h
  simp only
  cases hnext : nextExternalCheck { tracker with lastProbe := some inputs.instant } state with
  | none => rfl
  | some index =>
    cases hcheck : state.checks[index]? with
    | none => simp only [hcheck, Option.bind_none]
    | some check =>
      have hsame := h index hnext check hcheck
      obtain ⟨id, condition, readyAtMs, evidence⟩ := check
      simp only at hsame
      cases condition <;> simp only [hcheck, Option.bind_some, hsame]

/-- What this probe finds is what the check is ready with. -/
theorem poll_probed {index : Nat} {check : ReadinessCheck} {evidence : String}
    (hindex : tracker.probeIndex state inputs = some index)
    (hcheck : state.checks[index]? = some check)
    (hprobe : inputs.probe check.condition = some evidence) :
    (tracker.poll state inputs).2.1.checks[index]? =
      some { check with readyAtMs := some inputs.observedAt, evidence := some evidence } := by
  have hexternal : external check := by
    obtain ⟨-, heligible⟩ := Rotation.next_spec (probeIndex_spec _ _ _ hindex)
    simpa [eligible, hcheck] using heligible
  unfold probeIndex at hindex
  unfold poll
  split at hindex
  · cases hindex
  rename_i hstatus
  split at hindex
  · cases hindex
  rename_i hdeadline
  split at hindex
  · cases hindex
  rename_i hlast
  rw [if_neg hstatus, if_neg hdeadline, if_neg hlast]
  change nextExternalCheck { tracker with lastProbe := some inputs.instant } state = _ at hindex
  obtain ⟨id, condition, readyAtMs, found⟩ := check
  simp only [hindex, hcheck, Option.bind_some]
  cases condition with
  | log literal => simp [external] at hexternal
  | portLease name => simp [external] at hexternal
  | _ =>
    simp only at hprobe
    simp only [hprobe, ReadinessState.finish_checks, List.getElem?_modify_eq, hcheck,
      Option.map_eq_map, Option.map_some]

/-- A poll asks for the probe of a check and for no other: what it finds is what the
    check is ready with, and no other probe makes a difference. -/
structure Asks (asked : Option Nat) : Prop where
  found {index : Nat} {check : ReadinessCheck} {evidence : String} : asked = some index →
    state.checks[index]? = some check → inputs.probe check.condition = some evidence →
      (tracker.poll state inputs).2.1.checks[index]? =
        some { check with readyAtMs := some inputs.observedAt, evidence := some evidence }
  only {probe : ReadinessCondition → Option String} :
    (∀ index ∈ asked, ∀ check ∈ state.checks[index]?,
      probe check.condition = inputs.probe check.condition) →
      tracker.poll state { inputs with probe } = tracker.poll state inputs

theorem poll_asks : tracker.Asks state inputs (tracker.probeIndex state inputs) where
  found := tracker.poll_probed state inputs
  only := tracker.poll_probe state inputs

theorem findSomeM?_some {α β : Type} {f : α → Option (Option β)} {g : α → Option β} {l : List α}
    (h : ∀ a ∈ l, f a = some (g a)) : l.findSomeM? f = some (l.findSome? g) := by
  induction l with
  | nil => rfl
  | cons a l ih =>
    have ⟨hhead, hrest⟩ := List.forall_mem_cons.mp h
    simp only [List.findSomeM?, hhead, List.findSome?_cons, Option.bind_eq_bind, Option.bind_some]
    cases g a with
    | none => exact ih hrest
    | some b => rfl

/-- The search divides by the number of checks only if there is one, and indexes
    only checks that there are. -/
theorem checkedNextExternalCheck_eq :
    tracker.checkedNextExternalCheck state = some (tracker.nextExternalCheck state) := by
  have hstep : ∀ offset ∈ List.range state.checks.length,
      (do
        let index ← if state.checks.length = 0 then none
          else some ((tracker.nextProbeIndex + offset) % state.checks.length)
        let check ← state.checks[index]?
        return if external check then some index else none : Option (Option Nat)) =
      some (Option.guard (fun index => eligible state index)
        ((tracker.nextProbeIndex + offset) % state.checks.length)) := by
    intro offset hoffset
    have hpos : 0 < state.checks.length := Nat.zero_lt_of_lt (List.mem_range.mp hoffset)
    have hlt := Nat.mod_lt (tracker.nextProbeIndex + offset) hpos
    rw [if_neg hpos.ne']
    simp [List.getElem?_eq_getElem hlt, Option.guard, eligible]
  rw [checkedNextExternalCheck, findSomeM?_some hstep, nextExternalCheck_eq, Rotation.next]
  rw [← List.findSome?_guard, List.findSome?_map]
  rfl

end ReadinessTracker

/-! ## Runs -/

namespace ReadinessEvent

open ReadinessTracker

/-- The check that a call probes. -/
def probeIndex : ReadinessEvent → Readiness → Option Nat
  | .poll inputs, (tracker, state) => tracker.probeIndex state inputs
  | _, _ => none

/-- The checks that a sequence of calls probes, one after the other. -/
def probes : Readiness → List ReadinessEvent → List Nat
  | _, [] => []
  | readiness, event :: events =>
    (event.probeIndex readiness).toList ++ probes (event.apply readiness).1 events

variable (readiness : Readiness)

theorem polled_advances {state : ReadinessState} {inputs : PollInputs}
    {result : ReadinessState × Bool} (h : Polled state inputs result) :
    List.Forall₂ ReadinessCheck.Advances state.checks result.1.checks := by
  have hsame : List.Forall₂ ReadinessCheck.Advances state.checks state.checks :=
    List.forall₂_same.mpr fun check _ => .refl check
  cases h with
  | timedOut _ => exact hsame
  | idle => exact hsame
  | complete _ =>
    rw [ReadinessState.finish_checks]
    exact hsame
  | probed _ hcheck hexternal _ =>
    rw [ReadinessState.finish_checks]
    exact advances_set hcheck (unready_of_external hexternal) _ _

/-- Checks only advance, whatever the state is. -/
theorem apply_advances (event : ReadinessEvent) :
    List.Forall₂ ReadinessCheck.Advances readiness.2.checks (event.apply readiness).1.2.checks := by
  obtain ⟨tracker, state⟩ := readiness
  have hsame : List.Forall₂ ReadinessCheck.Advances state.checks state.checks :=
    List.forall₂_same.mpr fun check _ => .refl check
  cases event with
  | observeLog stream bytes clock =>
    simp only [apply, ReadinessTracker.observeLog]
    split
    · exact hsame
    · simp only [ReadinessState.finish_checks]
      exact (observeChecks_observed _ _ _ _ _).imp fun _ _ hcheck => hcheck.advances
  | poll inputs =>
    simp only [apply]
    by_cases hstatus : state.status = .pending
    · exact polled_advances (tracker.poll_polled hstatus inputs)
    · unfold ReadinessTracker.poll
      rw [if_pos hstatus]
      exact hsame
  | processExited =>
    simp only [apply, ReadinessTracker.processExited]
    split <;> exact hsame

theorem run_advances (events : List ReadinessEvent) :
    List.Forall₂ ReadinessCheck.Advances readiness.2.checks (run readiness events).2.checks := by
  induction events generalizing readiness with
  | nil => exact List.forall₂_same.mpr fun check _ => .refl check
  | cons event events ih => exact advances_trans (apply_advances readiness event) (ih _)

theorem run_checks_length (events : List ReadinessEvent) :
    (run readiness events).2.checks.length = readiness.2.checks.length :=
  (run_advances readiness events).length_eq.symm

/-- A check that is unready after some calls was so before them. -/
theorem eligible_of_advances {state state' : ReadinessState} {i : Nat}
    (h : List.Forall₂ ReadinessCheck.Advances state.checks state'.checks) (hi : eligible state' i) :
    eligible state i := by
  by_cases hlt : i < state.checks.length
  · have hlt' : i < state'.checks.length := h.length_eq ▸ hlt
    have hadvances := h.get hlt hlt'
    simp only [eligible, List.getElem?_eq_getElem hlt, List.getElem?_eq_getElem hlt',
      Option.any_some] at hi ⊢
    rw [List.get_eq_getElem, List.get_eq_getElem] at hadvances
    rcases hadvances with hsame | ⟨-, readyAt, evidence, hready⟩
    · rwa [hsame] at hi
    · have hnone := unready_of_external hi
      rw [hready] at hnone
      cases hnone
  · have hlt' : ¬ i < state'.checks.length := h.length_eq ▸ hlt
    simp [eligible, hlt'] at hi

/-- Only a probe moves the start of the search. -/
theorem apply_nextProbeIndex (event : ReadinessEvent) :
    (event.apply readiness).1.1.nextProbeIndex =
      ((event.probeIndex readiness).map (· + 1)).getD readiness.1.nextProbeIndex := by
  obtain ⟨tracker, state⟩ := readiness
  cases event with
  | observeLog stream bytes clock =>
    simp only [apply, probeIndex, ReadinessTracker.observeLog]
    split
    · rfl
    · cases stream <;> rfl
  | poll inputs => exact tracker.poll_nextProbeIndex state inputs
  | processExited => rfl

/-- The probes of a sequence of calls are turns of the rotation, in each of which
    a check that is unready afterwards is eligible. -/
theorem probes_turns (events : List ReadinessEvent) :
    ∃ turns, Rotation.Turns readiness.2.checks.length readiness.1.nextProbeIndex turns
        (run readiness events).1.nextProbeIndex ∧
      turns.map Prod.snd = probes readiness events ∧
      ∀ i, eligible (run readiness events).2 i → ∀ turn ∈ turns, turn.1 i := by
  induction events generalizing readiness with
  | nil => exact ⟨[], .nil, rfl, fun _ _ _ h => nomatch h⟩
  | cons event events ih =>
    obtain ⟨turns, hturns, hprobes, heligible⟩ := ih (event.apply readiness).1
    have hlength := (apply_advances readiness event).length_eq
    rw [← hlength] at hturns
    rw [apply_nextProbeIndex] at hturns
    have hrun : run readiness (event :: events) = run (event.apply readiness).1 events := rfl
    rw [hrun]
    cases hprobe : event.probeIndex readiness with
    | none =>
      rw [hprobe] at hturns
      exact ⟨turns, hturns, by simp [probes, hprobe, hprobes], heligible⟩
    | some index =>
      rw [hprobe] at hturns
      refine ⟨(eligible readiness.2, index) :: turns, .cons ?_ hturns,
        by simp [probes, hprobe, hprobes], fun i hi =>
          List.forall_mem_cons.mpr ⟨?_, heligible i hi⟩⟩
      · cases event with
        | poll inputs => exact probeIndex_spec _ _ _ hprobe
        | observeLog stream bytes clock => cases hprobe
        | processExited => cases hprobe
      · exact eligible_of_advances (run_advances readiness (event :: events)) hi

end ReadinessEvent

open ReadinessTracker in
/-- After any calls: of as many probes in a row as there are checks, one is of a
    given external check that stays unready; a probe is of an unready external
    check; the search for it stays within the checks; and a poll asks for this probe
    and for no other. -/
theorem probe_rotation (state : ReadinessState) (first : List ReadinessEvent) :
    let readiness := ReadinessEvent.run (.new, state) first
    (∀ rest, state.checks.length ≤ (ReadinessEvent.probes readiness rest).length →
      ∀ (i : Nat) (check : ReadinessCheck),
        (ReadinessEvent.run readiness rest).2.checks[i]? = some check → external check →
          i ∈ ReadinessEvent.probes readiness rest) ∧
    (∀ (event : ReadinessEvent) (index : Nat), event.probeIndex readiness = some index →
      ∃ check, readiness.2.checks[index]? = some check ∧ external check) ∧
    readiness.1.nextProbeIndex ≤ state.checks.length ∧
    readiness.1.checkedNextExternalCheck readiness.2 =
      some (readiness.1.nextExternalCheck readiness.2) ∧
    ∀ inputs : PollInputs,
      readiness.1.Asks readiness.2 inputs (readiness.1.probeIndex readiness.2 inputs) := by
  intro readiness
  have hlength : readiness.2.checks.length = state.checks.length :=
    ReadinessEvent.run_checks_length (.new, state) first
  refine ⟨fun rest hprobes i check hcheck hexternal => ?_, fun event index hindex => ?_, ?_,
    checkedNextExternalCheck_eq _ _, fun inputs => poll_asks _ _ inputs⟩
  · obtain ⟨turns, hturns, hserved, heligible⟩ := ReadinessEvent.probes_turns readiness rest
    obtain ⟨hi, -⟩ := List.getElem?_eq_some_iff.mp hcheck
    rw [ReadinessEvent.run_checks_length] at hi
    rw [← hserved, List.length_map, ← hlength] at hprobes
    rw [← hserved]
    exact hturns.served hi (heligible i (by simp [eligible, hcheck, hexternal])) hprobes
  · cases event with
    | poll inputs =>
      obtain ⟨-, heligible⟩ := Rotation.next_spec (probeIndex_spec _ _ _ hindex)
      exact (Option.any_eq_true _ _).mp heligible
    | observeLog stream bytes clock => cases hindex
    | processExited => cases hindex
  · obtain ⟨turns, hturns, -, -⟩ := ReadinessEvent.probes_turns (.new, state) first
    exact hturns.stop_le (Nat.zero_le _)

/-- Two files and a literal of the log, of which the first file appears. -/
theorem probe_rotation_files :
    let state := ReadinessState.new
      [.file (.ofString "/a"), .log "up", .file (.ofString "/b")] 1000 0
    let found : ReadinessCondition → Option String := fun condition =>
      if condition = .file (.ofString "/a") then some "regular file exists (0 bytes)" else none
    2 ∈ ReadinessEvent.probes (.new, state) [.poll { probe := found },
      .observeLog .stdout [117, 112] (fun _ => 20), .poll { elapsedNow := 60, instant := 60 },
      .poll { elapsedNow := 120, instant := 120 }] :=
  (probe_rotation _ []).1 _ (by decide +kernel) 2 _ rfl rfl

end Procherd
