-- SUMMARY: The readiness over the history of `state.json`: it is settled when the run ends, and not completed after its deadline.
import Procherd.DocumentHistory
import Procherd.Reference

/-!
# The readiness in a run

Every document that a step writes follows the one before it, so what holds of
two successive documents holds of any two. A failed state repeats the readiness
that is on disk, and the completion of a readiness is not compared with the
deadline: each of the two laws holds in the runs that avoid the one or the other.
-/

namespace Procherd

open Interaction

variable [Toolchain] {setup : Setup} {cfg : system.Config}

/-! ## Settled readiness -/

/-- No failed state is written while the readiness on disk is pending. -/
def failsSettled : system.Condition := fun i _ c _ w =>
  ∀ state, i.writes c = some state → state.status = .failed →
    ∀ old, w.state? = some old → old.readiness.status ≠ .pending

/-- A run that has ended has a settled readiness. -/
def RunState.Settled (state : RunState) : Prop :=
  state.status.isTerminal → state.readiness.status ≠ .pending

theorem settled_step {i : Thread} {β : Type} {c : i.Cmd β} {a : Answer} {w w' : World} {b : β}
    (hok : failsSettled i c a w) (hdocumented : Documented setup False i c a w)
    (hexec : exec i c a w = some (b, w')) (h : ∀ state ∈ w.history, state.Settled) :
    ∀ state ∈ w'.history, state.Settled := by
  cases hdocumented.wrote hexec with
  | quiet hhistory => rwa [hhistory]
  | created requests createdAtMs _ _ hhistory =>
    rw [hhistory]
    exact List.forall_mem_singleton.mpr nofun
  | launchFailed requests createdAtMs error updatedAtMs finishedAtMs _ hwrites hstate hhistory =>
    have hsettled := hok _ hwrites rfl _ hstate
    rw [hhistory]
    exact List.forall_mem_cons.mpr ⟨fun _ => hsettled, h⟩
  | supervised old state rest hold _ _ hstate hwrites hnext hhistory =>
    rw [hhistory, ← hold]
    refine List.forall_mem_cons.mpr ⟨fun hterminal => ?_, h⟩
    cases hcomplete : state.status.complete with
    | true => exact hnext.complete hcomplete
    | false =>
      have hfailed := RunStatus.eq_failed hterminal hcomplete
      rw [hnext.failed hfailed]
      exact hok state hwrites hfailed old hstate

/-- In a run that writes no failed state over a pending readiness, the readiness
    of every terminal state is settled. -/
theorem readiness_settled (setup : Setup) {cfg : system.Config}
    (h : Machine.Reach failsSettled setup.initial cfg) :
    ∀ state ∈ cfg.world.history, state.status.isTerminal → state.readiness.status ≠ .pending :=
  Machine.Reach.invariant (M := system) (J := fun w => ∀ state ∈ w.history, state.Settled)
    (fun _ _ _ _ _ _ _ hok hexec hw => settled_step hok.1 hok.2 hexec hw)
    (reach_documented nofun nofun h) fun _ hstate => absurd hstate List.not_mem_nil

end Procherd

namespace Procherd.Reference

open Interaction

/-- The reference run, started with one readiness condition. -/
def awaiting (condition : ReadinessCondition) : Setup :=
  { setup idle with options := { options with conditions := [condition] } }

/-- A move that does not write a failed state over a pending readiness. -/
def avoidsPendingFailure (cfg : system.Config) (m : system.Move) : Bool :=
  match cfg.thread m.1 with
  | .exec c _ =>
    match m.1.writes c with
    | some state => decide (state.status ≠ .failed) ||
        cfg.world.state?.all fun old => decide (old.readiness.status ≠ .pending)
    | none => true
  | _ => true

theorem meets_failsSettled (cfg : system.Config) (m : system.Move) (h : avoidsPendingFailure cfg m) :
    Machine.Meets (M := system) failsSettled cfg m := by
  intro β c k hc state hwrites hfailed old hold
  simp only [avoidsPendingFailure, hc, hwrites, hfailed, hold] at h
  simpa using h

/-- The literal is found while the process runs. -/
theorem readiness_settled_ready : ∃ cfg : system.Config,
    cfg.world.history.head?.map (fun state => (state.status, state.readiness.status)) =
      some (.exited, .ready) ∧
    ∀ state ∈ cfg.world.history, state.status.isTerminal → state.readiness.status ≠ .pending := by
  have hrun : (Machine.runChecked avoidsPendingFailure (awaiting (.log "hi")).initial
      (startUp ++ finish ++ steps .supervisor 1 {})).map
      (fun cfg => cfg.world.history.head?.map fun state => (state.status, state.readiness.status)) =
      some (some (.exited, .ready)) := by decide +kernel
  obtain ⟨cfg, hcfg, hstatus⟩ := Option.map_eq_some_iff.mp hrun
  exact ⟨cfg, hstatus, readiness_settled (awaiting (.log "hi")) (.of_runChecked meets_failsSettled hcfg)⟩

/-- The process exits before it is ready, and a descendant keeps its output open
    beyond the drain period. -/
theorem readiness_settled_undrained : ∃ cfg : system.Config,
    Machine.Reach system.always (awaiting (.log "hi")).initial cfg ∧
    ¬ ∀ state ∈ cfg.world.history, state.status.isTerminal → state.readiness.status ≠ .pending := by
  have hrun : (Machine.run (awaiting (.log "hi")).initial
      (startUp ++ steps .supervisor 9 { exit := some { code := some 0, signal := none } } ++
        steps .supervisor 10 { time := 10000 })).map
      (fun cfg => cfg.world.history.any fun state =>
        decide (state.status.isTerminal ∧ state.readiness.status = .pending)) = some true := by
    decide +kernel
  obtain ⟨cfg, hcfg, hany⟩ := Option.map_eq_some_iff.mp hrun
  obtain ⟨state, hstate, hpending⟩ := List.any_eq_true.mp hany
  have hpending := of_decide_eq_true hpending
  exact ⟨cfg, .of_run hcfg, fun hsettled => hsettled state hstate hpending.1 hpending.2⟩

end Procherd.Reference

namespace Procherd

open Interaction

variable [Toolchain] {setup : Setup} {cfg : system.Config}

/-! ## The deadline -/

/-- A ready readiness was completed before its deadline. -/
def ReadinessState.InTime (readiness : ReadinessState) : Prop :=
  readiness.status = .ready → ∃ readyAtMs deadlineAtMs, readiness.readyAtMs = some readyAtMs ∧
    readiness.deadlineAtMs = some deadlineAtMs ∧ readyAtMs < deadlineAtMs

/-- A readiness that is still pending at its deadline is not completed any more. -/
def RunState.Expires (old state : RunState) : Prop :=
  old.readiness.status = .pending → ∀ deadlineAtMs, old.readiness.deadlineAtMs = some deadlineAtMs →
    deadlineAtMs ≤ old.updatedAtMs → state.readiness.status = .pending ∨
      state.readiness.status = .timedOut ∨ state.readiness.status = .failed

/-- What two documents of a run have to do with each other, the earlier one
    first. The clock of the start of the run is not the supervisor's. -/
structure RunState.Dated (old state : RunState) : Prop where
  settled : old.readiness.status ≠ .pending → state.readiness = old.readiness
  deadlineAtMs : state.readiness.deadlineAtMs = old.readiness.deadlineAtMs
  clocked : state.status.isTerminal = false → old.updatedAtMs ≤ state.updatedAtMs
  expires : old.Expires state

namespace RunState

variable {s₁ s₂ s₃ : RunState} {content : LogStream → Bytes}

omit [Toolchain] in
theorem Succeeds.dated (h : s₁.Succeeds True content s₂) : s₁.Dated s₂ where
  settled := h.settled
  deadlineAtMs := h.deadlineAtMs
  clocked _ := h.clocked trivial
  expires hpending deadlineAtMs hdeadline hlate := by
    have hconfigured := h.configured hpending
    cases hstatus : s₂.readiness.status with
    | notConfigured => exact absurd hstatus hconfigured
    | pending => exact .inl rfl
    | timedOut => exact .inr (.inl rfl)
    | failed => exact .inr (.inr rfl)
    | ready =>
      obtain ⟨readyAtMs, deadlineAtMs', -, hdeadline', hintime, hafter⟩ :=
        h.punctual trivial hpending hstatus
      obtain rfl : deadlineAtMs = deadlineAtMs' :=
        Option.some.inj ((h.deadlineAtMs.trans hdeadline).symm.trans hdeadline')
      exact absurd (hlate.trans hafter) (Nat.not_le.mpr hintime)

omit [Toolchain] in
theorem Dated.trans (h : s₁.Dated s₂) (hlive : s₂.status.isTerminal = false) (h' : s₂.Dated s₃) :
    s₁.Dated s₃ where
  settled hsettled := by
    have hsame := h.settled hsettled
    rw [h'.settled (by rwa [hsame]), hsame]
  deadlineAtMs := h'.deadlineAtMs.trans h.deadlineAtMs
  clocked hlive' := (h.clocked hlive).trans (h'.clocked hlive')
  expires hpending deadlineAtMs hdeadline hlate := by
    have hexpired := h.expires hpending deadlineAtMs hdeadline hlate
    by_cases hstatus : s₂.readiness.status = .pending
    · exact h'.expires hstatus deadlineAtMs (h.deadlineAtMs.trans hdeadline)
        (hlate.trans (h.clocked hlive))
    · rw [h'.settled hstatus]
      exact hexpired

omit [Toolchain] in
theorem Succeeds.inTime (h : s₁.Succeeds True content s₂) (hs : s₁.readiness.InTime) :
    s₂.readiness.InTime := by
  intro hready
  by_cases hpending : s₁.readiness.status = .pending
  · obtain ⟨readyAtMs, deadlineAtMs, hreadyAt, hdeadline, hlt, -⟩ :=
      h.punctual trivial hpending hready
    exact ⟨readyAtMs, deadlineAtMs, hreadyAt, hdeadline, hlt⟩
  · rw [h.settled hpending] at hready ⊢
    exact hs hready

end RunState

/-- The documents of a run, the newest first. -/
structure Timely (history : List RunState) : Prop where
  inTime : ∀ state ∈ history, state.readiness.InTime
  dated : history.Pairwise fun state old => old.Dated state

theorem timely_step {i : Thread} {β : Type} {c : i.Cmd β} {a : Answer} {w w' : World} {b : β}
    (hdocumented : Documented setup True i c a w) (hexec : exec i c a w = some (b, w'))
    (h : Timely w.history) : Timely w'.history := by
  have hnew (requests : LeaseRequests) (createdAtMs : Nat) :
      (setup.options.readiness createdAtMs).InTime := by
    intro hready
    simp only [StartOptions.readiness, ReadinessState.new] at hready
    split at hready <;> cases hready
  cases hdocumented.wrote hexec with
  | quiet hhistory => rwa [hhistory]
  | created requests createdAtMs _ _ hhistory =>
    rw [hhistory]
    exact ⟨List.forall_mem_singleton.mpr (hnew requests createdAtMs), List.pairwise_singleton _ _⟩
  | launchFailed requests createdAtMs error updatedAtMs finishedAtMs hcreated _ _ hhistory =>
    rw [hhistory, hcreated]
    have hinTime := hnew requests createdAtMs
    refine ⟨List.forall_mem_cons.mpr ⟨hinTime, List.forall_mem_singleton.mpr hinTime⟩,
      List.pairwise_pair.mpr ⟨fun _ => rfl, rfl, (fun h => by cases h), fun hpending _ _ _ => .inl hpending⟩⟩
  | supervised old state rest hold hlive _ _ _ hnext hhistory =>
    rw [hold] at h
    rw [hhistory]
    obtain ⟨hinTime, hdated⟩ := h
    refine ⟨List.forall_mem_cons.mpr ⟨hnext.inTime (hinTime old List.mem_cons_self), hinTime⟩,
      List.pairwise_cons.mpr ⟨List.forall_mem_cons.mpr ⟨hnext.dated, fun older holder => ?_⟩, hdated⟩⟩
    exact ((List.pairwise_cons.mp hdated).1 older holder).trans hlive hnext.dated

/-- Where the clock does not go back and what completes a readiness arrives
    before its deadline, every ready readiness was completed before its deadline,
    and a readiness that is pending after it stays so or ends without success. -/
theorem ready_before_deadline (setup : Setup) {cfg : system.Config}
    (hfit : ∀ literal, .log literal ∈ setup.options.conditions →
      literalBytes literal ≠ [] ∧ (literalBytes literal).length ≤ MAX_LOG_LITERAL_BYTES)
    (h : Machine.Reach (fun i _ c a w => forwardClock i c a w ∧
      timelyEvidence setup.options.maxLogBytes i c a w) setup.initial cfg) :
    (∀ state ∈ cfg.world.history, state.readiness.status = .ready → ∃ readyAtMs deadlineAtMs,
      state.readiness.readyAtMs = some readyAtMs ∧
        state.readiness.deadlineAtMs = some deadlineAtMs ∧ readyAtMs < deadlineAtMs) ∧
    cfg.world.history.Pairwise fun state old => old.readiness.status = .pending →
      ∀ deadlineAtMs, old.readiness.deadlineAtMs = some deadlineAtMs →
        deadlineAtMs ≤ old.updatedAtMs → state.readiness.status = .pending ∨
          state.readiness.status = .timedOut ∨ state.readiness.status = .failed := by
  have htimely : Timely cfg.world.history :=
    Machine.Reach.invariant (M := system) (J := fun w => Timely w.history)
      (fun _ _ _ _ _ _ _ hok hexec hw => timely_step hok.2 hexec hw)
      (reach_documented (fun _ _ _ _ _ => id) (fun _ => hfit) h)
      ⟨fun _ hstate => absurd hstate List.not_mem_nil, .nil⟩
  exact ⟨htimely.inTime, htimely.dated.imp fun hdated => hdated.expires⟩

end Procherd

namespace Procherd.Reference

open Interaction

/-- A move while no reading is behind the document, which has no log checks, and
    no probe ends at or after the deadline. -/
def avoidsLateProbe (cfg : system.Config) (m : system.Move) : Bool :=
  cfg.world.state?.all fun state => decide (state.updatedAtMs = 0) &&
    state.readiness.checks.all (fun check => match check.condition with
      | .log _ => false
      | _ => true) &&
    state.readiness.deadlineAtMs.all fun deadlineAtMs => decide (m.2.polled.readyAt < deadlineAtMs)

/-- A document of the time 0 is before every reading of the clock. -/
theorem clocked_of_zero {w : World} (h : ∀ state, w.state? = some state → state.updatedAtMs = 0)
    (now : Nat) : w.documentView.Clocked now :=
  fun state hstate => (h state hstate).trans_le (Nat.zero_le now)

theorem forwardClock_of_zero {w : World}
    (h : ∀ state, w.state? = some state → state.updatedAtMs = 0) {i : Thread} {β : Type}
    (c : i.Cmd β) (a : Answer) : forwardClock i c a w := by
  cases i with
  | supervisor =>
    cases c with
    | inl c => trivial
    | inr c => cases c <;> first
        | trivial
        | exact clocked_of_zero h _
        | exact fun _ => clocked_of_zero h _
  | _ => trivial

theorem meets_timely (cfg : system.Config) (m : system.Move) (h : avoidsLateProbe cfg m) :
    Machine.Meets (M := system) (fun i _ c a w => forwardClock i c a w ∧
      timelyEvidence options.maxLogBytes i c a w) cfg m := by
  have hstate : ∀ state, cfg.world.state? = some state → state.updatedAtMs = 0 ∧
      (∀ check ∈ state.readiness.checks, ∀ literal, check.condition ≠ .log literal) ∧
      ∀ deadlineAtMs, state.readiness.deadlineAtMs = some deadlineAtMs →
        m.2.polled.readyAt < deadlineAtMs := by
    intro state hstate
    simp only [avoidsLateProbe, hstate, Option.all_some, Bool.and_eq_true, decide_eq_true_eq,
      List.all_eq_true] at h
    refine ⟨h.1.1, fun check hcheck literal hlog => ?_, fun deadlineAtMs hdeadline => ?_⟩
    · have hother := h.1.2 check hcheck
      rw [hlog] at hother
      cases hother
    · simpa only [hdeadline, Option.all_some, decide_eq_true_eq] using h.2
  obtain ⟨i, a⟩ := m
  intro β c k _
  refine ⟨forwardClock_of_zero (fun state hs => (hstate state hs).1) c a, ?_⟩
  cases i with
  | supervisor =>
    cases c with
    | inl c => trivial
    | inr c =>
      cases c with
      | clock =>
        -- Without log checks, a chunk is evidence for nothing.
        intro state hs _ hbefore hafter
        refine absurd (fun check hcheck => ?_) hbefore
        have hevident := hafter check hcheck
        unfold ReadinessCheck.Evident at hevident ⊢
        split at hevident
        · rename_i literal hlog
          exact absurd hlog ((hstate state hs).2.1 check hcheck literal)
        · exact hevident
      | pollReadiness =>
        intro state hs _ _ _ _ _ _ _ deadlineAtMs hdeadline _
        exact (hstate state hs).2.2 deadlineAtMs hdeadline
      | _ => trivial
  | _ => trivial

/-- The port answers the first probe. -/
theorem ready_before_deadline_probed : ∃ cfg : system.Config,
    cfg.world.history.head?.map (fun state => (state.readiness.status, state.readiness.readyAtMs)) =
      some (.ready, some 0) ∧
    ∀ state ∈ cfg.world.history, state.readiness.status = .ready → ∃ readyAtMs deadlineAtMs,
      state.readiness.readyAtMs = some readyAtMs ∧
        state.readiness.deadlineAtMs = some deadlineAtMs ∧ readyAtMs < deadlineAtMs := by
  have hrun : (Machine.runChecked avoidsLateProbe (awaiting (.tcp "127.0.0.1:80")).initial
      (startUp ++ steps .supervisor 5 { polled := { probe := fun _ => some "connected" } })).map
      (fun cfg => cfg.world.history.head?.map fun state =>
        (state.readiness.status, state.readiness.readyAtMs)) = some (some (.ready, some 0)) := by
    decide +kernel
  obtain ⟨cfg, hcfg, hready⟩ := Option.map_eq_some_iff.mp hrun
  have hfit : ∀ literal, .log literal ∈ [ReadinessCondition.tcp "127.0.0.1:80"] →
      literalBytes literal ≠ [] ∧ (literalBytes literal).length ≤ MAX_LOG_LITERAL_BYTES := by
    intro literal hmem
    exact nomatch List.mem_singleton.mp hmem
  exact ⟨cfg, hready, (ready_before_deadline (awaiting (.tcp "127.0.0.1:80")) hfit
    (.of_runChecked meets_timely hcfg)).1⟩

/-- A move while the document is of the time 0. -/
def atZero (cfg : system.Config) (_ : system.Move) : Bool :=
  cfg.world.state?.all fun state => decide (state.updatedAtMs = 0)

theorem meets_forwardClock (cfg : system.Config) (m : system.Move) (h : atZero cfg m) :
    Machine.Meets (M := system) forwardClock cfg m := by
  intro β c k _
  refine forwardClock_of_zero (fun state hstate => ?_) c m.2
  simpa only [atZero, hstate, Option.all_some, decide_eq_true_eq] using h

/-- The literal arrives a second after the deadline, and before the next poll. -/
theorem ready_after_deadline : ∃ cfg : system.Config,
    Machine.Reach forwardClock (awaiting (.log "hi")).initial cfg ∧
    ¬ ∀ state ∈ cfg.world.history, state.readiness.status = .ready → ∃ readyAtMs deadlineAtMs,
      state.readiness.readyAtMs = some readyAtMs ∧
        state.readiness.deadlineAtMs = some deadlineAtMs ∧ readyAtMs < deadlineAtMs := by
  have hrun : (Machine.runChecked atZero (awaiting (.log "hi")).initial
      (startUp ++ steps (.reader .stdout) 3 { count := 2 } ++
        steps .supervisor 11 { time := 2000, clock := fun _ => 2000, count := 1000 })).map
      (fun cfg => cfg.world.history.any fun state => decide (state.readiness.status = .ready ∧
        state.readiness.readyAtMs = some 2000 ∧ state.readiness.deadlineAtMs = some 1000)) =
      some true := by decide +kernel
  obtain ⟨cfg, hcfg, hany⟩ := Option.map_eq_some_iff.mp hrun
  obtain ⟨state, hstate, hlate⟩ := List.any_eq_true.mp hany
  obtain ⟨hready, hreadyAt, hdeadline⟩ := of_decide_eq_true hlate
  refine ⟨cfg, .of_runChecked meets_forwardClock hcfg, fun hinTime => ?_⟩
  obtain ⟨readyAtMs, deadlineAtMs, hreadyAt', hdeadline', hlt⟩ := hinTime state hstate hready
  cases hreadyAt.symm.trans hreadyAt'
  cases hdeadline.symm.trans hdeadline'
  exact absurd hlt (by decide)

end Procherd.Reference
