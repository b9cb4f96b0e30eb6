-- SUMMARY: The evidence for a ready log check: which documents count it among the records of their own summary.
import Procherd.LogAccounting
import Procherd.ReadinessHistory

/-!
# Log evidence

A log check becomes ready when its literal has arrived. The document that says
so is written at once, but the summary in it is renewed only by the periodic
snapshot and at the end. The records that hold the evidence are therefore
counted by the same document if the literal is found after the process exited,
and not before.
-/

namespace Procherd

open Interaction

variable [Toolchain] {setup : Setup} {cfg : system.Config}

/-! ## The received output only grows -/

theorem received_of_exec {i : Thread} {β : Type} {c : i.Cmd β} {a : Answer} {w w' : World} {b : β}
    (h : exec i c a w = some (b, w')) :
    w'.received = w.received ∨ ∃ chunk, w'.received = w.received ++ [chunk] := by
  cases i with
  | start =>
    cases c with
    | inl c => rw [execCreate_frame (show execCreate c a w = some (b, w') from h)]; exact .inl rfl
    | inr c => rw [execClient_frame (show execClient .start c a w = some (b, w') from h)]; exact .inl rfl
  | reader stream =>
    rw [execReader_frame (show execReader stream c a w = some (b, w') from h)]
    exact .inl rfl
  | client index =>
    rw [execClient_frame (show execClient (.client index) c a w = some (b, w') from h)]
    exact .inl rfl
  | supervisor =>
    cases c with
    | inl c =>
      rw [execLock_frame (show execLock c a w = some (b, w') from h)]
      exact .inl rfl
    | inr c =>
      have hreceive {c : BodyCmd Received} {r : Received}
          (hc : c = .tryRecv ∨ ∃ timeout, c = .recvTimeout timeout)
          (h : execBody c a w = some (r, w')) :
          w'.received = w.received ∨ ∃ chunk, w'.received = w.received ++ [chunk] := by
        obtain ⟨chunk, _, -, -, rfl⟩ | ⟨-, rfl⟩ | ⟨-, -, -, rfl⟩ :=
          receive_cases (execBody_receive hc h).2
        · exact .inr ⟨chunk, rfl⟩
        · exact .inl rfl
        · exact .inl rfl
      have h : execBody c a w = some (b, w') := h
      cases c with
      | tryRecv => exact hreceive (.inl rfl) h
      | recvTimeout timeout => exact hreceive (.inr ⟨timeout, rfl⟩) h
      | _ =>
        simp only [execBody, fallible, committed, fallibleIo] at h
        repeat' split at h
        all_goals (cases h; exact .inl rfl)

theorem retainedBytes_of_exec {i : Thread} {β : Type} {c : i.Cmd β} {a : Answer} {w w' : World}
    {b : β} (maxBytes : Nat) (h : exec i c a w = some (b, w')) (stream : LogStream) :
    retainedBytes maxBytes w.received stream <+: retainedBytes maxBytes w'.received stream := by
  obtain hreceived | ⟨chunk, hreceived⟩ := received_of_exec h
  · rw [hreceived]
  · rw [hreceived]
    exact DocumentView.retainedBytes_concat maxBytes w.received chunk stream

/-! ## Evidence in the documents -/

/-- Some log check of the state is ready. -/
def RunState.ClaimsLog (state : RunState) : Prop :=
  ∃ check ∈ state.readiness.checks, ∃ literal, check.condition = .log literal ∧
    check.readyAtMs.isSome

/-- While the run is live, nothing is written when the output holds the literal
    of a log check that is unready on disk. -/
def evidenceAfterExit (maxBytes : Nat) : system.Condition := fun i _ c _ w =>
  ∀ state, i.writes c = some state → state.status.isTerminal = false →
    ∀ old, w.state? = some old → old.readiness.status = .pending →
    ∀ check ∈ old.readiness.checks, ∀ literal, check.condition = .log literal →
      check.readyAtMs = none → ¬ Occurs literal (retainedBytes maxBytes w.received)

/-- The documents and their log evidence. -/
structure EvidenceRun (maxBytes : Nat) (w : World) : Prop where
  evidenced : ∀ state ∈ w.history, state.readiness.Evidenced (retainedBytes maxBytes w.received)
  complete : ∀ state ∈ w.history, state.ClaimsLog →
    state.status.complete ∧ w.phase ≠ .unlaunched

omit [Toolchain] in
theorem RunState.Succeeds.claimsLog {content : LogStream → Bytes} {old state : RunState}
    (h : old.Succeeds False content state) (hold : ¬ old.ClaimsLog)
    (hunseen : old.readiness.status = .pending → ∀ check ∈ old.readiness.checks, ∀ literal,
      check.condition = .log literal → check.readyAtMs = none → ¬ Occurs literal content) :
    ¬ state.ClaimsLog := by
  rintro ⟨check, hcheck, literal, hlog, hready⟩
  by_cases hpending : old.readiness.status = .pending
  · obtain ⟨check', hcheck', hlog'⟩ := h.logs check hcheck literal hlog
    have hnone : check'.readyAtMs = none := by
      by_contra hsome
      exact hold ⟨check', hcheck', literal, hlog', Option.isSome_iff_ne_none.mpr hsome⟩
    exact hunseen hpending check' hcheck' literal hlog' hnone
      (h.evidenced check hcheck literal hlog hready)
  · rw [h.settled hpending] at hcheck
    exact hold ⟨check, hcheck, literal, hlog, hready⟩

theorem evidence_step {i : Thread} {β : Type} {c : i.Cmd β} {a : Answer} {w w' : World} {b : β}
    (hok : evidenceAfterExit setup.options.maxLogBytes i c a w)
    (hdocumented : Documented setup False i c a w) (hexec : exec i c a w = some (b, w'))
    (h : EvidenceRun setup.options.maxLogBytes w) :
    EvidenceRun setup.options.maxLogBytes w' := by
  have hold : ∀ state ∈ w.history, state.readiness.Evidenced
      (retainedBytes setup.options.maxLogBytes w'.received) :=
    fun state hstate check hcheck literal hlog hready =>
      (h.evidenced state hstate check hcheck literal hlog hready).mono
        (retainedBytes_of_exec _ hexec)
  have hcomplete : ∀ state ∈ w.history, state.ClaimsLog →
      state.status.complete ∧ w'.phase ≠ .unlaunched := fun state hstate hclaims =>
    ⟨(h.complete state hstate hclaims).1,
      launched_of_exec hexec (h.complete state hstate hclaims).2⟩
  have hnew (createdAtMs : Nat) (content : LogStream → Bytes) :
      (setup.options.readiness createdAtMs).Evidenced content :=
    (DocumentView.unstarted_new _ _ _).evidenced content
  have hunclaimed (state : RunState) (createdAtMs : Nat)
      (hreadiness : state.readiness = setup.options.readiness createdAtMs) : ¬ state.ClaimsLog := by
    rintro ⟨check, hcheck, literal, -, hready⟩
    rw [hreadiness] at hcheck
    rw [(DocumentView.unstarted_new _ _ _).unready check hcheck] at hready
    cases hready
  cases hdocumented.wrote hexec with
  | quiet hhistory => exact ⟨hhistory ▸ hold, hhistory ▸ hcomplete⟩
  | created requests createdAtMs _ _ hhistory =>
    refine ⟨hhistory ▸ List.forall_mem_singleton.mpr (hnew createdAtMs _),
      hhistory ▸ List.forall_mem_singleton.mpr fun hclaims => ?_⟩
    exact absurd hclaims (hunclaimed _ createdAtMs rfl)
  | launchFailed requests createdAtMs error updatedAtMs finishedAtMs hcreated _ _ hhistory =>
    refine ⟨hhistory ▸ List.forall_mem_cons.mpr ⟨hnew createdAtMs _, hold⟩,
      hhistory ▸ List.forall_mem_cons.mpr ⟨fun hclaims => ?_, hcomplete⟩⟩
    exact absurd hclaims (hunclaimed _ createdAtMs rfl)
  | supervised old state rest hhead hlive hlaunched hstate hwrites hnext hhistory =>
    rw [hhead] at hold hcomplete
    have hunclaims : ¬ old.ClaimsLog := by
      intro hclaims
      have hold := (h.complete old (hhead ▸ List.mem_cons_self) hclaims).1
      rw [RunStatus.complete_of_live hlive] at hold
      cases hold
    refine ⟨hhistory ▸ List.forall_mem_cons.mpr ⟨fun check hcheck literal hlog hready => ?_, hold⟩,
      hhistory ▸ List.forall_mem_cons.mpr ⟨fun hclaims => ⟨?_, launched_of_exec hexec hlaunched⟩,
        hcomplete⟩⟩
    · exact (hnext.evidenced check hcheck literal hlog hready).mono (retainedBytes_of_exec _ hexec)
    -- Neither a live state nor a failed one has a ready log check.
    · cases hcomplete : state.status.complete with
      | true => rfl
      | false =>
        refine absurd hclaims ?_
        by_cases hterminal : state.status.isTerminal
        · rwa [RunState.ClaimsLog, hnext.failed (RunStatus.eq_failed hterminal hcomplete)]
        · exact hnext.claimsLog hunclaims
            (hok state hwrites (Bool.eq_false_of_not_eq_true hterminal) old hstate)

/-! ## The evidence among the records -/

/-- The complete records of the log before `nextCursor` hold the literal, within
    one stream. -/
def Retrievable (w : World) (nextCursor : Nat) (literal : String) : Prop :=
  ∃ records tail, w.logsNdjson = some (recordLines records ++ tail) ∧ NEWLINE ∉ tail ∧
    Numbered records ∧ ∃ stream, literalBytes literal <:+:
      streamBytes stream ((records.filter (·.cursor < nextCursor)).map LogRecord.chunk)

/-- In a run that finds the literals of its log checks only after the process
    exited, every document that shows a log check ready counts the records that
    hold its evidence. -/
theorem evidence_retrievable (setup : Setup) {cfg : system.Config}
    (h : Machine.Reach (evidenceAfterExit setup.options.maxLogBytes) setup.initial cfg) :
    ∀ state ∈ cfg.world.history, ∀ check ∈ state.readiness.checks, ∀ literal,
      check.condition = .log literal → check.readyAtMs.isSome →
      Retrievable cfg.world state.logs.nextCursor literal := by
  intro state hstate check hcheck literal hlog hready
  have hevidence : EvidenceRun setup.options.maxLogBytes cfg.world :=
    Machine.Reach.invariant (M := system) (J := EvidenceRun setup.options.maxLogBytes)
      (fun _ _ _ _ _ _ _ hok hexec hw => evidence_step hok.1 hok.2 hexec hw)
      (reach_documented nofun nofun h)
      ⟨fun _ hstate => absurd hstate List.not_mem_nil, fun _ hstate => absurd hstate List.not_mem_nil⟩
  obtain ⟨hcomplete, hlaunched⟩ := hevidence.complete state hstate ⟨check, hcheck, literal, hlog, hready⟩
  -- A completed state is the newest one, and its summary counts the whole file.
  have hrecorded := reach_recorded h
  have hhead : cfg.world.state? = some state := by
    rw [hrecorded.document hlaunched]
    cases hhistory : cfg.world.history with
    | nil =>
      rw [hhistory] at hstate
      exact absurd hstate List.not_mem_nil
    | cons newest rest =>
      rw [hhistory] at hstate
      obtain rfl | hrest := List.mem_cons.mp hstate
      · rfl
      · have hlifecycle := hrecorded.lifecycle
        rw [hhistory] at hlifecycle
        rw [RunStatus.complete_of_live (hlifecycle.tail_live state hrest)] at hcomplete
        cases hcomplete
  obtain ⟨records, tail, hfile⟩ := (reach_logRun h).sound
  obtain ⟨hlines, -, writer, hwriter, hlogs⟩ := hfile.complete state hhead hcomplete
  change Summarizes _ writer cfg.world.received records at hwriter
  refine ⟨records, [], by rw [List.append_nil]; exact hlines, List.not_mem_nil, hfile.numbered, ?_⟩
  have hcounted : records.filter (·.cursor < state.logs.nextCursor) = records := by
    refine List.filter_eq_self.mpr fun record hrecord => decide_eq_true ?_
    have hnext : state.logs.nextCursor = records.length + 1 := hlogs ▸ hwriter.nextCursor
    have hbound := (hfile.numbered.cursor_bounds record hrecord).2
    omega
  obtain ⟨stream, hoccurs⟩ := hevidence.evidenced state hstate check hcheck literal hlog hready
  refine ⟨stream, ?_⟩
  rw [hcounted, hwriter.pieces]
  exact hoccurs

end Procherd

namespace Procherd.Reference

open Interaction

/-- A move that writes no live state once something has been received. -/
def avoidsLiveEvidence (cfg : system.Config) (m : system.Move) : Bool :=
  match cfg.thread m.1 with
  | .exec c _ =>
    match m.1.writes c with
    | some state => state.status.isTerminal || (decide (cfg.world.received = []) &&
        cfg.world.state?.all fun old => old.readiness.checks.all fun check =>
          match check.condition with
          | .log literal => decide (literalBytes literal ≠ [])
          | _ => true)
    | none => true
  | _ => true

theorem meets_evidenceAfterExit (cfg : system.Config) (m : system.Move)
    (h : avoidsLiveEvidence cfg m) :
    Machine.Meets (M := system) (evidenceAfterExit options.maxLogBytes) cfg m := by
  intro β c k hc state hwrites hlive old hold _ check hcheck literal hlog _ hoccurs
  simp only [avoidsLiveEvidence, hc, hwrites, hlive, hold, Bool.false_or, Bool.and_eq_true,
    decide_eq_true_eq, Option.all_some, List.all_eq_true] at h
  have hliteral := h.2 check hcheck
  simp only [hlog, decide_eq_true_eq] at hliteral
  obtain ⟨stream, hinfix⟩ := hoccurs
  rw [h.1] at hinfix
  exact hliteral (List.infix_nil.mp hinfix)

/-- The process has exited. -/
def exited : Answer := { count := 1000, exit := some { code := some 0, signal := none } }

/-- A run whose newest document is `exited`, with a ready check for `hi`. -/
def finallyReady (state : RunState) : Bool :=
  decide (state.status = .exited) && state.readiness.checks.any fun check =>
    decide (check.condition = .log "hi") && check.readyAtMs.isSome

/-- The output arrives after the process exited. -/
theorem evidence_retrievable_exited : ∃ (cfg : system.Config) (state : RunState),
    cfg.world.history.head? = some state ∧ state.status = .exited ∧
    Retrievable cfg.world state.logs.nextCursor "hi" := by
  have hrun : (Machine.runChecked avoidsLiveEvidence (awaiting (.log "hi")).initial
      (startUp ++ steps .supervisor 7 exited ++ steps (.reader .stdout) 6 { count := 2 } ++
        steps (.reader .stderr) 3 {} ++ steps .supervisor 20 exited)).map
      (fun cfg => cfg.world.history.head?.map finallyReady) = some (some true) := by decide +kernel
  obtain ⟨cfg, hcfg, hhead⟩ := Option.map_eq_some_iff.mp hrun
  obtain ⟨state, hstate, hready⟩ := Option.map_eq_some_iff.mp hhead
  simp only [finallyReady, Bool.and_eq_true, decide_eq_true_eq, List.any_eq_true] at hready
  obtain ⟨hstatus, check, hcheck, hlog, hsome⟩ := hready
  exact ⟨cfg, state, hstate, hstatus, evidence_retrievable (awaiting (.log "hi"))
    (.of_runChecked meets_evidenceAfterExit hcfg) state (List.mem_of_head? hstate) check hcheck "hi"
    hlog hsome⟩

/-- No record is counted by a summary with the first cursor. -/
theorem not_retrievable_first {w : World} {literal : String} (h : literalBytes literal ≠ []) :
    ¬ Retrievable w 1 literal := by
  rintro ⟨records, tail, -, -, hnumbered, stream, hoccurs⟩
  have hnone : records.filter (·.cursor < 1) = [] := by
    refine List.filter_eq_nil_iff.mpr fun record hrecord => ?_
    have hpos := (hnumbered.cursor_bounds record hrecord).1
    simpa only [decide_eq_true_eq, not_lt] using hpos
  rw [hnone] at hoccurs
  exact h (List.infix_nil.mp hoccurs)

/-- The literal is found while the process runs, before the first snapshot. -/
theorem evidence_retrievable_running : ∃ cfg : system.Config,
    Machine.Reach system.always (awaiting (.log "hi")).initial cfg ∧
    ¬ ∀ state ∈ cfg.world.history, ∀ check ∈ state.readiness.checks, ∀ literal,
      check.condition = .log literal → check.readyAtMs.isSome →
      Retrievable cfg.world state.logs.nextCursor literal := by
  have hrun : (Machine.run (awaiting (.log "hi")).initial
      (startUp ++ steps (.reader .stdout) 3 { count := 2 } ++
        steps .supervisor 11 { count := 1000 })).map
      (fun cfg => cfg.world.history.any fun state => decide (state.logs.nextCursor = 1) &&
        state.readiness.checks.any fun check =>
          decide (check.condition = .log "hi") && check.readyAtMs.isSome) = some true := by
    decide +kernel
  obtain ⟨cfg, hcfg, hany⟩ := Option.map_eq_some_iff.mp hrun
  simp only [List.any_eq_true, Bool.and_eq_true, decide_eq_true_eq] at hany
  obtain ⟨state, hstate, hnext, check, hcheck, hlog, hready⟩ := hany
  refine ⟨cfg, .of_run hcfg, fun hretrievable => ?_⟩
  have hevidence := hretrievable state hstate check hcheck "hi" hlog hready
  rw [hnext] at hevidence
  exact not_retrievable_first (by decide) hevidence

end Procherd.Reference
