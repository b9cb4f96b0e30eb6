-- SUMMARY: The coverage of a terminal log: when the summary in `state.json` counts every line that the supervisor left behind.
import Procherd.LogAccounting
import Procherd.LogPresence
import Procherd.DocumentHistory

/-!
# Log coverage

A run that exits or stops ends with a summary of the whole log. A run that fails
keeps the summary that was last on disk, while the log may have grown since.
-/

namespace Procherd

open Interaction

variable [Toolchain] {state : RunState} {records : List LogRecord} {bytes tail : Bytes}

/-! ## Written records as a log -/

/-- The reader accepts the line of a written record inside the summary. -/
theorem LogRecord.Written.logLine [LawfulLogFormat] {record : LogRecord}
    (h : record.Written bytes) (hpos : 0 < record.cursor)
    (hdurable : record.cursor < state.logs.nextCursor) : LogLine state record.line record where
  length_le := h.length_line_le
  complete := by rw [LogRecord.line, List.getLast?_append, List.getLast?_singleton]; rfl
  decoded := LawfulLogFormat.decode_line record bytes h
  schemaVersion := h.schemaVersion
  cursor_pos := hpos
  durable := hdurable
  data := ⟨bytes, h.decodeRecord_eq, h.byteCount.symm⟩
  byteCount_pos := by
    rw [h.byteCount]
    exact List.length_pos_iff.mpr h.nonempty

omit [Toolchain] in
theorem Numbered.increasing (h : Numbered records) : records.Pairwise (·.cursor < ·.cursor) := by
  have hcursors : (records.map (·.cursor)).Pairwise (· < ·) := by
    rw [h.cursors]
    exact List.pairwise_lt_range'
  exact List.pairwise_map.mp hcursors

/-- The lines of written records are a log where the summary counts them. -/
theorem Numbered.isLog [LawfulLogFormat] (h : Numbered records)
    (hdurable : ∀ record ∈ records, record.cursor < state.logs.nextCursor) :
    IsLog state (recordLines records) records where
  lines := by
    refine ⟨records.map LogRecord.line, rfl, fun line hline => ?_, ?_⟩
    · obtain ⟨record, hrecord, rfl⟩ := List.mem_map.mp hline
      exact ⟨record.encode, rfl, (h.written record hrecord).newline_notMem_encode⟩
    · rw [List.forall₂_map_left_iff, List.forall₂_same]
      intro record hrecord
      exact (h.written record hrecord).logLine (h.cursor_bounds record hrecord).1
        (hdurable record hrecord)
  increasing := h.increasing

/-! ## Counting lines -/

omit [Toolchain] in
theorem count_newline_lines {lines : List Bytes}
    (h : ∀ line ∈ lines, ∃ body, line = body ++ [NEWLINE] ∧ NEWLINE ∉ body) :
    lines.flatten.count NEWLINE = lines.length := by
  induction lines with
  | nil => rfl
  | cons line lines ih =>
    have ⟨⟨body, hline, hbody⟩, hlines⟩ := List.forall_mem_cons.mp h
    rw [List.flatten_cons, List.count_append, ih hlines, hline, List.count_append,
      List.count_eq_zero.mpr hbody, List.count_singleton_self, List.length_cons]
    omega

omit [Toolchain] in
/-- There is one newline for each record. -/
theorem Numbered.count_newline (h : Numbered records) (htail : NEWLINE ∉ tail) :
    (recordLines records ++ tail).count NEWLINE = records.length := by
  have hlines : (recordLines records).count NEWLINE = records.length := by
    rw [← List.length_map LogRecord.line]
    refine count_newline_lines fun line hline => ?_
    obtain ⟨record, hrecord, rfl⟩ := List.mem_map.mp hline
    exact ⟨_, rfl, (h.written record hrecord).newline_notMem_encode⟩
  rw [List.count_append, hlines, List.count_eq_zero.mpr htail, Nat.add_zero]

omit [Toolchain] in
/-- Increasing cursors of a range are no more than the range is long. -/
theorem length_of_increasing {low high : Nat} (h : records.Pairwise (·.cursor < ·.cursor))
    (hbounds : ∀ record ∈ records, low ≤ record.cursor ∧ record.cursor < high) (hle : low ≤ high) :
    low + records.length ≤ high := by
  induction records generalizing low with
  | nil => exact hle
  | cons record records ih =>
    have ⟨hafter, hrest⟩ := List.pairwise_cons.mp h
    have ⟨⟨hlow, hhigh⟩, hbounds⟩ := List.forall_mem_cons.mp hbounds
    have hlength : record.cursor + 1 + records.length ≤ high :=
      ih hrest (fun other hother => ⟨hafter other hother, (hbounds other hother).2⟩) hhigh
    rw [List.length_cons]
    omega

/-- A log that is not empty ends with a newline, and the summary counts its lines. -/
theorem IsLog.counted (h : IsLog state bytes records) (hne : bytes ≠ []) :
    bytes.getLast? = some NEWLINE ∧ bytes.count NEWLINE < state.logs.nextCursor := by
  obtain ⟨lines, rfl, hlines, hrecords⟩ := h.lines
  have hbounds : ∀ record ∈ records, 1 ≤ record.cursor ∧ record.cursor < state.logs.nextCursor := by
    intro record hrecord
    obtain ⟨line, -, hline⟩ := mem_right_of_forall₂ hrecords hrecord
    exact ⟨hline.cursor_pos, hline.durable⟩
  have hlength := hrecords.length_eq
  cases hlast : lines.getLast? with
  | none =>
    rw [List.getLast?_eq_none_iff.mp hlast] at hne
    exact absurd rfl hne
  | some line =>
    obtain ⟨front, rfl⟩ := List.getLast?_eq_some_iff.mp hlast
    obtain ⟨body, hbody, -⟩ := hlines line (List.mem_append_right _ List.mem_cons_self)
    constructor
    · rw [hbody, List.flatten_append, List.flatten_singleton, ← List.append_assoc,
        List.getLast?_concat]
    · obtain ⟨record, hrecord⟩ : ∃ record, record ∈ records := by
        refine List.exists_mem_of_length_pos ?_
        rw [← hlength, List.length_append]
        exact Nat.succ_pos _
      have hcount := length_of_increasing h.increasing hbounds
        (Nat.le_of_lt (Nat.lt_of_le_of_lt (hbounds record hrecord).1 (hbounds record hrecord).2))
      rw [count_newline_lines hlines, hlength]
      omega

/-- A reader that is given a log never finds it damaged. -/
theorem Accepted.scanLines_ok {query : LogQuery} {previous : Nat} {lines : List Bytes}
    (h : Accepted state previous lines records) (page : List LogRecord) :
    ∃ result, scanLines state query previous page lines = .ok result := by
  induction h generalizing page with
  | nil => exact ⟨_, rfl⟩
  | @cons previous line record lines records hline hcursor _ ih =>
    cases hmatches : query.matches record with
    | false =>
      rw [scanLines_skip hline hcursor hmatches]
      exact ih page
    | true =>
      by_cases hfull : page.length = query.limit
      · exact ⟨_, scanLines_full hline hcursor hmatches hfull⟩
      · rw [scanLines_take hline hcursor hmatches hfull]
        exact ih (page ++ [record])

/-! ## Coverage -/

/-- Every line of the log is a complete record inside the summary. -/
def Covered (state : RunState) (w : World) : Prop :=
  ∀ bytes, w.logsNdjson = some bytes → ∃ records, IsLog state bytes records

/-- The log is empty, or it ends with a newline and the summary in `state.json`
    counts all of its lines. -/
def World.Snapshotted (w : World) : Prop :=
  ∀ bytes, w.logsNdjson = some bytes → bytes ≠ [] → bytes.getLast? = some NEWLINE ∧
    ∃ state, w.state? = some state ∧ bytes.count NEWLINE < state.logs.nextCursor

theorem covered_iff_snapshotted [LawfulLogFormat] {maxBytes : Nat} {w : World}
    (h : LogSound maxBytes w.logView) (hstate : w.state? = some state) :
    Covered state w ↔ w.Snapshotted := by
  constructor
  · intro hcovered bytes hbytes hne
    obtain ⟨records, hlog⟩ := hcovered bytes hbytes
    obtain ⟨hlast, hcount⟩ := hlog.counted hne
    exact ⟨hlast, state, hstate, hcount⟩
  · intro hsnapshotted bytes hbytes
    obtain ⟨records, tail, h⟩ := h
    obtain rfl : bytes = recordLines records ++ tail := by
      have hfile := h.file
      rwa [show w.logView.file = some bytes from hbytes] at hfile
    by_cases hne : recordLines records ++ tail = []
    · exact ⟨[], ⟨[], hne, nofun, .nil⟩, .nil⟩
    obtain ⟨hlast, state', hstate', hcount⟩ := hsnapshotted _ hbytes hne
    obtain rfl : state' = state := Option.some.inj (hstate'.symm.trans hstate)
    -- A tail would end the file without a newline.
    obtain rfl : tail = [] := by
      by_contra htail
      rw [List.getLast?_append, List.getLast?_eq_some_getLast htail, Option.some_or] at hlast
      exact h.unended (Option.some.inj hlast ▸ List.getLast_mem htail)
    rw [h.numbered.count_newline List.not_mem_nil] at hcount
    refine ⟨records, ?_⟩
    rw [List.append_nil]
    exact h.numbered.isLog fun record hrecord =>
      Nat.lt_of_le_of_lt (h.numbered.cursor_bounds record hrecord).2 hcount

/-! ## Runs -/

section Runs

variable {setup : Setup} {cfg : system.Config} {β : Type} {a : Answer} {w w' : World} {b : β}

/-- A run is marked as failed only where the summary on disk counts all of the
    log. -/
def marksSnapshotted : system.Condition := fun i _ c _ w =>
  ∀ state, i.writes c = some state → state.status = .failed → w.Snapshotted

/-- A failed run has a log that its summary counts. -/
def FailedSnapshotted (w : World) : Prop :=
  ∀ state, w.state? = some state → state.status = .failed → w.Snapshotted

omit [Toolchain] in
theorem World.Snapshotted.congr (h : w.Snapshotted) (hfile : w'.logsNdjson = w.logsNdjson)
    (hstate : ∀ state, w.state? = some state → ∃ state', w'.state? = some state' ∧
      state.logs = state'.logs) : w'.Snapshotted := by
  intro bytes hbytes hne
  obtain ⟨hlast, state, hfound, hcount⟩ := h bytes (hfile ▸ hbytes) hne
  obtain ⟨state', hfound', hlogs⟩ := hstate state hfound
  exact ⟨hlast, state', hfound', hlogs ▸ hcount⟩

omit [Toolchain] in
theorem FailedSnapshotted.congr (h : FailedSnapshotted w) (hfile : w'.logsNdjson = w.logsNdjson)
    (hstate : w'.stateJson = w.stateJson) : FailedSnapshotted w' := by
  have hsame : w'.state? = w.state? := congrArg StateFile.state? hstate
  intro state hfound hfailed
  refine (h state (hsame ▸ hfound) hfailed).congr hfile fun state hstate => ?_
  exact ⟨state, hsame.trans hstate, rfl⟩

theorem failedSnapshotted_start {c : CreateCmd β} (hplumbed : Plumbed setup .start (.inl c) a w)
    (hexec : execCreate c a w = some (b, w')) (h : FailedSnapshotted w) : FailedSnapshotted w' := by
  have hframe := execCreate_frame hexec
  have hfile : w'.logsNdjson = w.logsNdjson := by rw [hframe]
  cases c with
  | createState =>
    obtain ⟨_, -, -, rfl⟩ | ⟨-, hexec⟩ := fallible_cases hexec
    · exact h
    · cases hexec
      exact fun state hstate => nomatch (show none = some state from hstate)
  | writeNewState state =>
    obtain ⟨-, -, requests, createdAtMs, -, -, rfl⟩ := hplumbed.launch.1
    obtain ⟨_, -, -, rfl | rfl⟩ | ⟨-, -, rfl⟩ := committed_cases hexec
    · exact h
    all_goals
      rintro _ ⟨⟩ hfailed
      cases hfailed
  | replaceState state =>
    obtain ⟨hphase, -⟩ := hplumbed.launch.1
    have habsent : w.logsNdjson = none :=
      (hplumbed.plumbing.untouched (by rw [hphase]; decide) (by rw [hphase]; decide)).file
    intro state hstate hfailed bytes hbytes
    rw [hfile, habsent] at hbytes
    cases hbytes
  | _ =>
    simp only [execCreate, fallible] at hexec
    repeat' split at hexec
    all_goals cases hexec
    all_goals exact h.congr hfile rfl

theorem failedSnapshotted_step {i : Thread} {c : i.Cmd β} (hmarks : marksSnapshotted i c a w)
    (hlogged : Logged setup i c a w) (hexec : exec i c a w = some (b, w'))
    (h : FailedSnapshotted w) : FailedSnapshotted w' := by
  cases i with
  | start =>
    cases c with
    | inl c => exact failedSnapshotted_start hlogged.plumbed hexec h
    | inr c =>
      have hframe := execClient_frame (show execClient .start c a w = some (b, w') from hexec)
      exact h.congr (by rw [hframe]) (by rw [hframe])
  | client index =>
    have hframe := execClient_frame (show execClient (.client index) c a w = some (b, w') from hexec)
    exact h.congr (by rw [hframe]) (by rw [hframe])
  | reader stream =>
    have hframe := execReader_frame (show execReader stream c a w = some (b, w') from hexec)
    exact h.congr (by rw [hframe]) (by rw [hframe])
  | supervisor =>
    cases c with
    | inl c =>
      have hframe := execLock_frame (show execLock c a w = some (b, w') from hexec)
      exact h.congr (by rw [hframe]) (by rw [hframe])
    | inr c =>
      have hexec : execBody c a w = some (b, w') := hexec
      have hguar := hlogged.guar b w' hexec
      cases hc : c.writesState with
      | false =>
        -- The log of a terminal run does not grow.
        have hstate := (execBody_state hc hexec).1
        intro state hfound hfailed
        have hold : w.state? = some state := (congrArg StateFile.state? hstate).symm.trans hfound
        refine (h state hold hfailed).congr (hguar.settled state hold (by rw [hfailed]; rfl)) ?_
        exact fun state hstate' => ⟨state, (congrArg StateFile.state? hstate).trans hstate', rfl⟩
      | true =>
        cases c with
        | persistState state =>
          have hset : FailedSnapshotted (w.setState state) := by
            rintro _ ⟨⟩ hfailed
            obtain hfile | ⟨old, hold, hlogs⟩ := hguar.discipline hfailed
            · intro bytes hbytes
              exact nomatch hfile.symm.trans hbytes
            · refine (hmarks state rfl hfailed).congr rfl fun old' hold' => ⟨state, rfl, ?_⟩
              obtain rfl : old = old' := Option.some.inj (hold.symm.trans hold')
              exact hlogs.symm
          obtain ⟨_, -, -, rfl | rfl⟩ | ⟨-, -, rfl⟩ := committed_cases hexec
          · exact h
          · exact hset
          · exact hset
        | _ => cases hc

theorem reach_failedSnapshotted (h : Machine.Reach marksSnapshotted setup.initial cfg) :
    FailedSnapshotted cfg.world :=
  Machine.Reach.invariant (M := system) (J := FailedSnapshotted)
    (fun _ _ _ _ _ _ _ hok hexec hw => failedSnapshotted_step hok.1 hok.2 hexec hw)
    (reach_logged h) fun _ hstate => nomatch hstate

/-- The summary of a run that completed counts all of its log. -/
theorem LogFile.covered [LawfulLogFormat] {maxBytes : Nat}
    (h : LogFile maxBytes w.logView records tail) (hstate : w.state? = some state)
    (hcomplete : state.status.complete) : Covered state w := by
  obtain ⟨hfile, -, writer, hwriter, hlogs⟩ := h.complete state hstate hcomplete
  have hnext : state.logs.nextCursor = records.length + 1 := by
    rw [hlogs]
    exact hwriter.nextCursor
  intro bytes hbytes
  obtain rfl : bytes = recordLines records := Option.some.inj (hbytes.symm.trans hfile)
  refine ⟨records, h.numbered.isLog fun record hrecord => ?_⟩
  rw [hnext]
  exact Nat.lt_succ_of_le (h.numbered.cursor_bounds record hrecord).2

end Runs

/-- The log of a terminal run is covered by its summary, and no page of it
    reports damage. -/
structure LogIntact (state : RunState) (w : World) : Prop where
  covered : Covered state w
  readable : ∀ query e, readLogs state query w.openLogs = .error e → e.kind ≠ "integrity"

theorem Covered.logIntact {w : World} (h : Covered state w) : LogIntact state w where
  covered := h
  readable query e herror := by
    by_cases hlimit : query.limit = 0 ∨ 1000 < query.limit
    · simp only [readLogs, if_pos hlimit] at herror
      cases herror
      decide
    cases hfile : w.logsNdjson with
    | none =>
      simp only [readLogs, World.openLogs, hfile, if_neg hlimit, bind, Except.bind] at herror
      repeat' split at herror
      all_goals cases herror
      decide
    | some bytes =>
      obtain ⟨records, hlog⟩ := h bytes hfile
      obtain ⟨result, hscan⟩ : ∃ result, scanLines state query 0 [] (splitLines bytes) = .ok result :=
        hlog.accepted.scanLines_ok []
      have hvalid : 1 ≤ query.limit ∧ query.limit ≤ 1000 := by omega
      have hread := readLogs_scan state hvalid bytes
      simp only [World.openLogs, hfile] at herror
      rw [hscan] at hread
      obtain ⟨page, hpage, -⟩ := hread
      cases hpage.symm.trans herror

/-- The log of a terminal run is intact if and only if the summary on disk counts
    all of it, and it does unless the supervisor failed after a record that no
    summary on disk counted. -/
theorem terminal_log_intact [LawfulLogFormat] (setup : Setup) :
    (∀ (cfg : system.Config) (state : RunState),
      Machine.Reach system.always setup.initial cfg → cfg.world.state? = some state →
        state.status.isTerminal → (LogIntact state cfg.world ↔ cfg.world.Snapshotted)) ∧
    ∀ (cfg : system.Config) (state : RunState),
      Machine.Reach marksSnapshotted setup.initial cfg → cfg.world.state? = some state →
        state.status.isTerminal → LogIntact state cfg.world := by
  have hiff {ok : system.Condition} {cfg : system.Config} {state : RunState}
      (h : Machine.Reach ok setup.initial cfg) (hstate : cfg.world.state? = some state) :
      LogIntact state cfg.world ↔ cfg.world.Snapshotted := by
    rw [← covered_iff_snapshotted (reach_logRun h).sound hstate]
    exact ⟨LogIntact.covered, Covered.logIntact⟩
  refine ⟨fun cfg state h hstate _ => hiff h hstate, fun cfg state h hstate hterminal => ?_⟩
  cases hcomplete : state.status.complete with
  | false =>
    have hfailed := RunStatus.eq_failed hterminal hcomplete
    exact (hiff h hstate).mpr (reach_failedSnapshotted h state hstate hfailed)
  | true =>
    obtain ⟨records, tail, hfile⟩ := (reach_logRun h).sound
    exact (hfile.covered hstate hcomplete).logIntact

end Procherd

namespace Procherd.Reference

open Interaction

/-- A move that does not mark the run as failed. -/
def avoidsFailure (cfg : system.Config) (m : system.Move) : Bool :=
  match cfg.thread m.1 with
  | .exec c _ => (m.1.writes c).all fun state => decide (state.status ≠ .failed)
  | _ => true

theorem meets_marksSnapshotted (cfg : system.Config) (m : system.Move) (h : avoidsFailure cfg m) :
    Machine.Meets (M := system) marksSnapshotted cfg m := by
  intro β c k hc state hwrites hfailed
  simp only [avoidsFailure, hc, hwrites, Option.all_some, hfailed] at h
  exact absurd h (by decide)

/-- The reference run exits with one record. -/
theorem terminal_log_intact_exited : ∃ (cfg : system.Config) (state : RunState),
    cfg.world.state? = some state ∧ state.status = .exited ∧ state.logs.nextCursor = 2 ∧
      LogIntact state cfg.world := by
  have hrun : (Machine.runChecked avoidsFailure (setup idle).initial (startUp ++ finish)).map
      (fun cfg => cfg.world.state?.map fun state => (state.status, state.logs.nextCursor)) =
      some (some (.exited, 2)) := by decide +kernel
  obtain ⟨cfg, hcfg, hstate⟩ := Option.map_eq_some_iff.mp hrun
  obtain ⟨state, hstate, hfound⟩ := Option.map_eq_some_iff.mp hstate
  obtain ⟨hstatus, hnext⟩ := Prod.mk.inj hfound
  refine ⟨cfg, state, hstate, hstatus, hnext, ?_⟩
  exact (terminal_log_intact (setup idle)).2 cfg state
    (.of_runChecked meets_marksSnapshotted hcfg) hstate (by rw [hstatus]; rfl)

/-- The kind of the error that a page is refused with. -/
def refusal : Except AppError LogsResult → Option String
  | .ok _ => none
  | .error e => some e.kind

/-- The process exits right after its output, and a descendant keeps the output
    open beyond the drain period. -/
theorem terminal_log_undrained : ∃ (cfg : system.Config) (state : RunState),
    Machine.Reach system.always (setup idle).initial cfg ∧ cfg.world.state? = some state ∧
      state.status.isTerminal ∧ ¬ Covered state cfg.world ∧
      ∃ e, readLogs state firstPage cfg.world.openLogs = .error e ∧ e.kind = "integrity" := by
  have hrun : (Machine.run (setup idle).initial
      (startUp ++ steps (.reader .stdout) 3 { count := 2 } ++
        steps .supervisor 25 { count := 1000, exit := some { code := some 0, signal := none } } ++
        steps .supervisor 9 { time := 10000 })).map
      (fun cfg => cfg.world.state?.map fun state => (state.status.isTerminal,
        refusal (readLogs state firstPage cfg.world.openLogs))) =
      some (some (true, some "integrity")) := by decide +kernel
  obtain ⟨cfg, hcfg, hstate⟩ := Option.map_eq_some_iff.mp hrun
  obtain ⟨state, hstate, hfound⟩ := Option.map_eq_some_iff.mp hstate
  obtain ⟨hterminal, hkind⟩ := Prod.mk.inj hfound
  cases hread : readLogs state firstPage cfg.world.openLogs with
  | ok result =>
    rw [hread] at hkind
    cases hkind
  | error e =>
    rw [hread] at hkind
    have hkind : e.kind = "integrity" := Option.some.inj hkind
    refine ⟨cfg, state, .of_run hcfg, hstate, hterminal, fun hcovered => ?_, e, hread, hkind⟩
    exact hcovered.logIntact.readable firstPage e hread hkind

end Procherd.Reference
