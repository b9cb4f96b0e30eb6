-- SUMMARY: Log paging: a client that polls the log while the supervisor writes it is given every matching record once and in order.
import Procherd.Expansion
import Procherd.Format.Paging
import Procherd.Interaction.Tampering
import Procherd.LogCoverage
import Procherd.LogPresence
import Procherd.Readability

/-!
# Log paging

Every poll reads `state.json` first and `logs.ndjson` after it, so that the file
has at least the records that the state counts. It ends at the last of them,
whatever was written since.
-/

namespace Procherd

open Interaction

variable [Toolchain] {state : RunState} {query : LogQuery} {records : List LogRecord}
  {bytes tail : Bytes}

/-! ## The durable records -/

namespace Numbered

omit [Toolchain] in
theorem take (h : Numbered records) (n : Nat) : Numbered (records.take n) where
  written record hrecord := h.written record (List.mem_of_mem_take hrecord)
  cursors := by
    rw [List.map_take, h.cursors, List.length_take]
    rcases Nat.le_total n records.length with hle | hle
    · rw [List.take_range'_of_length_ge hle, Nat.min_eq_left hle]
    · rw [List.take_range'_of_length_le hle, Nat.min_eq_right hle]

omit [Toolchain] in
theorem cursor_drop (h : Numbered records) {n : Nat} {record : LogRecord} {rest : List LogRecord}
    (hdrop : records.drop n = record :: rest) : record.cursor = n + 1 := by
  have hcursors : (records.drop n).map (·.cursor) = List.range' (1 + n) (records.length - n) := by
    rw [List.map_drop, h.cursors, List.drop_range', Nat.mul_one]
  rw [hdrop, List.map_cons] at hcursors
  cases hlength : records.length - n with
  | zero => rw [hlength] at hcursors; cases hcursors
  | succ m =>
    rw [hlength, List.range'_succ] at hcursors
    rw [(List.cons.inj hcursors).1, Nat.add_comm]

omit [Toolchain] in
/-- The records below a cursor are the first ones. -/
theorem filter_below (h : Numbered records) (next : Nat) :
    (records.filter fun record => record.cursor < next) = records.take (next - 1) := by
  have hlow : (records.take (next - 1)).filter (fun record => record.cursor < next) =
      records.take (next - 1) := by
    rw [List.filter_eq_self]
    intro record hrecord
    have hbounds := (h.take (next - 1)).cursor_bounds record hrecord
    rw [List.length_take] at hbounds
    simp only [decide_eq_true_eq]
    omega
  have hhigh : (records.drop (next - 1)).filter (fun record => record.cursor < next) = [] := by
    rw [List.filter_eq_nil_iff]
    intro record hrecord
    obtain ⟨front, rest, hdrop⟩ := List.append_of_mem hrecord
    have hrest : records.drop (next - 1 + front.length) = record :: rest := by
      rw [← List.drop_drop, hdrop, List.drop_left]
    have hcursor := h.cursor_drop hrest
    simp only [decide_eq_true_eq]
    omega
  calc (records.filter fun record => record.cursor < next)
      = (records.take (next - 1) ++ records.drop (next - 1)).filter
          fun record => record.cursor < next := by rw [List.take_append_drop]
    _ = records.take (next - 1) := by rw [List.filter_append, hlow, hhigh, List.append_nil]

end Numbered

/-! ## One poll -/

/-- The bytes of the log, read after a state. -/
structure Snapshot (state : RunState) (bytes : Bytes) (records : List LogRecord) (tail : Bytes) :
    Prop where
  file : bytes = recordLines records ++ tail
  unended : NEWLINE ∉ tail
  fits : tail.length ≤ MAX_RECORD_LINE_BYTES
  numbered : Numbered records
  durable : state.logs.nextCursor ≤ records.length + 1
  complete : state.status.isTerminal → tail = [] ∧ state.logs.nextCursor = records.length + 1

/-- A scan of accepted lines, behind which the reader stops, gives the first
    matching records and says whether there are more. -/
theorem scanLines_before {previous : Nat} {lines rest : List Bytes} {page : List LogRecord}
    (h : Accepted state previous lines records)
    (hrest : ∀ previous page, previous ≤ state.logs.nextCursor - 1 →
      scanLines state query previous page rest = .ok (page, false))
    (hprevious : previous ≤ state.logs.nextCursor - 1) (hroom : page.length ≤ query.limit) :
    scanLines state query previous page (lines ++ rest) =
      .ok ((page ++ records.filter query.matches).take query.limit,
        decide (query.limit < (page ++ records.filter query.matches).length)) := by
  induction h generalizing page with
  | nil previous =>
    rw [List.nil_append, hrest previous page hprevious, List.filter_nil, List.append_nil,
      List.take_of_length_le hroom, decide_eq_false (Nat.not_lt.mpr hroom)]
  | @cons previous line record lines records hline hcursor _ ih =>
    have hbelow : record.cursor ≤ state.logs.nextCursor - 1 := Nat.le_sub_one_of_lt hline.durable
    rw [List.cons_append]
    cases hmatches : query.matches record with
    | false =>
      rw [scanLines_skip hline hcursor hmatches, ih hbelow hroom,
        List.filter_cons_of_neg (by simp [hmatches])]
    | true =>
      rw [List.filter_cons_of_pos hmatches]
      by_cases hfull : page.length = query.limit
      · rw [scanLines_full hline hcursor hmatches hfull, List.take_left' hfull,
          decide_eq_true (by rw [List.length_append, List.length_cons, hfull]; omega)]
      · have hlength : (page ++ [record]).length = page.length + 1 := List.length_append
        rw [scanLines_take hline hcursor hmatches hfull, ih hbelow (by omega), List.append_assoc,
          List.singleton_append]

namespace Snapshot

/-- A reader stops at the durable boundary, at a part of a line, or at the end of
    the file. -/
theorem stops [LawfulLogFormat] (h : Snapshot state bytes records tail) (previous : Nat)
    (page : List LogRecord) (hprevious : previous ≤ state.logs.nextCursor - 1) :
    scanLines state query previous page ((records.drop (state.logs.nextCursor - 1)).map
      LogRecord.line ++ splitLines tail) = .ok (page, false) := by
  cases hdrop : records.drop (state.logs.nextCursor - 1) with
  | nil =>
    rw [List.map_nil, List.nil_append]
    by_cases hempty : tail = []
    · rw [hempty]
      rfl
    have hlive : state.status.isTerminal = false := by
      by_contra hterminal
      exact hempty (h.complete (by simpa using hterminal)).1
    have hincomplete : tail.getLast? ≠ some NEWLINE :=
      fun hlast => h.unended (List.mem_of_getLast? hlast)
    rw [splitLines_tail h.unended hempty, scanLines, if_neg (Nat.not_lt.mpr h.fits),
      if_pos hincomplete, hlive]
    rfl
  | cons record rest =>
    have hmem : record ∈ records := List.mem_of_mem_drop (hdrop ▸ List.mem_cons_self)
    have hcursor := h.numbered.cursor_drop hdrop
    have hwritten := h.numbered.written record hmem
    have hlive : state.status.isTerminal = false := by
      by_contra hterminal
      have hbounds := (h.numbered.cursor_bounds record hmem).2
      have hnext := (h.complete (by simpa using hterminal)).2
      omega
    have hdurable : state.logs.nextCursor ≤ record.cursor := by omega
    have hmonotonic : ¬ (record.cursor = 0 ∨ record.cursor ≤ previous) := by omega
    have hcomplete : record.line.getLast? = some NEWLINE := by
      rw [LogRecord.line, List.getLast?_append, List.getLast?_singleton]
      rfl
    rw [List.map_cons, List.cons_append, scanLines, if_neg (Nat.not_lt.mpr hwritten.length_line_le),
      hcomplete]
    simp only [ne_eq, not_true_eq_false, if_false, LawfulLogFormat.decode_line record _ hwritten,
      hwritten.schemaVersion, if_neg hmonotonic, if_pos hdurable, hlive, Bool.false_eq_true]

/-- A scan of the whole file. -/
theorem scan [LawfulLogFormat] (h : Snapshot state bytes records tail) (query : LogQuery) :
    scanLines state query 0 [] (splitLines bytes) =
      .ok (((records.filter fun record => record.cursor < state.logs.nextCursor).filter
          query.matches).take query.limit,
        decide (query.limit < ((records.filter fun record =>
          record.cursor < state.logs.nextCursor).filter query.matches).length)) := by
  have hnumbered := h.numbered.take (state.logs.nextCursor - 1)
  have hlines : splitLines bytes =
      (records.take (state.logs.nextCursor - 1)).map LogRecord.line ++
        ((records.drop (state.logs.nextCursor - 1)).map LogRecord.line ++ splitLines tail) := by
    rw [h.file, splitLines_recordLines h.numbered.written_exists, ← List.append_assoc,
      ← List.map_append, List.take_append_drop]
  have hlog : IsLog state (recordLines (records.take (state.logs.nextCursor - 1)))
      (records.take (state.logs.nextCursor - 1)) := by
    refine hnumbered.isLog fun record hrecord => ?_
    have hbounds := hnumbered.cursor_bounds record hrecord
    rw [List.length_take] at hbounds
    omega
  have haccepted := hlog.accepted
  rw [← List.append_nil (recordLines _),
    splitLines_recordLines hnumbered.written_exists] at haccepted
  rw [hlines, h.numbered.filter_below]
  refine scanLines_before ?_ (fun previous page hprevious => h.stops previous page hprevious)
    (Nat.zero_le _) (Nat.zero_le _)
  rwa [show splitLines [] = [] from rfl, List.append_nil] at haccepted

/-- What a poll is given. -/
theorem readLogs_eq [LawfulLogFormat] (h : Snapshot state bytes records tail) {query : LogQuery}
    (hlimit : 1 ≤ query.limit ∧ query.limit ≤ 1000) :
    ∃ result, readLogs state query (.ok (.ok bytes)) = .ok result ∧
      result.records = ((records.filter fun record => record.cursor < state.logs.nextCursor).filter
        query.matches).take query.limit ∧
      result.hasMore = decide (query.limit < ((records.filter fun record =>
        record.cursor < state.logs.nextCursor).filter query.matches).length) ∧
      result.nextAfterCursor = (result.records.getLast?.map (·.cursor)).getD query.afterCursor := by
  have hvalid : ¬ (query.limit = 0 ∨ 1000 < query.limit) := by omega
  simp only [readLogs, if_neg hvalid, bind, Except.bind, h.scan query]
  exact ⟨_, rfl, rfl, rfl, rfl⟩

end Snapshot

/-! ## The records of the whole run -/

/-- A file that goes on after some records has them first. -/
theorem prefix_of_recordLines [LawfulLogFormat] {records' : List LogRecord} {rest : Bytes}
    (h : Numbered records) (h' : Numbered records')
    (hfile : recordLines records' = recordLines records ++ rest) : records <+: records' := by
  have hlines : records'.map LogRecord.line = records.map LogRecord.line ++ splitLines rest := by
    have hsplit := congrArg splitLines hfile
    rwa [← List.append_nil (recordLines records'), splitLines_recordLines h'.written_exists,
      splitLines_recordLines h.written_exists, show splitLines [] = [] from rfl,
      List.append_nil] at hsplit
  obtain ⟨front, back, rfl, hfront, -⟩ := List.map_eq_append_iff.mp hlines
  -- The reader takes every line for the record it was written from.
  have hdecode {written : List LogRecord} (hwritten : Numbered written) :
      (written.map LogRecord.line).map Toolchain.decodeLogRecord = written.map Except.ok := by
    rw [List.map_map]
    refine List.map_congr_left fun record hrecord => ?_
    exact LawfulLogFormat.decode_line record _ (hwritten.written record hrecord)
  have hnumbered : Numbered front := by
    have hfront := h'.take front.length
    rwa [List.take_left] at hfront
  have hsame := congrArg (List.map Toolchain.decodeLogRecord) hfront
  rw [hdecode hnumbered, hdecode h] at hsame
  exact ⟨back, congrArg (· ++ back)
    (List.map_injective_iff.mpr (fun _ _ => Except.ok.inj) hsame.symm)⟩

namespace Snapshot

omit [Toolchain] in
/-- What a reader may see does not depend on what was written since. -/
theorem visible {records' : List LogRecord} (h : Snapshot state bytes records tail)
    (hnumbered : Numbered records') (hpre : records <+: records') :
    (records.filter fun record => record.cursor < state.logs.nextCursor) =
      records'.filter fun record => record.cursor < state.logs.nextCursor := by
  obtain ⟨back, rfl⟩ := hpre
  rw [h.numbered.filter_below, hnumbered.filter_below, List.take_append_of_le_length]
  have hdurable := h.durable
  omega

end Snapshot

/-! ## What the client may rely on -/

section Runs

variable {setup : Setup} {ok : system.Condition} {cfg : system.Config} {β : Type} {a : Answer}
  {w w' w₁ w₂ : World} {b : β} {n : Nat}

/-- The log and the history only grow, and both end with a terminal state. -/
structure Grows (w w' : World) : Prop where
  file : ∀ bytes, w.logsNdjson = some bytes → ∃ more, w'.logsNdjson = some (bytes ++ more)
  history : ∃ newer, w'.history = newer ++ w.history
  settled : ∀ state, w.history.head? = some state → state.status.isTerminal →
    w'.history = w.history ∧ w'.logsNdjson = w.logsNdjson

namespace Grows

omit [Toolchain] in
theorem of_eq (hfile : w'.logsNdjson = w.logsNdjson) (hhistory : w'.history = w.history) :
    Grows w w' where
  file bytes h := ⟨[], by rw [hfile, h, List.append_nil]⟩
  history := ⟨[], hhistory⟩
  settled _ _ _ := ⟨hhistory, hfile⟩

omit [Toolchain] in
theorem refl (w : World) : Grows w w := .of_eq rfl rfl

omit [Toolchain] in
theorem trans (h : Grows w w₁) (h' : Grows w₁ w₂) : Grows w w₂ where
  file bytes hbytes := by
    obtain ⟨more, hmore⟩ := h.file bytes hbytes
    obtain ⟨more', hmore'⟩ := h'.file _ hmore
    exact ⟨more ++ more', by rw [hmore', List.append_assoc]⟩
  history := by
    obtain ⟨newer, hnewer⟩ := h.history
    obtain ⟨newer', hnewer'⟩ := h'.history
    exact ⟨newer' ++ newer, by rw [hnewer', hnewer, List.append_assoc]⟩
  settled state hstate hterminal := by
    obtain ⟨hhistory, hfile⟩ := h.settled state hstate hterminal
    obtain ⟨hhistory', hfile'⟩ := h'.settled state (hhistory ▸ hstate) hterminal
    exact ⟨hhistory'.trans hhistory, hfile'.trans hfile⟩

omit [Toolchain] in
theorem mem (h : Grows w w') {state : RunState} (hstate : state ∈ w.history) :
    state ∈ w'.history := by
  obtain ⟨newer, hnewer⟩ := h.history
  exact hnewer ▸ List.mem_append_right newer hstate

end Grows

/-- A terminal document is the newest one, and the log does not change any more. -/
theorem logsNdjson_settled {i : Thread} {c : i.Cmd β} {state : RunState}
    (hlogged : Logged setup i c a w) (hrecorded : Recorded w)
    (hexec : exec i c a w = some (b, w')) (hstate : w.history.head? = some state)
    (hterminal : state.status.isTerminal) : w'.logsNdjson = w.logsNdjson := by
  by_cases hi : i = .supervisor
  · subst hi
    cases c with
    | inl c => rw [execLock_frame (show execLock c a w = some (b, w') from hexec)]
    | inr c =>
      have hphase : w.phase ≠ .unlaunched := by
        rw [show w.phase = .active from hlogged.plumbed.launch.2]
        decide
      exact (hlogged.guar b w' hexec).settled state ((hrecorded.document hphase).trans hstate)
        hterminal
  · exact logsNdjson_of_other hi hexec

theorem logsNdjson_grows {i : Thread} {c : i.Cmd β} (hlogged : Logged setup i c a w)
    (hexec : exec i c a w = some (b, w')) {bytes : Bytes} (hbytes : w.logsNdjson = some bytes) :
    ∃ more, w'.logsNdjson = some (bytes ++ more) := by
  by_cases hi : i = .supervisor
  · subst hi
    cases c with
    | inl c =>
      refine ⟨[], ?_⟩
      rw [execLock_frame (show execLock c a w = some (b, w') from hexec), List.append_nil]
      exact hbytes
    | inr c => exact (hlogged.guar b w' hexec).grows bytes hbytes
  · exact ⟨[], by rw [logsNdjson_of_other hi hexec, List.append_nil, hbytes]⟩

theorem Grows.step {timely : Prop} {i : Thread} {c : i.Cmd β} (hlogged : Logged setup i c a w)
    (hdocumented : Documented setup timely i c a w) (hexec : exec i c a w = some (b, w')) :
    Grows w w' where
  file bytes hbytes := logsNdjson_grows hlogged hexec hbytes
  history := by
    cases hdocumented.wrote hexec with
    | quiet hhistory => exact ⟨[], hhistory⟩
    | created requests createdAtMs hempty _ hhistory => exact ⟨w'.history, by simp [hempty]⟩
    | launchFailed _ _ _ _ _ _ _ _ hhistory => exact ⟨_ :: [], hhistory⟩
    | supervised old state rest hold _ _ _ _ _ hhistory => exact ⟨[state], hold ▸ hhistory⟩
  settled state hstate hterminal := by
    refine ⟨?_, logsNdjson_settled hlogged hdocumented.recorded hexec hstate hterminal⟩
    cases hdocumented.wrote hexec with
    | quiet hhistory => exact hhistory
    | created requests createdAtMs hempty =>
      rw [hempty] at hstate
      cases hstate
    | launchFailed requests createdAtMs error updatedAtMs finishedAtMs hcreated =>
      rw [hcreated] at hstate
      cases hstate
      cases hterminal
    | supervised old _ rest hold hlive =>
      rw [hold] at hstate
      cases hstate
      rw [hlive] at hterminal
      cases hterminal

/-! ## What the client finds -/

/-- What holds of the files in every world of a run. -/
structure Watched (setup : Setup) (w : World) : Prop where
  log : LogRun setup w
  readable : Readable setup.options w
  recorded : Recorded w
  written : w.phase ≠ .unlaunched → w.history ≠ []

namespace Watched

/-- A run is created before it is launched. -/
theorem created_of_launch {i : Thread} {c : i.Cmd β} (hok : launchProtocol setup.options i c a w)
    (hexec : exec i c a w = some (b, w')) (hphase : w.phase = .unlaunched)
    (hphase' : w'.phase ≠ .unlaunched) : Created setup.options w := by
  have hsame (h : w'.phase = w.phase) : Created setup.options w := absurd (h.trans hphase) hphase'
  cases i with
  | start =>
    cases c with
    | inl c =>
      cases c with
      | launch => exact hok.1.2
      | _ =>
        refine hsame ?_
        simp only [exec, execEither, execCreate, fallible, committed] at hexec
        repeat' split at hexec
        all_goals (cases hexec; rfl)
    | inr c =>
      exact hsame (execClient_phase (show execClient .start c a w = some (b, w') from hexec))
  | supervisor =>
    cases c with
    | inl c =>
      obtain rfl | ⟨hlaunched, -⟩ | ⟨hactive, -⟩ :=
        execLock_phase (show execLock c a w = some (b, w') from hexec)
      · exact hsame rfl
      · rw [hphase] at hlaunched
        cases hlaunched
      · rw [hphase] at hactive
        cases hactive
    | inr c => exact hsame (execBody_phase (show execBody c a w = some (b, w') from hexec))
  | reader stream =>
    exact hsame (execReader_phase (show execReader stream c a w = some (b, w') from hexec))
  | client index =>
    exact hsame (execClient_phase (show execClient (.client index) c a w = some (b, w') from hexec))

theorem written_step {timely : Prop} {i : Thread} {c : i.Cmd β}
    (hdocumented : Documented setup timely i c a w) (hexec : exec i c a w = some (b, w'))
    (h : w.phase ≠ .unlaunched → w.history ≠ []) (hphase' : w'.phase ≠ .unlaunched) :
    w'.history ≠ [] := by
  cases hdocumented.wrote hexec with
  | quiet hhistory =>
    rw [hhistory]
    by_cases hphase : w.phase = .unlaunched
    · have hcreated := created_of_launch hdocumented.launch hexec hphase hphase'
      obtain ⟨_, _, -, -, -, hwritten, -⟩ := hcreated.documents
      rw [hwritten]
      exact List.cons_ne_nil _ _
    · exact h hphase
  | created _ _ _ _ hhistory => exact hhistory ▸ List.cons_ne_nil _ _
  | launchFailed _ _ _ _ _ _ _ _ hhistory => exact hhistory ▸ List.cons_ne_nil _ _
  | supervised _ _ _ _ _ _ _ _ _ hhistory => exact hhistory ▸ List.cons_ne_nil _ _

/-- The log is there only when `state.json` is. -/
theorem document (h : Watched setup w) (hfile : w.logsNdjson.isSome) :
    ∃ state, w.state? = some state ∧ w.history.head? = some state := by
  have hphase : w.phase ≠ .unlaunched := by
    intro hphase
    rw [(h.log.plumbing.untouched (by rw [hphase]; decide) (by rw [hphase]; decide)).file] at hfile
    cases hfile
  obtain ⟨state, hstate⟩ := Option.isSome_iff_exists.mp
    (List.isSome_head?.mpr (h.written hphase))
  exact ⟨state, (h.recorded.document hphase).trans hstate, hstate⟩

/-- A state that is not too large can be read as soon as the log is there. -/
theorem readState {t : Thread} {r : Except AppError RunState} (h : Watched setup w)
    (hfile : w.logsNdjson.isSome) (hfault : a.fault = none)
    (hreadable : ∀ state ∈ w.state?, state.Readable)
    (hexec : execClient t .readState a w = some (r, w')) :
    ∃ state, r = .ok state ∧ w'.state? = some state ∧ w'.history.head? = some state ∧
      w'.logsNdjson.isSome := by
  obtain ⟨state, hstate, hhead⟩ := h.document hfile
  have hmem : state ∈ w.history := List.mem_of_mem_head? hhead
  obtain ⟨hrunId, hdir, -⟩ := h.readable.founded (List.ne_nil_of_mem hmem)
  have hcheck := checkState_of_documents hrunId (h.readable.documents state hmem)
  obtain ⟨_, hsome, -, -⟩ | ⟨-, hexec⟩ := fallible_cases hexec
  · exact nomatch hfault.symm.trans hsome
  obtain ⟨hr, rfl⟩ := Prod.mk.inj (Option.some.inj hexec)
  refine ⟨state, ?_, hstate, hhead, hfile⟩
  have hread : w.stateJson.read w.statePath = .ok state := by
    cases hjson : w.stateJson with
    | document found =>
      rw [StateFile.read_document (hreadable found (by rw [World.state?, hjson]; rfl))]
      rw [World.state?, hjson] at hstate
      exact congrArg Except.ok (Option.some.inj hstate)
    | _ =>
      rw [World.state?, hjson] at hstate
      cases hstate
  rw [← hr, if_pos hdir, hread, h.readable.runId]
  exact hcheck

/-- What is read after a state that is not `failed`. -/
theorem snapshot {state : RunState} {bytes : Bytes} (h : Watched setup w) (h' : Watched setup w')
    (hgrows : Grows w w') (hfile : w.logsNdjson.isSome) (hstate : w.state? = some state)
    (hhead : w.history.head? = some state) (hbytes : w'.logsNdjson = some bytes)
    (hfailed : state.status ≠ .failed) : ∃ records tail, Snapshot state bytes records tail := by
  obtain ⟨bytes₁, hbytes₁⟩ := Option.isSome_iff_exists.mp hfile
  obtain ⟨records₁, tail₁, h₁⟩ := h.log.sound
  obtain ⟨records₂, tail₂, h₂⟩ := h'.log.sound
  have hfile₁ : bytes₁ = recordLines records₁ ++ tail₁ := by
    have hfile₁ := h₁.file
    rwa [show w.logView.file = some bytes₁ from hbytes₁] at hfile₁
  have hfile₂ : bytes = recordLines records₂ ++ tail₂ := by
    have hfile₂ := h₂.file
    rwa [show w'.logView.file = some bytes from hbytes] at hfile₂
  cases hterminal : state.status.isTerminal with
  | true =>
    have hcomplete : state.status.complete := by
      by_contra hne
      exact hfailed (RunStatus.eq_failed hterminal (by simpa using hne))
    obtain ⟨hlines, -, writer, hwriter, hlogs⟩ := h₁.complete state hstate hcomplete
    have hnext : state.logs.nextCursor = records₁.length + 1 := by
      rw [hlogs]
      exact hwriter.nextCursor
    obtain rfl : bytes = recordLines records₁ := by
      have hsame := (hgrows.settled state hhead hterminal).2
      exact Option.some.inj (hbytes.symm.trans (hsame.trans hlines))
    exact ⟨records₁, [], (List.append_nil _).symm, List.not_mem_nil, Nat.zero_le _, h₁.numbered,
      Nat.le_of_eq hnext, fun _ => ⟨rfl, hnext⟩⟩
  | false =>
    refine ⟨records₂, tail₂, hfile₂, h₂.unended, h₂.fits, h₂.numbered, ?_, ?_⟩
    · -- Every record that the state counts has its newline in the file.
      obtain ⟨more, hmore⟩ := hgrows.file bytes₁ hbytes₁
      have hcount : records₁.length ≤ records₂.length := by
        rw [← h₁.numbered.count_newline h₁.unended, ← h₂.numbered.count_newline h₂.unended,
          ← hfile₁, ← hfile₂, Option.some.inj (hbytes.symm.trans hmore), List.count_append]
        exact Nat.le_add_right _ _
      exact Nat.le_trans (h₁.durable state hstate) (Nat.succ_le_succ hcount)
    · intro h
      rw [hterminal] at h
      cases h

end Watched

/-! ## The client -/

/-- A page as the client was given it: of a state that was there, and of a file
    that was read after it. -/
structure Polled (page : Page) (w : World) : Prop where
  history : page.state ∈ w.history
  read : ∃ bytes more, page.result = readLogs page.state page.query (.ok (.ok bytes)) ∧
    w.logsNdjson = some (bytes ++ more) ∧
    (page.state.status ≠ .failed → ∃ records tail, Snapshot page.state bytes records tail)

/-- The pages of a client that polls from a cursor on with the given limits, until
    it is refused. -/
inductive Walk (stream : Option LogStream) : Nat → List Nat → List Page → Prop where
  | nil {after : Nat} : Walk stream after [] []
  | cons {after limit : Nat} {limits : List Nat} {page : Page} {pages : List Page}
      {result : LogsResult} (hquery : page.query = { afterCursor := after, limit, stream })
      (hresult : page.result = .ok result) (h : Walk stream result.nextAfterCursor limits pages) :
      Walk stream after (limit :: limits) (page :: pages)
  | refused {after limit : Nat} {limits : List Nat} {page : Page} {e : AppError}
      (hquery : page.query = { afterCursor := after, limit, stream })
      (hresult : page.result = .error e) : Walk stream after (limit :: limits) [page]

theorem Polled.grows {page : Page} (h : Polled page w) (hgrows : Grows w w') : Polled page w' where
  history := hgrows.mem h.history
  read := by
    obtain ⟨bytes, more, hresult, hbytes, hsnapshot⟩ := h.read
    obtain ⟨more', hmore'⟩ := hgrows.file _ hbytes
    exact ⟨bytes, more ++ more', hresult, by rw [hmore', List.append_assoc], hsnapshot⟩

/-- No call of a client fails. -/
def callsSucceed (n : Nat) : system.Condition := fun i _ _ a _ =>
  i = .client n → a.fault = none ∧ a.io = none

/-- The command reads `state.json` for a client. -/
def Polls (n : Nat) : {β : Type} → (i : Thread) → i.Cmd β → Prop
  | _, .client index, .readState => index = n
  | _, _, _ => False

/-- No call of a client fails, and no `state.json` that it reads is too large. -/
def readsSucceed (n : Nat) : system.Condition := fun i _ c a w =>
  callsSucceed n i c a w ∧ (Polls n i c → ∀ state ∈ w.state?, state.Readable)

/-- What is known of the steps of the client. -/
def polling (setup : Setup) (n : Nat) : system.Condition := fun i _ c a w =>
  readsSucceed n i c a w ∧ Watched setup w ∧
    ∀ b w', exec i c a w = some (b, w') → Watched setup w' ∧ Grows w w'

theorem reach_polling (h : Machine.Reach (readsSucceed n) setup.initial cfg) :
    Machine.Reach (polling setup n) setup.initial cfg := by
  have hreach : Machine.Reach (fun i _ c a w => (readsSucceed n i c a w ∧ Logged setup i c a w) ∧
      Documented setup False i c a w) setup.initial cfg :=
    reach_documented nofun nofun (reach_logged h)
  refine (hreach.with_reached (J := Watched setup) fun cfg h => ?_).mono ?_
  · refine ⟨reach_logRun h, reach_readable h, reach_recorded h, ?_⟩
    exact Machine.Reach.invariant (M := system)
      (J := fun w => w.phase ≠ .unlaunched → w.history ≠ [])
      (fun _ _ _ _ _ _ _ hok hexec hw => Watched.written_step hok.2 hexec hw) h
      fun hphase => absurd rfl hphase
  · rintro i β c a w ⟨⟨⟨hok, hlogged⟩, hdocumented⟩, hw, hw'⟩
    exact ⟨hok, hw, fun b w' hexec => ⟨hw' b w' hexec, .step hlogged hdocumented hexec⟩⟩

/-- The interface of the client. -/
abbrev poller (setup : Setup) (n : Nat) : Interface ClientCmd World :=
  Machine.relying (M := system) (polling setup n) (.client n) Grows .refl .trans

/-- The state, and the file after it. -/
theorem wp_read {E : AppError → Unit → World → Prop} {α : Type} {P : World → Prop}
    {k : RunState → Except IoError (Except AppError Bytes) → Client α}
    {Q : α → Unit → World → Prop} (hP : ∀ w w', Grows w w' → P w → P w')
    (hfile : w.logsNdjson.isSome) (hw : P w)
    (hk : ∀ state bytes w, P w → w.logsNdjson = some bytes → state ∈ w.history →
      (state.status ≠ .failed → ∃ records tail, Snapshot state bytes records tail) →
      Proc.wp (poller setup n) (k state (.ok (.ok bytes))) Q E () w) :
    Proc.wp (poller setup n) (Proc.attempt .readState >>= fun state =>
      Proc.call .readLogs >>= fun file => k state file) Q E () w := by
  refine Proc.wp_bind (Proc.wp_attempt ?_)
  rintro w₁ hgrows r w₂ ⟨a, ⟨hsucceeds, hwatched, hstep⟩, hexec⟩
  obtain ⟨hwatched₂, hgrows₂⟩ := hstep r w₂ hexec
  obtain ⟨bytes₀, hbytes₀⟩ := Option.isSome_iff_exists.mp hfile
  obtain ⟨more, hmore⟩ := hgrows.file bytes₀ hbytes₀
  obtain ⟨state, rfl, hstate, hhead, hfile₂⟩ :=
    hwatched.readState (hmore ▸ rfl) (hsucceeds.1 rfl).1 (hsucceeds.2 rfl) hexec
  refine ⟨trivial, Proc.wp_bind (Proc.wp_call ?_)⟩
  rintro w₃ hgrows₃ file w₄ ⟨a', ⟨hsucceeds', hwatched₃, -⟩, hexec'⟩
  refine ⟨trivial, ?_⟩
  obtain ⟨bytes₂, hbytes₂⟩ := Option.isSome_iff_exists.mp hfile₂
  obtain ⟨more', hbytes⟩ := hgrows₃.file bytes₂ hbytes₂
  have hopen := execClient_readLogs (t := .client n) (w := w₃) (hsucceeds'.1 rfl).2
    (hsucceeds'.1 rfl).1
  obtain ⟨rfl, rfl⟩ := Prod.mk.inj (Option.some.inj (hopen.symm.trans hexec'))
  simp only [World.openLogs, hbytes]
  refine hk state _ w₃ (hP _ _ (hgrows.trans (hgrows₂.trans hgrows₃)) hw) hbytes
    (hgrows₃.mem (List.mem_of_mem_head? hhead)) fun hfailed => ?_
  exact hwatched₂.snapshot hwatched₃ hgrows₃ hfile₂ hstate hhead hbytes hfailed

/-- The pages, with what else is known of a world that grows. -/
theorem wp_pageLogs {E : AppError → Unit → World → Prop} {P : World → Prop}
    (stream : Option LogStream) (limits : List Nat) (after : Nat)
    (hP : ∀ w w', Grows w w' → P w → P w') (hfile : w.logsNdjson.isSome) (hw : P w) :
    Proc.wp (poller setup n) (pageLogs stream after limits)
      (fun pages _ w => P w ∧ Walk stream after limits pages ∧ ∀ page ∈ pages, Polled page w)
      E () w := by
  induction limits generalizing after w P with
  | nil => exact Proc.wp_pure ⟨hw, .nil, List.forall_mem_nil _⟩
  | cons limit limits ih =>
    refine wp_read hP hfile hw ?_
    intro state bytes w hw hbytes hhistory hsnapshot
    let query : LogQuery := { afterCursor := after, limit, stream }
    have hpolled (result : Except AppError LogsResult)
        (hresult : readLogs state query (.ok (.ok bytes)) = result) :
        Polled { state, query, result } w :=
      ⟨hhistory, bytes, [], hresult.symm, by rw [List.append_nil, hbytes], hsnapshot⟩
    cases hresult : readLogs state query (.ok (.ok bytes)) with
    | error e =>
      simp only [query] at hresult
      simp only [hresult]
      exact Proc.wp_pure
        ⟨hw, Walk.refused rfl rfl, List.forall_mem_singleton.mpr (hpolled _ hresult)⟩
    | ok result =>
      -- The page stays what it is while the others are read.
      have hkept : ∀ w w', Grows w w' → P w ∧ Polled { state, query, result := .ok result } w →
          P w' ∧ Polled { state, query, result := .ok result } w' :=
        fun w w' hgrows hw => ⟨hP w w' hgrows hw.1, hw.2.grows hgrows⟩
      have hrest := ih result.nextAfterCursor hkept (hbytes ▸ rfl) ⟨hw, hpolled _ hresult⟩
      simp only [query] at hresult
      simp only [hresult]
      refine Proc.wp_seq _ hrest ?_
      rintro pages s w ⟨⟨hw, hpage⟩, hwalk, hpages⟩
      exact Proc.wp_pure ⟨hw, .cons rfl rfl hwalk, List.forall_mem_cons.mpr ⟨hpage, hpages⟩⟩

theorem wp_pollLogs {E : AppError → Unit → World → Prop} (stream : Option LogStream)
    (limits : List Nat) :
    Proc.wp (poller setup n) (pollLogs stream limits)
      (fun pages _ w => Walk stream 0 limits pages ∧ ∀ page ∈ pages, Polled page w) E () w := by
  refine Proc.wp_bind (Proc.wp_call ?_)
  rintro w₁ - u w₂ ⟨a, -, hexec⟩
  refine ⟨trivial, ?_⟩
  have hfile : w₂.logsNdjson.isSome := by
    simp only [exec, execClient] at hexec
    split at hexec
    · rename_i hfile
      cases hexec
      exact hfile
    · cases hexec
  exact Proc.wp_mono (wp_pageLogs (P := fun _ => True) stream limits 0 (fun _ _ _ _ => trivial)
    hfile trivial) (fun _ _ _ h => h.2) fun _ _ _ h => h

/-- The pages of a client that has returned. -/
theorem polled_of_reach {stream : Option LogStream} {limits : List Nat}
    (hclient : setup.clients n = (pollLogs stream limits).program .paged)
    (h : Machine.Reach (readsSucceed n) setup.initial cfg) {r : ClientResult}
    (hr : cfg.thread (.client n) = .ret r) :
    ∃ pages, r = .paged (.ok pages) ∧ Walk stream 0 limits pages ∧
      ∀ page ∈ pages, Polled page cfg.world := by
  refine Machine.Describes.result (M := system) (i := .client n) (V := id) (L := poller setup n)
    (Q := fun r w => ∃ pages, r = .paged (.ok pages) ∧ Walk stream 0 limits pages ∧
      ∀ page ∈ pages, Polled page w)
    (Machine.describes_relying fun j _ c a w b w' hok hexec => (hok.2.2 b w' hexec).2) ?_ ?_
    (reach_polling h) hr
  · rintro r w w' hgrows ⟨pages, rfl, hwalk, hpages⟩
    exact ⟨pages, rfl, hwalk, fun page hpage => (hpages page hpage).grows hgrows⟩
  · change Prog.wp _ (setup.clients n) _ setup.world
    rw [hclient]
    refine Prog.wp_bind (Prog.wp_mono ?_ (wp_pollLogs (E := fun _ _ _ => False) stream limits))
    rintro ⟨e | pages, _⟩ w hw
    · exact absurd hw id
    · exact Prog.wp_ret ⟨pages, rfl, hw⟩

/-! ## Delivery -/

end Runs

/-- The selection of a stream. -/
def LogRecord.on (stream : Option LogStream) (record : LogRecord) : Bool :=
  stream.all (· = record.stream)

/-- What a page says about the records. -/
def Page.fetched (page : Page) : Paging.Page LogRecord :=
  { low := page.query.afterCursor
    high := page.state.logs.nextCursor
    limit := page.query.limit
    items := page.result.toOption.elim [] (·.records)
    more := page.result.toOption.elim false (·.hasMore) }

/-- A poll that succeeded and shows its part of the records. -/
structure Page.Served (records : List LogRecord) (page : Page) : Prop where
  succeeds : ∃ result, page.result = .ok result ∧
    result.nextAfterCursor = page.fetched.next (·.cursor)
  serves : page.fetched.Serves (·.cursor) (records.filter (·.on page.query.stream))

namespace Walk

variable {stream : Option LogStream} {after : Nat} {limits : List Nat} {pages : List Page}

omit [Toolchain] in
theorem queried (h : Walk stream after limits pages) :
    ∀ page ∈ pages, page.query.stream = stream ∧ page.query.limit ∈ limits := by
  induction h with
  | nil => exact List.forall_mem_nil _
  | cons hquery _ _ ih =>
    refine List.forall_mem_cons.mpr ⟨by rw [hquery]; exact ⟨rfl, List.mem_cons_self⟩, ?_⟩
    exact fun page hpage => ⟨(ih page hpage).1, List.mem_cons_of_mem _ (ih page hpage).2⟩
  | refused hquery =>
    refine List.forall_mem_singleton.mpr ?_
    rw [hquery]
    exact ⟨rfl, List.mem_cons_self⟩

omit [Toolchain] in
/-- Without a refusal there is one page for each limit, each from the cursor that
    the one before it ended with. -/
theorem chained (h : Walk stream after limits pages)
    (hserved : ∀ page ∈ pages, page.Served records) :
    pages.map (·.query.limit) = limits ∧
      ∃ stop, Paging.Chain (·.cursor) after (pages.map Page.fetched) stop := by
  induction h with
  | nil => exact ⟨rfl, _, .nil⟩
  | @cons after limit limits page pages result hquery hresult _ ih =>
    obtain ⟨hpage, hpages⟩ := List.forall_mem_cons.mp hserved
    obtain ⟨hlimits, stop, hchain⟩ := ih hpages
    refine ⟨by rw [List.map_cons, hlimits, hquery], stop, ?_⟩
    obtain ⟨result', hresult', hnext⟩ := hpage.succeeds
    obtain rfl : result = result' := Except.ok.inj (hresult.symm.trans hresult')
    obtain rfl : page.fetched.low = after := congrArg LogQuery.afterCursor hquery
    rw [hnext] at hchain
    exact .cons hchain
  | refused _ hresult =>
    obtain ⟨result, hok, -⟩ := (List.forall_mem_singleton.mp hserved).succeeds
    exact nomatch hresult.symm.trans hok

end Walk

/-- Every page of a client shows the records of the finished log that it may see. -/
theorem Polled.served [LawfulLogFormat] {page : Page} {w : World} (h : Polled page w)
    (hnumbered : Numbered records) (hfile : w.logsNdjson = some (recordLines records))
    (hfailed : page.state.status ≠ .failed)
    (hlimit : 1 ≤ page.query.limit ∧ page.query.limit ≤ 1000) : page.Served records := by
  obtain ⟨bytes, more, hresult, hbytes, hsnapshot⟩ := h.read
  obtain ⟨seen, tail, hsnapshot⟩ := hsnapshot hfailed
  obtain ⟨result, hread, hrecords, hmore, hnext⟩ := hsnapshot.readLogs_eq hlimit
  have hsplit : recordLines records = recordLines seen ++ (tail ++ more) := by
    rw [← List.append_assoc, ← hsnapshot.file]
    exact Option.some.inj (hfile.symm.trans hbytes)
  have hpre := prefix_of_recordLines hsnapshot.numbered hnumbered hsplit
  rw [hread] at hresult
  have hwindow : ((seen.filter fun record => record.cursor < page.state.logs.nextCursor).filter
        page.query.matches) = Paging.window (·.cursor) page.query.afterCursor
      page.state.logs.nextCursor (records.filter (·.on page.query.stream)) := by
    rw [hsnapshot.visible hnumbered hpre, Paging.window, List.filter_filter, List.filter_filter]
    refine List.filter_congr fun record _ => ?_
    simp only [LogQuery.matches, LogRecord.on, Bool.decide_and]
    rw [Bool.and_assoc, Bool.and_assoc, Bool.and_comm (Option.all _ _)]
  rw [hwindow] at hrecords hmore
  refine ⟨⟨result, hresult, ?_⟩, ?_, ?_⟩
  · rw [hnext, Paging.Page.next, Page.fetched, hresult]
    rfl
  · exact (congrArg (fun r => r.toOption.elim [] (·.records)) hresult).trans hrecords
  · have hannounced : page.fetched.more = result.hasMore :=
      congrArg (fun r => r.toOption.elim false (·.hasMore)) hresult
    rw [hannounced, hmore, decide_eq_true_iff]
    rfl

/-- What a polling client is given: a page for each limit, from the beginning on
    and without an error. Up to a page of the terminal state that announces no more
    these are all of the records, each of them once and in order. -/
structure PagesDelivered (stream : Option LogStream) (limits : List Nat) (records : List LogRecord)
    (pages : List Page) : Prop where
  limited : pages.map (·.query.limit) = limits
  selected : ∀ page ∈ pages, page.query.stream = stream
  served : ∀ page ∈ pages, page.Served records
  chained : ∃ stop, Paging.Chain (·.cursor) 0 (pages.map Page.fetched) stop
  complete : ∀ front page back, pages = front ++ page :: back → page.state.status.isTerminal →
    page.fetched.more = false →
    (front ++ [page]).flatMap (·.fetched.items) = records.filter (·.on stream)

/-- A client that polls the log of a run that exits or stops is given every record
    of its stream exactly once. -/
theorem log_paging [LawfulLogFormat] (setup : Setup) (n : Nat) (stream : Option LogStream)
    (limits : List Nat) (hlimits : ∀ limit ∈ limits, 1 ≤ limit ∧ limit ≤ 1000)
    (hclient : setup.clients n = (pollLogs stream limits).program .paged) {cfg : system.Config}
    (h : Machine.Reach (readsSucceed n) setup.initial cfg) {r : ClientResult}
    (hr : cfg.thread (.client n) = .ret r) {final : RunState}
    (hstate : cfg.world.state? = some final)
    (hfinal : final.status = .exited ∨ final.status = .stopped) :
    ∃ records pages, r = .paged (.ok pages) ∧ cfg.world.logsNdjson = some (recordLines records) ∧
      Numbered records ∧ final.logs.nextCursor = records.length + 1 ∧
      PagesDelivered stream limits records pages := by
  obtain ⟨pages, rfl, hwalk, hpolled⟩ := polled_of_reach hclient h hr
  have hrun := reach_logRun h
  have hrecorded := reach_recorded h
  obtain ⟨records, tail, hsound⟩ := hrun.sound
  have hcomplete : final.status.complete := by
    rcases hfinal with hfinal | hfinal <;> rw [hfinal] <;> rfl
  obtain ⟨hfile, -, writer, hwriter, hlogs⟩ := hsound.complete final hstate hcomplete
  have hfile : cfg.world.logsNdjson = some (recordLines records) := hfile
  have hnext : final.logs.nextCursor = records.length + 1 := by
    rw [hlogs]
    exact hwriter.nextCursor
  have hhead : cfg.world.history.head? = some final := by
    rw [← hrecorded.document, hstate]
    intro hphase
    rw [(hrun.plumbing.untouched (by rw [hphase]; decide) (by rw [hphase]; decide)).file] at hfile
    cases hfile
  obtain ⟨rest, hrest⟩ := List.head?_eq_some_iff.mp hhead
  have hlive : ∀ state ∈ rest, state.status.isTerminal = false := by
    have hlifecycle := hrecorded.lifecycle
    rw [hrest] at hlifecycle
    exact hlifecycle.tail_live
  -- The only terminal state that a client may have read is the final one.
  have hstates (page : Page) (hpage : page ∈ pages) :
      page.state = final ∨ page.state.status.isTerminal = false := by
    have hmem := (hpolled page hpage).history
    rw [hrest] at hmem
    exact (List.mem_cons.mp hmem).imp id (hlive page.state)
  have hserved : ∀ page ∈ pages, page.Served records := by
    intro page hpage
    have hlimit := hlimits _ (hwalk.queried page hpage).2
    refine (hpolled page hpage).served hsound.numbered hfile ?_ hlimit
    intro hfailed
    obtain heq | hlive := hstates page hpage
    · rw [← heq, hfailed] at hcomplete
      cases hcomplete
    · rw [hfailed] at hlive
      cases hlive
  obtain ⟨hlimited, stop, hchain⟩ := hwalk.chained hserved
  refine ⟨records, pages, rfl, hfile, hsound.numbered, hnext, hlimited,
    fun page hpage => (hwalk.queried page hpage).1, hserved, ⟨stop, hchain⟩, ?_⟩
  rintro front page back rfl hterminal hmore
  have hpage : page ∈ front ++ page :: back := List.mem_append_right _ List.mem_cons_self
  obtain rfl : page.state = final := by
    obtain heq | hlive := hstates page hpage
    · exact heq
    · rw [hlive] at hterminal
      cases hterminal
  rw [List.map_append, List.map_cons] at hchain
  obtain ⟨mid, hchain, -⟩ := (List.append_cons .. ▸ hchain).append
  have hkeys : (records.filter (·.on stream)).Pairwise (·.cursor < ·.cursor) :=
    hsound.numbered.increasing.filter _
  have hserves : ∀ page' ∈ front.map Page.fetched ++ [page.fetched],
      page'.Serves (·.cursor) (records.filter (·.on stream)) := by
    intro page' hpage'
    have hmem : page' ∈ (front ++ page :: back).map Page.fetched := by
      rw [List.append_cons, List.map_append, List.map_append]
      exact List.mem_append_left _ hpage'
    obtain ⟨source, hsource, rfl⟩ := List.mem_map.mp hmem
    rw [← (hwalk.queried source hsource).1]
    exact (hserved source hsource).serves
  have hvisible : ∀ record ∈ records.filter (·.on stream), record.cursor < page.fetched.high := by
    intro record hrecord
    have hbounds := hsound.numbered.cursor_bounds record (List.mem_of_mem_filter hrecord)
    change record.cursor < page.state.logs.nextCursor
    omega
  have hall := hchain.complete hkeys hserves hmore hvisible
  rw [← List.map_singleton, ← List.map_append, List.flatMap_map] at hall
  refine hall.trans (List.filter_eq_self.mpr fun record hrecord => decide_eq_true ?_)
  exact (hsound.numbered.cursor_bounds record (List.mem_of_mem_filter hrecord)).1

end Procherd

namespace Procherd.Reference

open Interaction

/-- The client that asks for two pages of one record. -/
def pager : ClientProgram := (pollLogs none [1, 1]).program .paged

/-- The states and the records of the pages of a client. -/
def paged? (cfg : system.Config) : Option (List (RunStatus × List Nat)) :=
  match (cfg.thread (.client 0)).result? with
  | some (.paged (.ok pages)) =>
    some (pages.map fun page => (page.state.status, page.fetched.items.map (·.cursor)))
  | _ => none

/-- A move in which the client reads without a failure. -/
def readsWell (_ : system.Config) (m : system.Move) : Bool :=
  decide (m.1 = .client 0 → m.2.fault.isNone ∧ m.2.io.isNone)

theorem meets_readsSucceed (cfg : system.Config) (m : system.Move) (h : readsWell cfg m) :
    Machine.Meets (M := system) (readsSucceed 0) cfg m := by
  intro β c k _
  refine ⟨fun hclient => ?_, fun _ state _ => readable state⟩
  obtain ⟨hfault, hio⟩ := of_decide_eq_true h hclient
  exact ⟨Option.isNone_iff_eq_none.mp hfault, Option.isNone_iff_eq_none.mp hio⟩

/-- The client polls a running and an exited run. -/
theorem log_paging_exited : ∃ (cfg : system.Config) (records : List LogRecord) (pages : List Page),
    paged? cfg = some [(.running, []), (.exited, [1])] ∧
      cfg.thread (.client 0) = .ret (.paged (.ok pages)) ∧
      cfg.world.logsNdjson = some (recordLines records) ∧
      PagesDelivered none [1, 1] records pages := by
  have hrun : (Machine.runChecked readsWell (setup pager).initial
      (startUp ++ steps (.client 0) 3 {} ++ finish ++ steps (.client 0) 2 {})).map
      (fun cfg => (paged? cfg, cfg.world.state?.map (·.status))) =
      some (some [(.running, []), (.exited, [1])], some .exited) := by decide +kernel
  obtain ⟨cfg, hcfg, h⟩ := Option.map_eq_some_iff.mp hrun
  obtain ⟨hpaged, hstatus⟩ := Prod.mk.inj h
  obtain ⟨final, hstate, hfinal⟩ := Option.map_eq_some_iff.mp hstatus
  cases hresult : (cfg.thread (.client 0)).result? with
  | none =>
    rw [paged?, hresult] at hpaged
    cases hpaged
  | some r =>
    have hr := Prog.eq_ret_of_result? hresult
    obtain ⟨records, pages, rfl, hfile, -, -, hdelivered⟩ :=
      log_paging (setup pager) 0 none [1, 1] (by decide) rfl
        (.of_runChecked meets_readsSucceed hcfg) hr hstate (.inl hfinal)
    exact ⟨cfg, records, pages, hpaged, hr, hfile, hdelivered⟩

end Procherd.Reference

namespace Procherd

open Interaction

/-- A client that finds a state which is too large is refused. -/
theorem advance_pollLogs_oversized [Toolchain] {w : World} {state : RunState} (hdir : w.dir)
    (hstate : w.stateJson = .document state) (hoversized : ¬ state.Readable)
    (hfile : w.logsNdjson.isSome) (n : Nat) (stream : Option LogStream) (limit : Nat)
    (limits : List Nat) :
    Prog.advance (exec (.client n)) [{}, {}]
        ((pollLogs stream (limit :: limits)).program .paged) w =
      some (.ret (.paged (.error (oversizedDocument w.statePath))),
        { w with foundFree := Function.update w.foundFree (.client n) false }) := by
  have hawait : exec (.client n) .awaitLogs {} w = some ((), w) := by
    simp only [exec, execClient, hfile, if_true]
  have hread : exec (.client n) .readState {} w = some (.error (oversizedDocument w.statePath),
      { w with foundFree := Function.update w.foundFree (.client n) false }) := by
    simp only [exec, execClient, fallible, hdir, if_true, hstate,
      StateFile.read_oversized hoversized, Except.bind]
  refine (Prog.advance_exec hawait).trans ?_
  exact Prog.advance_exec hread

end Procherd

namespace Procherd.Oversized

open Interaction

/-- The reference toolchain with the sizes of the documents that are written. -/
scoped instance measured : Toolchain :=
  { Reference.toolchain with
    stateLength := fun state => (state.encode.map List.length).getD 0
    specLength := fun spec => (spec.encode.map List.length).getD 0 }

scoped instance lawfulStateFormat : LawfulStateFormat where
  stateLength_eq state bytes h := by
    change (state.encode.map List.length).getD 0 = bytes.length
    rw [h]
    rfl
  specLength_eq spec bytes h := by
    change (spec.encode.map List.length).getD 0 = bytes.length
    rw [h]
    rfl

/-! ### The setup

Seven arguments name the temporary directory 27 times each. Its path is 3.8 KiB
long and consists of control characters, each of which takes six bytes in a
document. -/

def rootFront : String :=
  String.ofList (List.replicate 15 ('/' :: List.replicate 250 (Char.ofNat 1))).flatten

def counts : List Nat := List.replicate 7 27

def options : StartOptions :=
  { Reference.options with
    leaseTempDirs := ["t"]
    args := counts.map (repeated · (tempPlaceholder "t")) }

def setup : Setup :=
  { Reference.setup ((pollLogs none [1]).program .paged) with
    options
    root := .ofString (rootFront ++ "/state") }

def requests : LeaseRequests := { portNames := [], tempDirectoryNames := ["t"] }

def created : RunState := options.initialState requests 0

def spec : SupervisorSpec := options.spec requests 0

/-- The path of the temporary directory. -/
def leaseText : String :=
  rootFront ++ "/state" ++ "/" ++ options.runId ++ "/" ++ "resources" ++ "/" ++ "temp" ++ "/" ++ "t"

theorem tempPaths_eq : tempPaths setup.runDir ["t"] = [("t", .ofString leaseText)] := by
  have hpath : (tempRoot setup.runDir).join "t" = .ofString leaseText := by
    rw [tempRoot, Setup.runDir, show setup.root = .ofString (rootFront ++ "/state") from rfl,
      OsString.join_ofString (by decide) (by decide +kernel),
      OsString.join_ofString (by decide +kernel) (by decide),
      OsString.join_ofString (by decide) (by decide),
      OsString.join_ofString (by decide) (by decide)]
    rfl
  rw [← hpath]
  rfl

theorem toList_rootFront : rootFront.toList =
    (List.replicate 15 ('/' :: List.replicate 250 (Char.ofNat 1))).flatten := String.toList_ofList

theorem leaseText_clean : '{' ∉ leaseText.toList := by
  have hfront : '{' ∉ rootFront.toList := by
    rw [toList_rootFront]
    intro hmem
    obtain ⟨name, hname, hmem⟩ := List.mem_flatten.mp hmem
    rw [List.eq_of_mem_replicate hname] at hmem
    obtain heq | hmem := List.mem_cons.mp hmem
    · exact absurd heq (by decide)
    · exact absurd (List.eq_of_mem_replicate hmem) (by decide)
  have hback : '{' ∉ ("/state" ++ "/" ++ options.runId ++ "/" ++ "resources" ++ "/" ++ "temp" ++
      "/" ++ "t").toList := by decide +kernel
  simp only [leaseText, String.append_assoc, String.toList_append, List.mem_append, not_or] at *
  exact ⟨hfront, hback⟩

theorem escapedSize_leaseText : 22515 ≤ (leaseText.toList.map Json.escapedSize).sum := by
  have hslash : Json.escapedSize '/' = 1 := by decide
  have hcontrol : Json.escapedSize (Char.ofNat 1) = 6 := by decide
  have hfront : (rootFront.toList.map Json.escapedSize).sum = 22515 := by
    rw [toList_rootFront, List.map_flatten, List.map_replicate, List.sum_flatten,
      List.map_replicate, List.sum_replicate_nat, List.map_cons, List.map_replicate, List.sum_cons,
      List.sum_replicate_nat, hslash, hcontrol]
  simp only [leaseText, String.append_assoc, String.toList_append, List.map_append, List.sum_append]
  omega

/-! ### The run -/

theorem launched :
    (Machine.run setup.initial (Reference.steps .start 8 {})).map (fun cfg => (cfg.world.phase,
      cfg.world.lock, cfg.world.dir, cfg.world.stateJson, cfg.world.specJson)) =
      some (.launched, none, true, .document created, some spec) := by decide +kernel

/-- The supervisor has been launched. -/
def launchedConfig : system.Config :=
  (Machine.run setup.initial (Reference.steps .start 8 {})).get
    (by rw [← Option.isSome_map, launched]; rfl)

theorem run_launched :
    Machine.run setup.initial (Reference.steps .start 8 {}) = some launchedConfig :=
  (Option.some_get _).symm

theorem launchedConfig_eq : launchedConfig.world.phase = .launched ∧
    launchedConfig.world.lock = none ∧ launchedConfig.world.dir = true ∧
    launchedConfig.world.stateJson = .document created ∧
    launchedConfig.world.specJson = some spec := by
  have h := launched
  rw [run_launched, Option.map_some, Option.some_inj] at h
  simpa only [Prod.mk.injEq] using h

theorem documents_fit :
    (created.toJson.any fun document => document.size 0 + 1 ≤ DOCUMENT_LIMIT) ∧
      spec.toJson.any fun document => document.size 0 + 1 ≤ DOCUMENT_LIMIT := by decide +kernel

theorem loadable : Loadable spec created launchedConfig.world where
  specJson := launchedConfig_eq.2.2.2.2
  stateJson := launchedConfig_eq.2.2.2.1
  sized := SupervisorSpec.length_of_size documents_fit.2
  readable := RunState.readable_of_size documents_fit.1
  schema := rfl
  matched := by simp [specMatches, spec, created, StartOptions.spec, StartOptions.initialState]

def expanded : RunState :=
  expandedState "t" (.ofString leaseText) (counts.map (repeated · leaseText))
    (startingState created)

theorem populateState_created :
    LeaseAllocation.populateState [] (startingState created) 0
        (tempPaths launchedConfig.world.runDir ["t"]) =
      .ok (expanded, [(environmentName "TEMP" "t", .ofString leaseText)]) := by
  have hrunDir : launchedConfig.world.runDir = setup.runDir :=
    (Machine.Reach.of_run run_launched).invariant (M := system)
      (J := fun w => w.runDir = setup.runDir)
      (fun _ _ _ _ _ _ _ _ hexec h => (exec_runDir hexec).trans h) rfl
  rw [hrunDir, tempPaths_eq]
  exact populateState_repeated rfl (by decide) leaseText_clean rfl rfl rfl rfl

def locals : Locals :=
  { spec := spec
    state := expanded
    leases := {
      runId := options.runId
      ports := []
      environment := [(environmentName "TEMP" "t", .ofString leaseText)] }
    logs := .create spec.maxLogBytes }

/-- The supervisor has replaced the placeholders. -/
def leasedConfig : system.Config where
  world := launchedConfig.world.acquired.started created
  thread := Function.update launchedConfig.thread .supervisor
    (Supervising (underLeases (setup.runDir.join "stop.request.json") locals))

theorem run_leased :
    Machine.run launchedConfig (Reference.steps .supervisor 9 {}) = some leasedConfig := by
  obtain ⟨hphase, hlock, -⟩ := launchedConfig_eq
  have hrunId : canonicalRunId created.runId = .ok options.runId := by decide +kernel
  have hnames : validateNames ["t"] = .ok () := by decide +kernel
  have hthread : launchedConfig.thread .supervisor = setup.thread .supervisor :=
    Machine.thread_of_run (M := system) (by decide) run_launched
  exact run_superviseLocked hthread hphase hlock loadable rfl hrunId hnames (by decide)
    populateState_created

/-- The process runs, and the log is there. -/
def followedConfig : system.Config :=
  (Machine.run leasedConfig (Reference.steps .supervisor 11 {})).get (by decide +kernel)

theorem run_followed :
    Machine.run leasedConfig (Reference.steps .supervisor 11 {}) = some followedConfig :=
  (Option.some_get _).symm

theorem followedConfig_world : followedConfig.world = leasedConfig.world.followed locals := by
  have hthread : leasedConfig.thread .supervisor =
      Supervising (underLeases (setup.runDir.join "stop.request.json") locals) := rfl
  obtain ⟨p, hp⟩ := run_underLeases locals hthread
  rw [Option.some.inj (run_followed.symm.trans hp)]

/-- The state that the client finds. -/
def found : RunState :=
  followedState spec locals.leases "t" leaseText counts (startingState created)

theorem found_oversized : ¬ found.Readable := by
  have hdir : (startingState created).command.workingDirectory = .ofString "/work" := rfl
  refine followedState_oversized hdir ?_
  have hsize := escapedSize_leaseText
  generalize (leaseText.toList.map Json.escapedSize).sum = size at hsize
  simp only [counts, List.map_replicate, List.sum_replicate_nat, DOCUMENT_LIMIT]
  omega

/-- The client has been refused. -/
def deniedConfig : system.Config where
  world := { followedConfig.world with
    foundFree := Function.update followedConfig.world.foundFree (.client 0) false }
  thread := Function.update followedConfig.thread (.client 0)
    (.ret (.paged (.error (oversizedDocument followedConfig.world.statePath))))

theorem run_denied :
    Machine.run followedConfig (Reference.steps (.client 0) 2 {}) = some deniedConfig := by
  have hlaunched : launchedConfig.thread (.client 0) = (pollLogs none [1]).program .paged :=
    Machine.thread_of_run (M := system) (by decide) run_launched
  have hclient : followedConfig.thread (.client 0) = (pollLogs none [1]).program .paged :=
    (Machine.thread_of_run (M := system) (by decide) run_followed).trans hlaunched
  have hdir : followedConfig.world.dir := by
    rw [followedConfig_world]
    exact launchedConfig_eq.2.2.1
  have hstate : followedConfig.world.stateJson = .document found := by
    rw [followedConfig_world]
    rfl
  have hfile : followedConfig.world.logsNdjson.isSome := by
    rw [followedConfig_world]
    rfl
  have hadvance := advance_pollLogs_oversized hdir hstate found_oversized hfile 0 none 1 []
  rw [← hclient] at hadvance
  exact Machine.run_advance (M := system) (i := .client 0) hadvance

/-- The other threads go on to the end of the run. -/
def rest : List system.Move := Reference.steps .supervisor 1 {} ++ Reference.finish

theorem finished : (Machine.run deniedConfig rest).map (fun cfg =>
    cfg.world.state?.map (·.status)) = some (some .exited) := by decide +kernel

/-- A client is refused the log of a run that exits, although all its calls
    succeed: the state is larger than what `read_json` accepts. -/
theorem log_paging_oversized : ∃ (cfg : system.Config) (final : RunState) (path : PathBuf),
    Machine.Reach (callsSucceed 0) setup.initial cfg ∧ cfg.world.state? = some final ∧
      final.status = .exited ∧
      cfg.thread (.client 0) = .ret (.paged (.error (oversizedDocument path))) := by
  obtain ⟨cfg, hcfg, hstatus⟩ := Option.map_eq_some_iff.mp finished
  obtain ⟨final, hstate, hfinal⟩ := Option.map_eq_some_iff.mp hstatus
  have hrun : Machine.run setup.initial (Reference.steps .start 8 {} ++
      (Reference.steps .supervisor 9 {} ++ (Reference.steps .supervisor 11 {} ++
        (Reference.steps (.client 0) 2 {} ++ rest)))) = some cfg :=
    Machine.run_append run_launched (Machine.run_append run_leased
      (Machine.run_append run_followed (Machine.run_append run_denied hcfg)))
  refine ⟨cfg, final, followedConfig.world.statePath, Machine.reach_of_run ?_ hrun, hstate, hfinal,
    ?_⟩
  · have hanswers : ∀ m ∈ Reference.steps .start 8 {} ++ (Reference.steps .supervisor 9 {} ++
        (Reference.steps .supervisor 11 {} ++ (Reference.steps (.client 0) 2 {} ++ rest))),
        m.2.fault.isNone ∧ m.2.io.isNone := by decide
    rintro m hm β c w -
    exact (hanswers m hm).imp Option.isNone_iff_eq_none.mp Option.isNone_iff_eq_none.mp
  · exact Machine.thread_of_run (M := system) (i := .client 0) (by decide) hcfg

end Procherd.Oversized
