-- SUMMARY: Pages of a log: what `read_logs` makes of the lines of a file, and that the pages of a terminal log validate every line of it.
import Procherd.Reference

/-!
# Log pages

`read_logs` examines the lines of a file from the first one on, whatever cursor
the page starts after. It ends where the page is full, at the end of the file,
or, while the run is live, at the durable boundary.
-/

namespace Procherd

variable [Toolchain] {state : RunState} {query : LogQuery} {previous : Nat} {line : Bytes}
  {lines : List Bytes} {record : LogRecord} {records page : List LogRecord}

/-! ## One line -/

/-- The checks of one line: the record to go on with, or `none` where a live
    reader stops. -/
def examine (state : RunState) (previous : Nat) (line : Bytes) :
    Except AppError (Option LogRecord) :=
  if MAX_RECORD_LINE_BYTES < line.length then
    .error (.integrity ("log record exceeds " ++ toString MAX_RECORD_LINE_BYTES ++ " bytes"))
  else if line.getLast? ≠ some NEWLINE then
    if state.status.isTerminal then
      .error (.integrity "terminal run contains an incomplete log record")
    else .ok none
  else
    match Toolchain.decodeLogRecord line with
    | .error e => .error (.integrity ("invalid log record: " ++ e))
    | .ok record =>
      if record.schemaVersion ≠ LOG_RECORD_SCHEMA_VERSION then
        .error (.integrity ("unsupported log schema " ++ record.schemaVersion))
      else if record.cursor = 0 ∨ record.cursor ≤ previous then
        .error (.integrity ("log cursor " ++ toString record.cursor ++
          " is not strictly monotonic"))
      else if state.logs.nextCursor ≤ record.cursor then
        if state.status.isTerminal then
          .error (.integrity ("log cursor " ++ toString record.cursor ++
            " is outside the durable summary"))
        else .ok none
      else
        match checkRecord record with
        | .error e => .error e
        | .ok () => .ok (some record)

theorem scanLines_cons :
    scanLines state query previous page (line :: lines) =
      match examine state previous line with
      | .error e => .error e
      | .ok none => .ok (page, false)
      | .ok (some record) =>
        if !query.matches record then scanLines state query record.cursor page lines
        else if page.length = query.limit then .ok (page, true)
        else scanLines state query record.cursor (page ++ [record]) lines := by
  rw [scanLines, examine]
  by_cases hlength : MAX_RECORD_LINE_BYTES < line.length
  · rw [if_pos hlength, if_pos hlength]
  rw [if_neg hlength, if_neg hlength]
  by_cases hcomplete : line.getLast? ≠ some NEWLINE
  · rw [if_pos hcomplete, if_pos hcomplete]
    cases state.status.isTerminal <;> rfl
  rw [if_neg hcomplete, if_neg hcomplete]
  cases Toolchain.decodeLogRecord line with
  | error e => rfl
  | ok record =>
    by_cases hschema : record.schemaVersion ≠ LOG_RECORD_SCHEMA_VERSION
    · simp only [if_pos hschema]
    by_cases hcursor : record.cursor = 0 ∨ record.cursor ≤ previous
    · simp only [if_neg hschema, if_pos hcursor]
    by_cases hdurable : state.logs.nextCursor ≤ record.cursor
    · simp only [if_neg hschema, if_neg hcursor, if_pos hdurable]
      cases state.status.isTerminal <;> rfl
    simp only [if_neg hschema, if_neg hcursor, if_neg hdurable]
    cases checkRecord record <;> rfl

/-- What `read_logs` requires of a line. -/
structure LogLine (state : RunState) (line : Bytes) (record : LogRecord) : Prop where
  length_le : line.length ≤ MAX_RECORD_LINE_BYTES
  complete : line.getLast? = some NEWLINE
  decoded : Toolchain.decodeLogRecord line = .ok record
  schemaVersion : record.schemaVersion = LOG_RECORD_SCHEMA_VERSION
  cursor_pos : 0 < record.cursor
  durable : record.cursor < state.logs.nextCursor
  data : ∃ bytes, decodeRecord record = .ok bytes ∧ bytes.length = record.byteCount
  byteCount_pos : 0 < record.byteCount

theorem checkRecord_ok :
    checkRecord record = .ok () ↔
      (∃ bytes, decodeRecord record = .ok bytes ∧ bytes.length = record.byteCount) ∧
        0 < record.byteCount := by
  unfold checkRecord
  cases hdecode : decodeRecord record with
  | error e => simp [bind, Except.bind]
  | ok bytes =>
    simp only [bind, Except.bind, Except.ok.injEq, exists_eq_left', Nat.pos_iff_ne_zero]
    split
    · rename_i hmismatch
      refine ⟨nofun, fun ⟨hlength, hpos⟩ => ?_⟩
      exact absurd hmismatch (not_or.mpr ⟨hpos, not_not.mpr hlength⟩)
    · rename_i hmatch
      have ⟨hpos, hlength⟩ := not_or.mp hmatch
      exact ⟨fun _ => ⟨not_not.mp hlength, hpos⟩, fun _ => rfl⟩

theorem checkRecord_error {e : AppError} (h : checkRecord record = .error e) :
    e.kind = "integrity" := by
  unfold checkRecord at h
  cases hdecode : decodeRecord record with
  | error e' =>
    rw [hdecode] at h
    cases h
    unfold decodeRecord at hdecode
    split at hdecode
    split at hdecode <;> cases hdecode
    rfl
  | ok bytes =>
    rw [hdecode] at h
    simp only [bind, Except.bind] at h
    split at h <;> cases h
    rfl

theorem examine_some :
    examine state previous line = .ok (some record) ↔
      LogLine state line record ∧ previous < record.cursor := by
  constructor
  · intro h
    unfold examine at h
    split at h
    · cases h
    rename_i hlength
    split at h
    · split at h <;> cases h
    rename_i hcomplete
    split at h
    · cases h
    rename_i hdecoded
    split at h
    · cases h
    rename_i hschema
    split at h
    · cases h
    rename_i hcursor
    split at h
    · split at h <;> cases h
    rename_i hdurable
    split at h
    · cases h
    rename_i hcheck
    cases h
    have ⟨hdata, hcount⟩ := checkRecord_ok.mp hcheck
    have ⟨hzero, hmonotonic⟩ := not_or.mp hcursor
    exact ⟨⟨Nat.le_of_not_lt hlength, not_not.mp hcomplete, hdecoded, not_not.mp hschema,
      Nat.pos_of_ne_zero hzero, Nat.lt_of_not_le hdurable, hdata, hcount⟩,
      Nat.lt_of_not_le hmonotonic⟩
  · rintro ⟨h, hmonotonic⟩
    have hcursor : ¬ (record.cursor = 0 ∨ record.cursor ≤ previous) := by omega
    simp only [examine, if_neg (Nat.not_lt.mpr h.length_le), h.complete, h.decoded, h.schemaVersion,
      ne_eq, not_true_eq_false, if_false, if_neg hcursor, if_neg (Nat.not_le.mpr h.durable),
      checkRecord_ok.mpr ⟨h.data, h.byteCount_pos⟩]

/-- Only a live reader stops. -/
theorem examine_none (h : examine state previous line = .ok none) :
    state.status.isTerminal = false := by
  unfold examine at h
  repeat' split at h
  all_goals first
    | exact Bool.eq_false_of_not_eq_true ‹_›
    | cases h

theorem examine_error {e : AppError} (h : examine state previous line = .error e) :
    e.kind = "integrity" := by
  unfold examine at h
  repeat' split at h
  all_goals cases h
  all_goals first
    | rfl
    | exact checkRecord_error ‹_›

/-! ## A run of lines -/

/-- Lines that `read_logs` accepts one after the other. -/
inductive Accepted (state : RunState) : Nat → List Bytes → List LogRecord → Prop where
  | nil (previous : Nat) : Accepted state previous [] []
  | cons {previous : Nat} {line : Bytes} {record : LogRecord} {lines : List Bytes}
      {records : List LogRecord} (hline : LogLine state line record)
      (hcursor : previous < record.cursor) (h : Accepted state record.cursor lines records) :
      Accepted state previous (line :: lines) (record :: records)

/-! One accepted line: it does not match, it goes into the page, or the page is
full. -/

theorem scanLines_skip (hline : LogLine state line record) (hcursor : previous < record.cursor)
    (hmatches : query.matches record = false) :
    scanLines state query previous page (line :: lines) =
      scanLines state query record.cursor page lines := by
  rw [scanLines_cons, examine_some.mpr ⟨hline, hcursor⟩]
  simp only [hmatches, Bool.not_false, if_true]

theorem scanLines_take (hline : LogLine state line record) (hcursor : previous < record.cursor)
    (hmatches : query.matches record) (hroom : page.length ≠ query.limit) :
    scanLines state query previous page (line :: lines) =
      scanLines state query record.cursor (page ++ [record]) lines := by
  rw [scanLines_cons, examine_some.mpr ⟨hline, hcursor⟩]
  simp only [hmatches, Bool.not_true, Bool.false_eq_true, if_false, if_neg hroom]

theorem scanLines_full (hline : LogLine state line record) (hcursor : previous < record.cursor)
    (hmatches : query.matches record) (hfull : page.length = query.limit) :
    scanLines state query previous page (line :: lines) = .ok (page, true) := by
  rw [scanLines_cons, examine_some.mpr ⟨hline, hcursor⟩]
  simp only [hmatches, Bool.not_true, Bool.false_eq_true, if_false, if_pos hfull]

/-- A page that holds all matching records of the file. -/
theorem scanLines_accepted (h : Accepted state previous lines records)
    (hlimit : page.length + (records.filter query.matches).length ≤ query.limit) :
    scanLines state query previous page lines = .ok (page ++ records.filter query.matches, false) := by
  induction h generalizing page with
  | nil previous => rw [scanLines, List.filter_nil, List.append_nil]
  | @cons previous line record lines records hline hcursor h ih =>
    cases hmatches : query.matches record with
    | false =>
      rw [List.filter_cons_of_neg (by simp [hmatches])] at hlimit ⊢
      rw [scanLines_skip hline hcursor hmatches, ih hlimit]
    | true =>
      rw [List.filter_cons_of_pos hmatches, List.length_cons] at hlimit
      have hroom : (page ++ [record]).length = page.length + 1 := List.length_append
      rw [scanLines_take hline hcursor hmatches (by omega), ih (by omega),
        List.filter_cons_of_pos hmatches, List.append_assoc, List.singleton_append]

/-- What is known of the file when a scan of a terminal log ends. -/
inductive Scanned (state : RunState) (query : LogQuery) (previous : Nat) (page : List LogRecord)
    (lines : List Bytes) : List LogRecord → Bool → Prop where
  /-- All lines are accepted, and the page holds what matches. -/
  | finished {records : List LogRecord} (h : Accepted state previous lines records)
      (hlimit : page.length + (records.filter query.matches).length ≤ query.limit) :
      Scanned state query previous page lines (page ++ records.filter query.matches) false
  /-- The page is full, and the lines up to the next match are accepted. -/
  | full {front rest : List Bytes} {records : List LogRecord} {last : LogRecord}
      (hlines : lines = front ++ rest) (h : Accepted state previous front (records ++ [last]))
      (hlast : query.matches last)
      (hlimit : page.length + (records.filter query.matches).length = query.limit) :
      Scanned state query previous page lines (page ++ records.filter query.matches) true

theorem scanLines_scanned {page' : List LogRecord} {hasMore : Bool}
    (hterminal : state.status.isTerminal) (hroom : page.length ≤ query.limit)
    (h : scanLines state query previous page lines = .ok (page', hasMore)) :
    Scanned state query previous page lines page' hasMore := by
  induction lines generalizing previous page with
  | nil =>
    cases h
    have hscanned : Scanned state query previous page' [] (page' ++ [].filter query.matches) false :=
      .finished (.nil previous) hroom
    rwa [List.filter_nil, List.append_nil] at hscanned
  | cons line lines ih =>
    cases hexamine : examine state previous line with
    | error e => rw [scanLines_cons, hexamine] at h; cases h
    | ok verdict =>
      cases verdict with
      | none => exact absurd hterminal (by rw [examine_none hexamine]; decide)
      | some record =>
        have ⟨hline, hcursor⟩ := examine_some.mp hexamine
        cases hmatches : query.matches record with
        | false =>
          rw [scanLines_skip hline hcursor hmatches] at h
          have hskip (records : List LogRecord) :
              (record :: records).filter query.matches = records.filter query.matches :=
            List.filter_cons_of_neg (by simp [hmatches])
          cases ih hroom h with
          | finished hrest hlimit =>
            rw [← hskip] at hlimit ⊢
            exact .finished (.cons hline hcursor hrest) hlimit
          | @full front rest records last hlines hrest hlast hlimit =>
            rw [← hskip] at hlimit ⊢
            exact .full (by rw [hlines, List.cons_append]) (.cons hline hcursor hrest) hlast hlimit
        | true =>
          by_cases hfull : page.length = query.limit
          · rw [scanLines_full hline hcursor hmatches hfull] at h
            cases h
            have hscanned : Scanned state query previous page' ([line] ++ lines)
                (page' ++ [].filter query.matches) true :=
              .full rfl (.cons hline hcursor (.nil _)) hmatches hfull
            rwa [List.filter_nil, List.append_nil] at hscanned
          · rw [scanLines_take hline hcursor hmatches hfull] at h
            have hlength : (page ++ [record]).length = page.length + 1 := List.length_append
            have htake (records : List LogRecord) : (page ++ [record]) ++ records.filter query.matches =
                page ++ (record :: records).filter query.matches := by
              rw [List.filter_cons_of_pos hmatches, List.append_assoc, List.singleton_append]
            have hcount (records : List LogRecord) : ((record :: records).filter query.matches).length =
                (records.filter query.matches).length + 1 := by
              rw [List.filter_cons_of_pos hmatches, List.length_cons]
            cases ih (by omega) h with
            | finished hrest hlimit =>
              rw [htake]
              exact .finished (.cons hline hcursor hrest) (by rw [hcount]; omega)
            | @full front rest records last hlines hrest hlast hlimit =>
              rw [htake]
              exact .full (by rw [hlines, List.cons_append]) (.cons hline hcursor hrest) hlast
                (by rw [hcount]; omega)

/-- Every failure of a scan is an integrity error. -/
theorem scanLines_error {e : AppError} (h : scanLines state query previous page lines = .error e) :
    e.kind = "integrity" := by
  induction lines generalizing previous page with
  | nil => cases h
  | cons line lines ih =>
    rw [scanLines_cons] at h
    split at h
    · rename_i herror
      cases h
      exact examine_error herror
    · cases h
    split at h
    · exact ih h
    split at h
    · cases h
    · exact ih h

/-! ## The lines of a file -/

omit [Toolchain] in
theorem splitLines_flatten (bytes : Bytes) : (splitLines bytes).flatten = bytes := by
  induction bytes with
  | nil => rfl
  | cons b rest ih =>
    rw [splitLines]
    split
    · rename_i hnewline
      rw [List.flatten_cons, ih, hnewline, List.singleton_append]
    · split
      · rename_i hrest
        rw [hrest] at ih
        rw [← ih]
        rfl
      · rename_i line lines hrest
        rw [hrest, List.flatten_cons] at ih
        rw [List.flatten_cons, List.cons_append, ih]

omit [Toolchain] in
/-- A line that ends with a newline has no other one. -/
theorem splitLines_line {bytes line : Bytes} (h : line ∈ splitLines bytes)
    (hcomplete : line.getLast? = some NEWLINE) : ∃ body, line = body ++ [NEWLINE] ∧ NEWLINE ∉ body := by
  induction bytes generalizing line with
  | nil => cases h
  | cons b rest ih =>
    rw [splitLines] at h
    split at h
    · rcases List.mem_cons.mp h with rfl | h
      · exact ⟨[], rfl, List.not_mem_nil⟩
      · exact ih h hcomplete
    rename_i hb
    split at h
    · rw [List.mem_singleton.mp h] at hcomplete
      exact absurd (Option.some.inj hcomplete) hb
    · rename_i first lines hrest
      rcases List.mem_cons.mp h with rfl | h
      · cases first with
        | nil => exact absurd (Option.some.inj hcomplete) hb
        | cons c first =>
          rw [List.getLast?_cons_cons] at hcomplete
          obtain ⟨body, hbody, hnotMem⟩ := ih (hrest ▸ List.mem_cons_self) hcomplete
          refine ⟨b :: body, by rw [hbody, List.cons_append], ?_⟩
          exact mt List.mem_cons.mp (not_or.mpr ⟨Ne.symm hb, hnotMem⟩)
      · exact ih (hrest ▸ List.mem_cons_of_mem _ h) hcomplete

omit [Toolchain] in
theorem splitLines_of_lines (h : ∀ line ∈ lines, ∃ body, line = body ++ [NEWLINE] ∧ NEWLINE ∉ body) :
    splitLines lines.flatten = lines := by
  induction lines with
  | nil => rfl
  | cons line lines ih =>
    have ⟨⟨body, hline, hbody⟩, hlines⟩ := List.forall_mem_cons.mp h
    rw [List.flatten_cons, hline, List.append_assoc, List.singleton_append,
      splitLines_cons_line hbody, ih hlines]

/-- The bytes of a log: complete lines with one record each, and increasing
    cursors. -/
structure IsLog (state : RunState) (bytes : Bytes) (records : List LogRecord) : Prop where
  lines : ∃ lines, bytes = lines.flatten ∧
    (∀ line ∈ lines, ∃ body, line = body ++ [NEWLINE] ∧ NEWLINE ∉ body) ∧
    List.Forall₂ (LogLine state) lines records
  increasing : records.Pairwise (·.cursor < ·.cursor)

theorem Accepted.logLines (h : Accepted state previous lines records) :
    List.Forall₂ (LogLine state) lines records ∧ records.Pairwise (·.cursor < ·.cursor) ∧
      ∀ record ∈ records, previous < record.cursor := by
  induction h with
  | nil => exact ⟨.nil, .nil, nofun⟩
  | cons hline hcursor h ih =>
    obtain ⟨hlines, hincreasing, hafter⟩ := ih
    exact ⟨.cons hline hlines, List.pairwise_cons.mpr ⟨hafter, hincreasing⟩,
      List.forall_mem_cons.mpr ⟨hcursor, fun record hrecord => hcursor.trans (hafter record hrecord)⟩⟩

theorem Accepted.complete (h : Accepted state previous lines records) :
    ∀ line ∈ lines, line.getLast? = some NEWLINE := by
  induction h with
  | nil => exact nofun
  | cons hline _ _ ih => exact List.forall_mem_cons.mpr ⟨hline.complete, ih⟩

theorem Accepted.of_lines (h : List.Forall₂ (LogLine state) lines records)
    (hincreasing : records.Pairwise (·.cursor < ·.cursor))
    (hafter : ∀ record ∈ records, previous < record.cursor) :
    Accepted state previous lines records := by
  induction h generalizing previous with
  | nil => exact .nil previous
  | cons hline _ ih =>
    have ⟨hlast, hincreasing⟩ := List.pairwise_cons.mp hincreasing
    exact .cons hline (List.forall_mem_cons.mp hafter).1 (ih hincreasing hlast)

/-- Accepted lines of a file are a log. -/
theorem Accepted.isLog {bytes : Bytes} (h : Accepted state previous lines records)
    (hlines : ∀ line ∈ lines, line ∈ splitLines bytes) : IsLog state lines.flatten records := by
  obtain ⟨hrecords, hincreasing, -⟩ := h.logLines
  exact ⟨⟨lines, rfl, fun line hline =>
    splitLines_line (hlines line hline) (h.complete line hline), hrecords⟩, hincreasing⟩

theorem IsLog.accepted {bytes : Bytes} (h : IsLog state bytes records) :
    Accepted state 0 (splitLines bytes) records := by
  obtain ⟨lines, rfl, hlines, hrecords⟩ := h.lines
  rw [splitLines_of_lines hlines]
  refine .of_lines hrecords h.increasing fun record hrecord => ?_
  obtain ⟨line, -, hline⟩ := mem_right_of_forall₂ hrecords hrecord
  exact hline.cursor_pos

/-! ## Strict acceptance -/

/-- The records that a page after `afterCursor` is about. -/
def following (afterCursor : Nat) (records : List LogRecord) : List LogRecord :=
  records.filter fun record => afterCursor < record.cursor

omit [Toolchain] in
theorem filter_matches (hstream : query.stream = none) (records : List LogRecord) :
    records.filter query.matches = following query.afterCursor records := by
  refine List.filter_congr fun record _ => ?_
  simp [LogQuery.matches, hstream]

variable (state) in
theorem readLogs_scan (hlimit : 1 ≤ query.limit ∧ query.limit ≤ 1000) (bytes : Bytes) :
    match scanLines state query 0 [] (splitLines bytes) with
    | .error e => readLogs state query (.ok (.ok bytes)) = .error e
    | .ok (records, hasMore) => ∃ result, readLogs state query (.ok (.ok bytes)) = .ok result ∧
        result.records = records ∧ result.hasMore = hasMore := by
  have hvalid : ¬ (query.limit = 0 ∨ 1000 < query.limit) := by omega
  simp only [readLogs, hvalid, bind, Except.bind, if_false]
  split
  · rename_i hscan
    simp [hscan]
  · rename_i hscan
    simp [hscan, pure, Except.pure]

theorem IsLog.scanLines {bytes : Bytes} (h : IsLog state bytes records)
    (hlimit : (records.filter query.matches).length ≤ query.limit) :
    scanLines state query 0 [] (splitLines bytes) = .ok (records.filter query.matches, false) :=
  scanLines_accepted h.accepted ((Nat.zero_add _).le.trans hlimit)

/-- The lines that a scan from the start of a file has accepted. -/
theorem Accepted.isLog_front {bytes : Bytes} {front rest : List Bytes}
    (h : Accepted state 0 front records) (hlines : splitLines bytes = front ++ rest) :
    bytes = front.flatten ++ rest.flatten ∧ IsLog state front.flatten records := by
  refine ⟨?_, h.isLog fun line hline => hlines ▸ List.mem_append_left rest hline⟩
  rw [← List.flatten_append, ← hlines, splitLines_flatten]

/-- A client pages through a file: every page starts where the previous one
    ended, and the last one reports that there is no more. -/
inductive Paged (state : RunState) (bytes : Bytes) : Nat → Prop where
  | last {query : LogQuery} {result : LogsResult} (hstream : query.stream = none)
      (hresult : readLogs state query (.ok (.ok bytes)) = .ok result)
      (hmore : result.hasMore = false) : Paged state bytes query.afterCursor
  | more {query : LogQuery} {result : LogsResult} (hstream : query.stream = none)
      (hresult : readLogs state query (.ok (.ok bytes)) = .ok result)
      (hmore : result.hasMore = true) (h : Paged state bytes result.nextAfterCursor) :
      Paged state bytes query.afterCursor

theorem limit_of_readLogs {file : Except IoError (Except AppError Bytes)} {result : LogsResult}
    (h : readLogs state query file = .ok result) : 1 ≤ query.limit ∧ query.limit ≤ 1000 := by
  by_contra hlimit
  have hinvalid : query.limit = 0 ∨ 1000 < query.limit := by omega
  simp only [readLogs, if_pos hinvalid] at h
  cases h

/-- A scan of a terminal log that reports no more has accepted every line. -/
theorem isLog_of_finished {bytes : Bytes} {result : LogsResult} (hterminal : state.status.isTerminal)
    (hresult : readLogs state query (.ok (.ok bytes)) = .ok result) (hmore : result.hasMore = false) :
    ∃ records, IsLog state bytes records ∧ result.records = records.filter query.matches ∧
      (records.filter query.matches).length ≤ query.limit := by
  have hread := readLogs_scan state (limit_of_readLogs hresult) bytes
  cases hscan : scanLines state query 0 [] (splitLines bytes) with
  | error e =>
    rw [hscan] at hread
    cases hread.symm.trans hresult
  | ok outcome =>
    obtain ⟨page, hasMore⟩ := outcome
    rw [hscan] at hread
    obtain ⟨result', hresult', hrecords, hmore'⟩ := hread
    cases hresult'.symm.trans hresult
    obtain rfl := hmore'.symm.trans hmore
    cases scanLines_scanned hterminal (Nat.zero_le _) hscan with
    | @finished records haccepted hcount =>
      obtain ⟨hbytes, hlog⟩ := haccepted.isLog_front (List.append_nil _).symm
      rw [List.flatten_nil, List.append_nil] at hbytes
      exact ⟨records, hbytes ▸ hlog, hrecords, (Nat.zero_add _).symm.le.trans hcount⟩

theorem terminal_logs_strict (hterminal : state.status.isTerminal)
    (hlimit : 1 ≤ query.limit ∧ query.limit ≤ 1000) (hstream : query.stream = none) (bytes : Bytes) :
    ((∃ result, readLogs state query (.ok (.ok bytes)) = .ok result ∧ result.hasMore = false) ↔
      ∃ records, IsLog state bytes records ∧
        (following query.afterCursor records).length ≤ query.limit) ∧
    ((¬ ∃ records, IsLog state bytes records ∧
        (following query.afterCursor records).length ≤ query.limit) →
      (∃ e, readLogs state query (.ok (.ok bytes)) = .error e ∧ e.kind = "integrity") ∨
      ∃ result front rest records last, readLogs state query (.ok (.ok bytes)) = .ok result ∧
        result.hasMore = true ∧ bytes = front ++ rest ∧ IsLog state front (records ++ [last]) ∧
        query.afterCursor < last.cursor ∧
        (following query.afterCursor records).length = query.limit) ∧
    ∀ afterCursor, Paged state bytes afterCursor → ∃ records, IsLog state bytes records := by
  simp only [← filter_matches hstream]
  have hread := readLogs_scan state hlimit bytes
  have hfinished : (∃ result, readLogs state query (.ok (.ok bytes)) = .ok result ∧
      result.hasMore = false) ↔ ∃ records, IsLog state bytes records ∧
        (records.filter query.matches).length ≤ query.limit := by
    constructor
    · rintro ⟨result, hresult, hmore⟩
      obtain ⟨records, hlog, -, hcount⟩ := isLog_of_finished hterminal hresult hmore
      exact ⟨records, hlog, hcount⟩
    · rintro ⟨records, hlog, hcount⟩
      rw [hlog.scanLines hcount] at hread
      obtain ⟨result, hresult, -, hmore⟩ := hread
      exact ⟨result, hresult, hmore⟩
  refine ⟨hfinished, fun hnot => ?_, fun afterCursor hpaged => ?_⟩
  · cases hscan : scanLines state query 0 [] (splitLines bytes) with
    | error e =>
      rw [hscan] at hread
      exact .inl ⟨e, hread, scanLines_error hscan⟩
    | ok outcome =>
      obtain ⟨page, hasMore⟩ := outcome
      rw [hscan] at hread
      obtain ⟨result, hresult, -, hmore⟩ := hread
      cases scanLines_scanned hterminal (Nat.zero_le _) hscan with
      | finished => exact absurd (hfinished.mp ⟨result, hresult, hmore⟩) hnot
      | @full front rest records last hlines haccepted hlast hcount =>
        obtain ⟨hbytes, hlog⟩ := haccepted.isLog_front hlines
        refine .inr ⟨result, _, _, records, last, hresult, hmore, hbytes, hlog, ?_,
          (Nat.zero_add _).symm.trans hcount⟩
        simpa [LogQuery.matches, hstream] using hlast
  · induction hpaged with
    | last _ hresult hmore =>
      obtain ⟨records, hlog, -⟩ := isLog_of_finished hterminal hresult hmore
      exact ⟨records, hlog⟩
    | more _ _ _ _ ih => exact ih

end Procherd

namespace Procherd.Reference

/-- The document of a run that has ended and logged one record. -/
def ended : RunState :=
  let state := options.initialState { portNames := [], tempDirectoryNames := [] } 0
  { state with status := .exited, logs := { state.logs with nextCursor := 2 } }

def hiRecord : LogRecord :=
  { schemaVersion := LOG_RECORD_SCHEMA_VERSION, cursor := 1, timestampMs := 0, stream := .stdout
    encoding := .base64, data := "aGk=", byteCount := 2 }

theorem terminal_logs_strict_record :
    ∃ records, IsLog ended hiRecord.line records ∧ (following 0 records).length ≤ 10 := by
  let query : LogQuery := { afterCursor := 0, limit := 10, stream := none }
  have hread : (readLogs ended query (.ok (.ok hiRecord.line))).toOption.any fun result =>
      !result.hasMore := by decide +kernel
  have hstrict := @terminal_logs_strict _ ended query rfl ⟨by decide, by decide⟩ rfl hiRecord.line
  refine hstrict.1.mp ?_
  cases hresult : readLogs ended query (.ok (.ok hiRecord.line)) with
  | error e => rw [hresult] at hread; cases hread
  | ok result =>
    rw [hresult] at hread
    exact ⟨result, rfl, Bool.not_eq_true' _ ▸ hread⟩

end Procherd.Reference
