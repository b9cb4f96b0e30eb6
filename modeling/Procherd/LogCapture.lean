-- SUMMARY: The verification of the supervisor over its log, from the setup to the marking of a failed run.
import Procherd.LogView

/-!
# The capture of output

The loop keeps `Logging`: every chunk received so far is accounted for, and no
line is begun. While a record is written the file ends in a part of its line; a
failure leaves it there, and dropping the writer may still add to it.
-/

namespace Procherd

open Interaction

variable [Toolchain]

namespace LogView

variable {maxBytes : Nat} {o : LogView} {l : Locals}

/-! ## What holds in the loop -/

/-- `state.json` is live and counts no record that is not there. -/
def Live (o : LogView) (count : Nat) : Prop :=
  ∃ state, o.document = some state ∧ state.status.isTerminal = false ∧
    state.logs.nextCursor ≤ count + 1

omit [Toolchain] in
theorem Live.mono {count count' : Nat} (h : Live o count) (hle : count ≤ count') :
    Live o count' := by
  obtain ⟨state, hstate, hlive, hcursor⟩ := h
  exact ⟨state, hstate, hlive, hcursor.trans (Nat.succ_le_succ hle)⟩

/-- A live run with numbered records and a part of the next line. -/
theorem sound_of_live {file : Bytes} (records : List LogRecord) (tail : Bytes)
    (hfile : o.file = some file) (heq : file = recordLines records ++ tail)
    (htail : NEWLINE ∉ tail) (hfits : tail.length ≤ MAX_RECORD_LINE_BYTES)
    (hnumbered : Numbered records) (hlive : Live o records.length) :
    LogSound maxBytes o := by
  obtain ⟨state, hstate, hlive, hcursor⟩ := hlive
  refine ⟨records, tail, by rw [hfile]; exact heq, htail, hfits, hnumbered, ?_, ?_⟩
  · rintro _ hstate'
    obtain rfl : state = _ := Option.some.inj (hstate.symm.trans hstate')
    exact hcursor
  · rintro _ hstate' hcomplete
    obtain rfl : state = _ := Option.some.inj (hstate.symm.trans hstate')
    rw [RunStatus.complete_of_live hlive] at hcomplete
    cases hcomplete

/-- The loop between two chunks. -/
structure Logging (maxBytes : Nat) (l : Locals) (o : LogView) (records : List LogRecord) :
    Prop where
  file : o.file = some (recordLines records)
  buffer : l.logs.buffer = []
  finished : l.logs.finished = false
  writer : Summarizes maxBytes l.logs o.received records
  document : Live o records.length
  summary : l.state.logs.nextCursor ≤ records.length + 1
  live : l.state.status.isTerminal = false
  started : ∀ stream, o.idle stream = false

def InLoop (maxBytes : Nat) (l : Locals) (o : LogView) : Prop :=
  ∃ records, Logging maxBytes l o records

/-- After a failure of the loop the log is sound, also if dropping the writer
    adds some of its buffer. -/
def Failing (maxBytes : Nat) (_ : AppError) (l : Locals) (o : LogView) : Prop :=
  LogSound maxBytes o ∧ (l.logs.finished = false →
    (∀ n, LogSound maxBytes (o.append (l.logs.buffer.take n))) ∧ ∃ count, Live o count)

omit [Toolchain] in
theorem append_nil (o : LogView) : o.append [] = o := by
  cases o with
  | mk document spec file =>
    cases file with
    | none => rfl
    | some bytes => simp only [append, Option.map_some, List.append_nil]

theorem failing_of_sound {e : AppError} (hsound : LogSound maxBytes o) (hbuffer : l.logs.buffer = [])
    {count : Nat} (hlive : Live o count) : Failing maxBytes e l o := by
  refine ⟨hsound, fun _ => ⟨fun n => ?_, count, hlive⟩⟩
  rw [hbuffer, List.take_nil, append_nil]
  exact hsound

theorem Logging.sound {records : List LogRecord} (h : Logging maxBytes l o records) :
    LogSound maxBytes o :=
  sound_of_live _ [] h.file (List.append_nil _).symm List.not_mem_nil (Nat.zero_le _)
    h.writer.numbered h.document

theorem Logging.failing {records : List LogRecord} {e : AppError}
    (h : Logging maxBytes l o records) : Failing maxBytes e l o :=
  failing_of_sound h.sound h.buffer h.document

/-! ## One chunk -/

omit [Toolchain] in
theorem recordLines_concat (records : List LogRecord) (record : LogRecord) :
    recordLines (records ++ [record]) = recordLines records ++ record.line := by
  rw [recordLines, List.flatMap_append]
  exact congrArg _ (List.append_nil _)

/-- The file while the next record is written. -/
theorem sound_of_line {records : List LogRecord} {record : LogRecord} {bytes written : Bytes}
    (hnumbered : Numbered records) (hwritten : record.Written bytes)
    (hcursor : record.cursor = records.length + 1) (hlive : Live o records.length)
    (hwhole : written <+: record.line) :
    LogSound maxBytes { o with file := some (recordLines records ++ written) } := by
  obtain hline | hpart := List.prefix_concat_iff.mp hwhole
  · refine sound_of_live (records ++ [record]) [] rfl ?_ List.not_mem_nil (Nat.zero_le _)
      (hnumbered.concat hwritten hcursor) (hlive.mono ?_)
    · rw [recordLines_concat, List.append_nil]
      exact congrArg _ hline
    · rw [List.length_append]
      exact Nat.le_add_right _ _
  · refine sound_of_live _ _ rfl rfl (fun hmem => ?_) ?_ hnumbered hlive
    · exact hwritten.newline_notMem_encode (hpart.subset hmem)
    · exact (hpart.length_le.trans (List.prefix_append _ _).length_le).trans hwritten.length_line_le

theorem wp_writeBuffer {records : List LogRecord} {record : LogRecord} {bytes : Bytes}
    (hnumbered : Numbered records) (hwritten : record.Written bytes)
    (hcursor : record.cursor = records.length + 1) (hlive : Live o records.length)
    (hfile : o.file = some (recordLines records)) (hbuffer : l.logs.buffer = record.line) :
    Proc.wp (interface maxBytes) writeBuffer
      (fun _ l' o' => l' = { l with logs := { l.logs with buffer := [] } } ∧
        o' = { o with file := some (recordLines (records ++ [record])) })
      (Failing maxBytes) l o := by
  -- What is written and what is in the buffer make the line.
  refine Proc.wp_repeatUntil (fun l' o' => ∃ written buffer, written ++ buffer = record.line ∧
    l' = { l with logs := { l.logs with buffer } } ∧
    o' = { o with file := some (recordLines records ++ written) }) ?_
    ⟨[], record.line, rfl, by rw [← hbuffer], by rw [List.append_nil, ← hfile]⟩
  rintro _ _ ⟨written, buffer, hline, rfl, rfl⟩
  have hsound {more : Bytes} (hmore : more <+: buffer) :
      LogSound maxBytes { o with file := some (recordLines records ++ (written ++ more)) } :=
    sound_of_line hnumbered hwritten hcursor hlive
      (hline ▸ (List.prefix_append_right_inj written).mpr hmore)
  simp only [Proc.wp_get_bind]
  split
  · rename_i hempty
    obtain rfl : buffer = [] := hempty
    rw [List.append_nil] at hline
    refine Proc.wp_pure ⟨rfl, ?_⟩
    rw [recordLines_concat, hline]
  refine Proc.wp_bind (Proc.wp_call ?_)
  rintro _ rfl r o' hs
  obtain ⟨n, rfl, rfl⟩ | ⟨e, kept, rfl, rfl⟩ := hs
  · have hfile' : ({ o with file := some (recordLines records ++ written) } : LogView).append
        (buffer.take n) =
        { o with file := some (recordLines records ++ (written ++ buffer.take n)) } := by
      simp only [append, Option.map_some, List.append_assoc]
    refine ⟨⟨?_, ?_, ?_, trivial⟩, ?_⟩
    · rw [hfile']
      exact hsound (List.take_prefix n buffer)
    · rintro _ ⟨⟩
      exact ⟨buffer.take n, rfl⟩
    · intro state hstate hterminal
      obtain ⟨state', hstate', hlive, -⟩ := hlive
      obtain rfl : state' = state := Option.some.inj (hstate'.symm.trans hstate)
      rw [hlive] at hterminal
      cases hterminal
    · simp only [Proc.wp_modify_bind, Proc.wp_pure_iff, Option.elim]
      refine ⟨written ++ buffer.take n, buffer.drop n, ?_, rfl, hfile'⟩
      rw [List.append_assoc, List.take_append_drop, hline]
  · have hhere : LogSound maxBytes { o with file := some (recordLines records ++ written) } := by
      have := hsound (List.nil_prefix (l := buffer))
      rwa [List.append_nil] at this
    refine ⟨.of_file hhere rfl trivial, ?_⟩
    simp only [Proc.wp_modify_bind, Proc.wp_throw_iff]
    refine ⟨hhere, fun _ => ⟨fun n => ?_, records.length, hlive⟩⟩
    have hwhole : (buffer.take kept).take n <+: buffer :=
      (List.take_prefix n _).trans (List.take_prefix kept buffer)
    have := hsound hwhole
    simpa only [append, Option.map_some, List.append_assoc] using this

/-- A chunk was received that is not recorded yet. -/
structure Pending (maxBytes : Nat) (l : Locals) (o : LogView) (records : List LogRecord)
    (before : List LogChunk) (chunk : LogChunk) : Prop where
  file : o.file = some (recordLines records)
  buffer : l.logs.buffer = []
  finished : l.logs.finished = false
  received : o.received = before ++ [chunk]
  nonempty : chunk.bytes ≠ []
  length_le : chunk.bytes.length ≤ READ_CHUNK_BYTES
  writer : Summarizes maxBytes l.logs before records
  document : Live o records.length
  summary : l.state.logs.nextCursor ≤ records.length + 1
  live : l.state.status.isTerminal = false
  started : ∀ stream, o.idle stream = false

theorem Pending.sound {records : List LogRecord} {before : List LogChunk} {chunk : LogChunk}
    (h : Pending maxBytes l o records before chunk) : LogSound maxBytes o :=
  sound_of_live _ [] h.file (List.append_nil _).symm List.not_mem_nil (Nat.zero_le _)
    h.writer.numbered h.document

omit [Toolchain] in
theorem Pending.readiness {records : List LogRecord} {before : List LogChunk} {chunk : LogChunk}
    (tracker : ReadinessTracker) (readiness : ReadinessState)
    (h : Pending maxBytes l o records before chunk) :
    Pending maxBytes { l with readiness := tracker, state := { l.state with readiness } } o records
      before chunk :=
  ⟨h.file, h.buffer, h.finished, h.received, h.nonempty, h.length_le, h.writer, h.document,
    h.summary, h.live, h.started⟩

theorem wp_record (hmax : maxBytes ≤ MAX_LOG_BYTES) {records : List LogRecord}
    {before : List LogChunk} {chunk : LogChunk}
    (h : Pending maxBytes l o records before chunk) :
    Proc.wp (interface maxBytes) (record chunk) (fun _ => InLoop maxBytes) (Failing maxBytes)
      l o := by
  simp only [record, Proc.wp_modify_bind, Proc.wp_get_bind]
  split
  · rename_i hpos
    refine Proc.wp_bind (Proc.wp_bind (wp_now h.sound fun timestampMs htimestamp => ?_))
    simp only [Proc.wp_get_bind, Proc.wp_modify_bind]
    have hwritten := h.writer.nextRecord_written hmax htimestamp h.length_le hpos
    refine Proc.wp_seq _ (wp_writeBuffer h.writer.numbered hwritten
      (h.writer.nextRecord_cursor timestampMs) h.document h.file rfl) ?_
    rintro _ _ _ ⟨rfl, rfl⟩
    simp only [Proc.wp_modify_iff]
    refine ⟨_, rfl, rfl, (l.logs.updateDigest_finished chunk).trans h.finished, ?_,
      h.document.mono ?_, h.summary.trans ?_, h.live, h.started⟩
    · rw [h.received]
      exact h.writer.keep hmax htimestamp h.length_le hpos rfl fun stream => by cases stream <;> rfl
    · rw [List.length_append]
      exact Nat.le_add_right _ _
    · rw [List.length_append]
      omega
  · rename_i hzero
    have hzero := Nat.eq_zero_of_not_pos hzero
    simp only [Proc.wp_modify_iff]
    refine ⟨records, h.file, (l.logs.updateDigest_buffer chunk).trans h.buffer,
      (l.logs.updateDigest_finished chunk).trans h.finished, ?_, h.document, h.summary, h.live,
      h.started⟩
    rw [h.received, hzero]
    exact h.writer.discard h.nonempty hzero rfl

theorem wp_recordChunk (hmax : maxBytes ≤ MAX_LOG_BYTES) {records : List LogRecord}
    {before : List LogChunk} {chunk : LogChunk}
    (h : Pending maxBytes l o records before chunk) :
    Proc.wp (interface maxBytes) (recordChunk chunk) (fun _ => InLoop maxBytes)
      (Failing maxBytes) l o := by
  refine Proc.wp_bind (wp_call rfl h.sound fun clock => ?_)
  simp only [Proc.wp_get_bind, Proc.wp_modify_bind]
  exact Proc.wp_seq _ (wp_record hmax (h.readiness _ _)) fun _ _ _ h => Proc.wp_pure h

/-! ## The drain loops -/

/-- A receiving call in the loop. -/
theorem receive_inLoop {records : List LogRecord} {r : Received} {o' : LogView}
    (h : Logging maxBytes l o records) (hr : o.Receives r o') :
    LogSound maxBytes o' ∧ o'.file = o.file ∧
      match r with
      | .chunk chunk => Pending maxBytes l o' records o.received chunk
      | .empty => Logging maxBytes l o' records
      | .disconnected => Logging maxBytes l o' records ∧ o'.closed := by
  cases r with
  | chunk chunk =>
    obtain ⟨hne, hlength, rfl⟩ := hr
    have hpending : Pending maxBytes l { o with received := o.received ++ [chunk] } records
        o.received chunk :=
      ⟨h.file, h.buffer, h.finished, rfl, hne, hlength, h.writer, h.document, h.summary, h.live,
        h.started⟩
    exact ⟨hpending.sound, rfl, hpending⟩
  | empty =>
    obtain rfl : o' = o := hr
    exact ⟨h.sound, rfl, h⟩
  | disconnected =>
    obtain rfl : o' = { o with closed := true } := hr
    have hclosed : Logging maxBytes l { o with closed := true } records :=
      ⟨h.file, h.buffer, h.finished, h.writer, h.document, h.summary, h.live, h.started⟩
    exact ⟨hclosed.sound, rfl, hclosed, rfl⟩

theorem InLoop.sound (h : InLoop maxBytes l o) : LogSound maxBytes o := by
  obtain ⟨records, h⟩ := h
  exact h.sound

theorem InLoop.failing {e : AppError} (h : InLoop maxBytes l o) : Failing maxBytes e l o := by
  obtain ⟨records, h⟩ := h
  exact h.failing

/-- The postcondition of a receiving call in the loop. -/
def AfterReceive (maxBytes : Nat) (r : Received) (l : Locals) (o : LogView) : Prop :=
  match r with
  | .chunk chunk => ∃ records before, Pending maxBytes l o records before chunk
  | .empty => InLoop maxBytes l o
  | .disconnected => InLoop maxBytes l o ∧ o.closed

theorem wp_receive {c : BodyCmd Received} (hc : c = .tryRecv ∨ ∃ timeout, c = .recvTimeout timeout)
    (h : InLoop maxBytes l o) :
    Proc.wp (interface maxBytes) (Proc.call c) (AfterReceive maxBytes) (Failing maxBytes) l o := by
  obtain ⟨records, h⟩ := h
  apply Proc.wp_call
  rintro _ rfl r o' hs
  have hr : o.Receives r o' := by
    rcases hc with rfl | ⟨timeout, rfl⟩ <;> exact hs
  obtain ⟨hsound, hfile, hafter⟩ := receive_inLoop h hr
  refine ⟨.of_file hsound hfile ?_, ?_⟩
  · rcases hc with rfl | ⟨timeout, rfl⟩ <;> exact h.started
  · cases r with
    | chunk chunk => exact ⟨records, _, hafter⟩
    | empty => exact ⟨records, hafter⟩
    | disconnected => exact ⟨⟨records, hafter.1⟩, hafter.2⟩

theorem wp_drainBatch (hmax : maxBytes ≤ MAX_LOG_BYTES) (n : Nat) (changed : Bool)
    (h : InLoop maxBytes l o) :
    Proc.wp (interface maxBytes) (drainBatch n changed) (fun _ => InLoop maxBytes)
      (Failing maxBytes) l o := by
  induction n generalizing changed l o with
  | zero => exact Proc.wp_pure h
  | succ n ih =>
    refine Proc.wp_seq _ (wp_receive (.inl rfl) h) fun r l o h => ?_
    cases r with
    | chunk chunk =>
      obtain ⟨records, before, h⟩ := h
      exact Proc.wp_seq _ (wp_recordChunk hmax h) fun changed' l o h => ih _ h
    | empty => exact Proc.wp_pure h
    | disconnected => exact Proc.wp_pure h.1

theorem wp_drainRound (hmax : maxBytes ≤ MAX_LOG_BYTES) (deadline : Nat)
    (h : InLoop maxBytes l o) :
    Proc.wp (interface maxBytes) (drainRound deadline)
      (fun r l o => InLoop maxBytes l o ∧ (r = some () → o.closed)) (Failing maxBytes) l o := by
  refine Proc.wp_bind (wp_call rfl h.sound fun now => ?_)
  simp only
  split
  · refine Proc.wp_seq _ (wp_receive (.inl rfl) h) fun r l o h => ?_
    cases r with
    | disconnected => exact Proc.wp_pure ⟨h.1, fun _ => h.2⟩
    | chunk chunk =>
      obtain ⟨records, before, h⟩ := h
      exact Proc.wp_throw (failing_of_sound h.sound h.buffer h.document)
    | empty => exact Proc.wp_throw (InLoop.failing h)
  · refine Proc.wp_seq _ (wp_receive (.inr ⟨_, rfl⟩) h) fun r l o h => ?_
    cases r with
    | disconnected => exact Proc.wp_pure ⟨h.1, fun _ => h.2⟩
    | chunk chunk =>
      obtain ⟨records, before, h⟩ := h
      exact Proc.wp_seq _ (wp_recordChunk hmax h) fun _ l o h => Proc.wp_pure ⟨h, nofun⟩
    | empty => exact Proc.wp_pure ⟨h, nofun⟩

theorem wp_drainUntilClosed (hmax : maxBytes ≤ MAX_LOG_BYTES) (limit : Nat)
    (h : InLoop maxBytes l o) :
    Proc.wp (interface maxBytes) (drainUntilClosed limit)
      (fun _ l o => InLoop maxBytes l o ∧ o.closed) (Failing maxBytes) l o := by
  refine Proc.wp_bind (wp_call rfl h.sound fun now => ?_)
  refine Proc.wp_repeatUntil (InLoop maxBytes) (fun l o h => ?_) h
  refine Proc.wp_mono (wp_drainRound hmax _ h) (fun r l o h => ?_) fun _ _ _ => id
  cases r with
  | none => exact h.1
  | some u => exact ⟨h.1, h.2 rfl⟩

/-! ## Process control -/

omit [Toolchain] in
theorem Logging.markStateWrite {records : List LogRecord} (now : Nat)
    (h : Logging maxBytes l o records) :
    Logging maxBytes { l with lastStateWrite := now } o records :=
  ⟨h.file, h.buffer, h.finished, h.writer, h.document, h.summary, h.live, h.started⟩

theorem wp_persistState (h : InLoop maxBytes l o) :
    Proc.wp (interface maxBytes) persistState (fun _ => InLoop maxBytes) (Failing maxBytes) l o := by
  obtain ⟨records, h⟩ := h
  have hnew : Logging maxBytes l { o with document := some l.state } records :=
    ⟨h.file, h.buffer, h.finished, h.writer, ⟨_, rfl, h.live, h.summary⟩, h.summary, h.live,
      h.started⟩
  simp only [persistState, Proc.wp_get_bind]
  refine wp_persist h.sound hnew.sound (fun hfailed => ?_) ⟨records, hnew⟩ (fun _ => h.failing)
    fun _ => hnew.failing
  have hlive := h.live
  rw [hfailed] at hlive
  cases hlive

omit [Toolchain] in
theorem InLoop.locals {l' : Locals} (h : InLoop maxBytes l o) (hlogs : l'.logs = l.logs)
    (hsummary : l'.state.logs = l.state.logs) (hstatus : l'.state.status = l.state.status) :
    InLoop maxBytes l' o := by
  obtain ⟨records, h⟩ := h
  refine ⟨records, h.file, ?_, ?_, ?_, h.document, ?_, ?_, h.started⟩
  · rw [hlogs]; exact h.buffer
  · rw [hlogs]; exact h.finished
  · rw [hlogs]; exact h.writer
  · rw [hsummary]; exact h.summary
  · rw [hstatus]; exact h.live

theorem loopFrame : ControlFrame (interface maxBytes) (InLoop maxBytes) (Failing maxBytes) :=
  controlFrame InLoop.sound InLoop.failing InLoop.locals wp_persistState

theorem wp_superviseStop (path : PathBuf) (h : InLoop maxBytes l o) :
    Proc.wp (interface maxBytes) (superviseStop path) (fun _ => InLoop maxBytes)
      (Failing maxBytes) l o := by
  have hstopping {now : Nat} {o : LogView} {state : RunState} (hlogs : state.logs = l.state.logs)
      (hstatus : state.status = .stopping) (h : InLoop maxBytes (l.touched now) o) :
      InLoop maxBytes { l with state } o := by
    obtain ⟨records, h⟩ := h
    exact ⟨records, h.file, h.buffer, h.finished, h.writer, h.document,
      (congrArg LogSummary.nextCursor hlogs).trans_le h.summary, by rw [hstatus]; rfl, h.started⟩
  simp only [superviseStop, Proc.wp_get_bind]
  split
  · refine loopFrame.loop.wp_watchTriggers (A := fun _ _ => True) (fun _ _ _ _ _ _ _ _ => trivial)
      (fun request now o _ h => hstopping rfl rfl h) (fun now o h => hstopping rfl rfl h) ?_
    refine Proc.wp_mono (wp_readStopRequest path l.spec h.sound fun _ => h.failing) ?_
      fun _ _ _ => id
    rintro r _ _ ⟨rfl, rfl⟩
    exact ⟨rfl, h, fun _ _ => trivial⟩
  · exact loopFrame.loop.wp_enforceStop _ h

theorem wp_snapshotIfDue (h : InLoop maxBytes l o) :
    Proc.wp (interface maxBytes) snapshotIfDue (fun _ => InLoop maxBytes) (Failing maxBytes)
      l o := by
  refine loopFrame.loop.wp_snapshotIfDue (fun o h => ?_) h
  obtain ⟨records, h⟩ := h
  exact ⟨records, h.file, h.buffer, h.finished, h.writer, h.document, h.writer.nextCursor.le, h.live,
    h.started⟩

/-! ## The end of the child -/

/-- The output is closed and recorded, and the summary is final. -/
structure Done (maxBytes : Nat) (l : Locals) (o : LogView) (records : List LogRecord) : Prop where
  file : o.file = some (recordLines records)
  finished : l.logs.finished = true
  writer : Summarizes maxBytes l.logs o.received records
  closed : o.closed
  document : Live o records.length
  summary : l.state.logs = l.logs.finish
  live : l.state.status.isTerminal = false

variable {records : List LogRecord}

theorem Done.sound (h : Done maxBytes l o records) : LogSound maxBytes o :=
  sound_of_live _ [] h.file (List.append_nil _).symm List.not_mem_nil (Nat.zero_le _)
    h.writer.numbered h.document

theorem Done.failing {e : AppError} (h : Done maxBytes l o records) : Failing maxBytes e l o := by
  refine ⟨h.sound, fun hfinished => ?_⟩
  rw [h.finished] at hfinished
  cases hfinished

theorem Done.nextCursor_le (h : Done maxBytes l o records) :
    l.state.logs.nextCursor ≤ records.length + 1 := by
  rw [h.summary]
  exact h.writer.nextCursor.le

theorem wp_persistDone (h : Done maxBytes l o records) :
    Proc.wp (interface maxBytes) persistState (fun _ l o => Done maxBytes l o records)
      (Failing maxBytes) l o := by
  have hnew : Done maxBytes l { o with document := some l.state } records :=
    ⟨h.file, h.finished, h.writer, h.closed, ⟨_, rfl, h.live, h.nextCursor_le⟩, h.summary, h.live⟩
  simp only [persistState, Proc.wp_get_bind]
  refine wp_persist h.sound hnew.sound (fun hfailed => ?_) hnew (fun _ => h.failing)
    fun _ => hnew.failing
  have hlive := h.live
  rw [hfailed] at hlive
  cases hlive

theorem doneFrame (records : List LogRecord) : ControlFrame (interface maxBytes)
    (fun l o => Done maxBytes l o records) (Failing maxBytes) :=
  controlFrame Done.sound Done.failing
    (by
      intro l l' o h hlogs hsummary hstatus
      refine ⟨h.file, ?_, ?_, h.closed, h.document, ?_, ?_⟩
      · rw [hlogs]; exact h.finished
      · rw [hlogs]; exact h.writer
      · rw [hsummary, hlogs]; exact h.summary
      · rw [hstatus]; exact h.live)
    wp_persistDone

theorem wp_finishLogs (h : InLoop maxBytes l o) (hclosed : o.closed) :
    Proc.wp (interface maxBytes) finishLogs
      (fun _ l o => ∃ records, Done maxBytes l o records) (Failing maxBytes) l o := by
  obtain ⟨records, h⟩ := h
  simp only [finishLogs, Proc.wp_modify_bind]
  refine Proc.wp_bind (wp_attempt rfl h.sound (fun _ => ?_) fun _ => ⟨h.sound, fun h => by cases h⟩)
  simp only [Proc.wp_modify_iff]
  have hwriter : Summarizes maxBytes { l.logs with finished := true } o.received records :=
    ⟨h.writer.numbered, h.writer.pieces, h.writer.limit, h.writer.nextCursor,
      h.writer.capturedBytes, h.writer.droppedBytes, h.writer.digest⟩
  exact ⟨records, h.file, rfl, hwriter, hclosed, h.document, rfl, h.live⟩

/-- The state with which a run ends whose child has exited. -/
theorem Done.sound_final (h : Done maxBytes l o records) (state : RunState)
    (hlogs : state.logs = l.state.logs) :
    LogSound maxBytes { o with document := some state } := by
  refine ⟨records, [], ?_, List.not_mem_nil, Nat.zero_le _, h.writer.numbered, ?_, ?_⟩
  · rw [h.file]
    exact (List.append_nil _).symm
  · rintro _ ⟨⟩
    exact (congrArg LogSummary.nextCursor hlogs).trans_le h.nextCursor_le
  · rintro _ ⟨⟩ -
    exact ⟨h.file, h.closed, l.logs, h.writer, hlogs.trans h.summary⟩

theorem wp_handleExit (hmax : maxBytes ≤ MAX_LOG_BYTES) (exitStatus : ExitStatus)
    (h : InLoop maxBytes l o) :
    Proc.wp (interface maxBytes) (handleExit exitStatus)
      (fun _ l o => LogSound maxBytes o ∧ l.logs.finished) (Failing maxBytes) l o := by
  refine Proc.wp_seq _ (loopFrame.loop.wp_killRemaining h) fun _ l o h => ?_
  simp only [Proc.wp_modify_bind]
  refine Proc.wp_seq _ (wp_drainUntilClosed hmax _ (loopFrame.locals h
    ⟨rfl, rfl, rfl⟩)) ?_
  rintro _ l o ⟨h, hclosed⟩
  simp only [Proc.wp_modify_bind]
  refine Proc.wp_seq _ (wp_finishLogs (InLoop.locals h rfl rfl rfl)
    hclosed) ?_
  rintro _ l o ⟨records, h⟩
  refine Proc.wp_seq _ ((doneFrame records).wp_releaseLeases h) fun _ l o h => ?_
  refine Proc.wp_seq _ ((doneFrame records).loop.wp_touch h) fun _ l o h => ?_
  refine Proc.wp_bind (wp_call rfl h.sound fun finishedAtMs => ?_)
  simp only [Proc.wp_modify_bind, persistState, Proc.wp_get_bind]
  have hfinal := h.sound_final (finalState l.state l.stopping exitStatus finishedAtMs) rfl
  refine wp_persist h.sound hfinal (fun hfailed => ?_) ⟨hfinal, h.finished⟩ (fun _ => ?_)
    fun _ => ?_
  · simp only [finalState] at hfailed
    split at hfailed <;> cases hfailed
  · exact ⟨h.sound, fun hfinished => absurd (h.finished.symm.trans hfinished) (by decide)⟩
  · exact ⟨hfinal, fun hfinished => absurd (h.finished.symm.trans hfinished) (by decide)⟩

/-! ## The rounds -/

theorem wp_superviseRound (hmax : maxBytes ≤ MAX_LOG_BYTES) (path : PathBuf)
    (h : InLoop maxBytes l o) :
    Proc.wp (interface maxBytes) (superviseRound path)
      (fun r l o => r.elim (InLoop maxBytes l o) fun _ => LogSound maxBytes o ∧ l.logs.finished)
      (Failing maxBytes) l o := by
  refine Proc.wp_seq _ (wp_drainBatch hmax _ _ h) fun drain l o h => ?_
  refine Proc.wp_seq _ (loopFrame.loop.wp_pollReadiness
    (fun inputs o h => h.locals rfl rfl rfl) h) fun polled l o h => ?_
  refine Proc.wp_seq _ (loopFrame.loop.wp_persistReadiness _ h) fun _ l o h => ?_
  refine Proc.wp_seq _ (wp_superviseStop path h) fun _ l o h => ?_
  refine Proc.wp_seq _ (loopFrame.loop.wp_tryWaitRetry h) fun exited l o h => ?_
  cases exited with
  | some exitStatus =>
    exact Proc.wp_seq _ (wp_handleExit hmax exitStatus h) fun _ l o h => Proc.wp_pure h
  | none =>
    refine Proc.wp_seq _ (wp_snapshotIfDue h) fun _ l o h => ?_
    exact Proc.wp_bind (wp_call rfl h.sound fun _ => Proc.wp_pure h)

/-! ## The scopes -/

/-- After a failure outside of the loop the log is sound. -/
def Sound {σ : Type} (maxBytes : Nat) (_ : AppError) (_ : σ) (o : LogView) : Prop :=
  LogSound maxBytes o

theorem wp_dropLogs {e : AppError} (h : Failing maxBytes e l o) {Q : Unit → Locals → LogView → Prop}
    (hQ : ∀ o', LogSound maxBytes o' → Q () l o') :
    Proc.wp (interface maxBytes) dropLogs Q (Sound maxBytes) l o := by
  simp only [dropLogs, Proc.wp_get_bind]
  split
  · exact Proc.wp_pure (hQ o h.1)
  · rename_i hfinished
    obtain ⟨hdrop, count, state, hstate, hlive, -⟩ := h.2 (Bool.eq_false_of_not_eq_true hfinished)
    apply Proc.wp_call
    rintro _ rfl _ _ ⟨n, rfl⟩
    refine ⟨⟨hdrop n, ?_, ?_, trivial⟩, hQ _ (hdrop n)⟩
    · intro bytes hfile
      exact ⟨l.logs.buffer.take n, by rw [append, hfile]; rfl⟩
    · intro state' hstate' hterminal
      obtain rfl : state = state' := Option.some.inj (hstate.symm.trans hstate')
      rw [hlive] at hterminal
      cases hterminal

/-- The setup: nothing is captured yet. -/
structure Preparing (maxBytes : Nat) (l : Locals) (o : LogView) : Prop where
  file : o.file = none
  received : o.received = []
  document : ∃ state, o.document = some state ∧ state.logs.nextCursor ≤ 1 ∧
    state.status.complete = false
  idle : ∀ stream, o.idle stream
  writer : l.logs = .create maxBytes
  summary : l.state.logs.nextCursor ≤ 1
  incomplete : l.state.status.complete = false

/-- A run without a log. -/
theorem sound_of_absent (hfile : o.file = none) (hdocument : ∃ state, o.document = some state ∧
    state.logs.nextCursor ≤ 1 ∧ state.status.complete = false) : LogSound maxBytes o := by
  obtain ⟨state, hstate, hcursor, hincomplete⟩ := hdocument
  refine ⟨[], [], by rw [hfile]; rfl, List.not_mem_nil, Nat.zero_le _, .nil, ?_, ?_⟩
  · rintro _ hstate'
    obtain rfl : state = _ := Option.some.inj (hstate.symm.trans hstate')
    exact hcursor
  · rintro _ hstate' hcomplete
    obtain rfl : state = _ := Option.some.inj (hstate.symm.trans hstate')
    rw [hincomplete] at hcomplete
    cases hcomplete

theorem Preparing.sound (h : Preparing maxBytes l o) : LogSound maxBytes o :=
  sound_of_absent h.file h.document

theorem wp_persistPreparing (h : Preparing maxBytes l o) :
    Proc.wp (interface maxBytes) persistState
      (fun _ l' o' => Preparing maxBytes l' o' ∧ l' = l ∧ o'.document = some l.state)
      (Sound maxBytes) l o := by
  have hnew : Preparing maxBytes l { o with document := some l.state } :=
    ⟨h.file, h.received, ⟨_, rfl, h.summary, h.incomplete⟩, h.idle, h.writer, h.summary,
      h.incomplete⟩
  simp only [persistState, Proc.wp_get_bind]
  exact wp_persist h.sound hnew.sound (fun _ => .inl h.file) ⟨hnew, rfl, rfl⟩ (fun _ => h.sound)
    fun _ => hnew.sound

theorem setupFrame : ControlFrame (interface maxBytes) (Preparing maxBytes) (Sound maxBytes) :=
  controlFrame Preparing.sound Preparing.sound
    (by
      intro l l' o h hlogs hsummary hstatus
      refine ⟨h.file, h.received, h.document, h.idle, ?_, ?_, ?_⟩
      · rw [hlogs]; exact h.writer
      · rw [hsummary]; exact h.summary
      · rw [hstatus]; exact h.incomplete)
    (fun h => Proc.wp_mono (wp_persistPreparing h) (fun _ _ _ h => h.1) fun _ _ _ => id)

/-- The state that a running child is started with. -/
structure Launching (maxBytes : Nat) (l : Locals) (o : LogView) : Prop extends
    Preparing maxBytes l o where
  document_live : Live o 0
  live : l.state.status.isTerminal = false

theorem wp_superviseOutput (hmax : maxBytes ≤ MAX_LOG_BYTES) (path : PathBuf)
    (h : Launching maxBytes l o) :
    Proc.wp (interface maxBytes) (superviseOutput path) (fun _ _ o => LogSound maxBytes o)
      (Sound maxBytes) l o := by
  refine Proc.wp_ensuring (Proc.wp_mono (Q := fun _ _ o => LogSound maxBytes o)
    (E := Sound maxBytes) ?_ (fun _ _ _ h => ?_) fun _ _ _ h => ?_)
  rotate_left
  iterate 2
    apply Proc.wp_call
    rintro _ rfl _ _ rfl
    exact ⟨.of_file (LogSound.congr h rfl rfl rfl id) rfl trivial, LogSound.congr h rfl rfl rfl id⟩
  -- The channel is opened and both streams are captured.
  refine Proc.wp_bind (Proc.wp_call ?_)
  rintro _ rfl _ _ rfl
  refine ⟨.of_file (LogSound.congr h.sound rfl rfl rfl id) rfl h.idle, ?_⟩
  refine Proc.wp_bind (Proc.wp_call ?_)
  rintro _ rfl _ _ rfl
  refine ⟨.of_file (LogSound.congr h.sound rfl rfl rfl id) rfl ⟨h.idle .stdout, rfl⟩, ?_⟩
  refine Proc.wp_bind (Proc.wp_call ?_)
  rintro _ rfl _ _ rfl
  refine ⟨.of_file (LogSound.congr h.sound rfl rfl rfl id) rfl ⟨h.idle .stderr, rfl⟩, ?_⟩
  refine Proc.wp_bind (wp_call rfl (LogSound.congr h.sound rfl rfl rfl id) fun _ => ?_)
  refine Proc.wp_bind (Proc.wp_attempt ?_)
  rintro _ rfl r _ hs
  obtain ⟨rfl, rfl⟩ | ⟨e, rfl, rfl⟩ := hs
  swap
  · have hsound : LogSound maxBytes { o with
        receiver := true
        idle := Function.update (Function.update o.idle .stdout false) .stderr false } :=
      LogSound.congr h.sound rfl rfl rfl id
    exact ⟨.of_file hsound rfl trivial, hsound⟩
  have hlogging : Logging maxBytes l { o with
      file := some []
      receiver := true
      idle := Function.update (Function.update o.idle .stdout false) .stderr false } [] := by
    refine ⟨rfl, ?_, ?_, ?_, h.document_live, h.summary, h.live, fun stream => by cases stream <;> rfl⟩
    · rw [h.writer]; rfl
    · rw [h.writer]; rfl
    · rw [h.writer, h.received]
      exact .create maxBytes
  refine ⟨⟨hlogging.sound, fun bytes hfile => ?_, fun state hstate hterminal => ?_, trivial⟩, ?_⟩
  · exact absurd (h.file.symm.trans hfile) nofun
  · obtain ⟨state', hstate', hlive, -⟩ := h.document_live
    obtain rfl : state' = state := Option.some.inj (hstate'.symm.trans hstate)
    rw [hlive] at hterminal
    cases hterminal
  refine Proc.wp_bind (wp_call rfl hlogging.sound fun now => ?_)
  simp only [Proc.wp_modify_bind]
  refine Proc.wp_ensuring (Proc.wp_mono
    (Q := fun _ l o => LogSound maxBytes o ∧ l.logs.finished) (E := Failing maxBytes) ?_
    (fun _ l o h => ?_) fun e l o h => wp_dropLogs h fun _ h => h)
  · refine Proc.wp_repeatUntil (InLoop maxBytes) (fun l o h => ?_)
      ⟨[], hlogging.markStateWrite now⟩
    refine Proc.wp_mono (wp_superviseRound hmax path h) (fun r l o h => ?_) fun _ _ _ => id
    cases r <;> exact h
  · refine wp_dropLogs (e := .usage "") ⟨h.1, fun hfinished => ?_⟩ fun _ h => h
    exact absurd (h.2.symm.trans hfinished) (by decide)

omit [Toolchain] in
/-- The supervisor enters the loop with a live state. -/
theorem Preparing.launch (h : Preparing maxBytes l o) (hlive : l.state.status.isTerminal = false)
    (hdocument : o.document = some l.state) : Launching maxBytes l o where
  toPreparing := h
  document_live := ⟨_, hdocument, hlive, h.summary⟩
  live := hlive

theorem wp_superviseChild (hmax : maxBytes ≤ MAX_LOG_BYTES) (path : PathBuf) (pid : Nat)
    (h : Preparing maxBytes l o) :
    Proc.wp (interface maxBytes) (superviseChild path pid) (fun _ _ o => LogSound maxBytes o)
      (Sound maxBytes) l o := by
  refine Proc.wp_ensuring (Proc.wp_mono (Q := fun _ _ o => LogSound maxBytes o)
    (E := Sound maxBytes) ?_ ?_ ?_)
  · simp only [Proc.wp_modify_bind]
    refine Proc.wp_bind (wp_call rfl h.sound fun spawnedAtMs => ?_)
    simp only [Proc.wp_modify_bind]
    refine Proc.wp_bind (Proc.wp_bind (wp_call rfl h.sound fun now => ?_))
    simp only [Proc.wp_modify_iff, Proc.wp_modify_bind]
    refine Proc.wp_seq _ (wp_persistPreparing ⟨h.file, h.received, h.document, h.idle, h.writer,
      h.summary, rfl⟩) ?_
    rintro _ l o ⟨h, rfl, hdocument⟩
    exact wp_superviseOutput hmax path (h.launch rfl hdocument)
  all_goals
    intro _ l o h
    simp only [dropChild, Proc.wp_get_bind]
    split
    · exact Proc.wp_bind (wp_call rfl h fun _ => Proc.wp_pure h)
    · exact Proc.wp_pure h

theorem wp_failSpawn (error : IoError) (h : Preparing maxBytes l o) :
    Proc.wp (interface maxBytes) (failSpawn error) (fun _ _ o => LogSound maxBytes o)
      (Sound maxBytes) l o := by
  simp only [failSpawn, Proc.wp_modify_bind]
  have hfailed : Preparing maxBytes { l with state := { l.state with status := .failed } } o :=
    ⟨h.file, h.received, h.document, h.idle, h.writer, h.summary, rfl⟩
  refine Proc.wp_seq _ (setupFrame.loop.wp_touch hfailed) fun _ l o h => ?_
  refine Proc.wp_bind (wp_call rfl h.sound fun finishedAtMs => ?_)
  simp only [Proc.wp_modify_bind]
  refine Proc.wp_seq _ (setupFrame.wp_releaseLeases (setupFrame.locals h
    ⟨rfl, rfl, rfl⟩)) fun _ l o h => ?_
  refine Proc.wp_seq _ (setupFrame.persist h) fun _ l o h => ?_
  simp only [Proc.wp_get_bind, Proc.wp_throw_iff]
  exact h.sound

variable {σ : Type} {s : σ}

/-- A transaction of the registry leaves the log alone. -/
theorem wp_releaseRegistry (leases : LeaseAllocation) (h : LogSound maxBytes o) :
    Proc.wp (interface maxBytes) (releaseRegistry leases) (fun _ _ o => LogSound maxBytes o)
      (Sound maxBytes) s o := by
  unfold releaseRegistry
  split
  · exact Proc.wp_pure h
  · exact Proc.wp_bind (wp_attempt rfl h (fun _ => Proc.wp_pure h) fun _ => h)

theorem wp_superviseLeased (hmax : maxBytes ≤ MAX_LOG_BYTES) (path : PathBuf)
    (h : Preparing maxBytes l o) :
    Proc.wp (interface maxBytes) (superviseLeased path) (fun _ _ o => LogSound maxBytes o)
      (Sound maxBytes) l o := by
  refine Proc.wp_ensuring (Proc.wp_mono (Q := fun _ _ o => LogSound maxBytes o)
    (E := Sound maxBytes) ?_ ?_ ?_)
  · refine Proc.wp_seq _ (setupFrame.persist h) fun _ l o h => ?_
    refine Proc.wp_bind (wp_call rfl h.sound fun handoffAtMs => ?_)
    simp only [Proc.wp_modify_bind, Proc.wp_get_bind]
    have h := setupFrame.locals h
      (show l.Keeps { l with state := l.leases.handoffAt handoffAtMs l.state } from
        ⟨rfl, rfl, LeaseAllocation.handoffAt_names _ _ _⟩)
    refine Proc.wp_bind (wp_call rfl h.sound fun r => ?_)
    cases r with
    | ok pid => exact wp_superviseChild hmax path pid h
    | error e => exact wp_failSpawn e h
  all_goals
    intro _ l o h
    simp only [dropLeases, Proc.wp_get_bind]
    exact Proc.wp_seq (fun _ _ o => LogSound maxBytes o)
      (Proc.wp_outcome (wp_releaseRegistry l.leases h)) fun _ l o h => Proc.wp_pure h

theorem wp_acquire {state : RunState} (requests : LeaseRequests) (h : LogSound maxBytes o) :
    Proc.wp (interface maxBytes) (LeaseAllocation.acquire state requests)
      (fun r s' o' => s' = s ∧ o' = o ∧ r.2.logs = state.logs ∧ r.2.status = state.status)
      (Sound maxBytes) s o := by
  refine Proc.wp_bind (Proc.wp_ofExcept (fun runId _ => ?_) fun _ _ => h)
  refine Proc.wp_bind (Proc.wp_ofExcept (fun _ _ => ?_) fun _ _ => h)
  refine Proc.wp_bind (Proc.wp_ofExcept (fun _ _ => ?_) fun _ _ => h)
  refine Proc.wp_bind (wp_call rfl h fun acquiredAtMs => ?_)
  refine Proc.wp_seq (fun _ s' o' => s' = s ∧ o' = o) ?_ ?_
  · unfold createTempDirectories
    split
    · exact Proc.wp_pure ⟨rfl, rfl⟩
    · exact wp_attempt rfl h (fun _ => ⟨rfl, rfl⟩) fun _ => h
  rintro tempPaths s' o' ⟨rfl, rfl⟩
  refine Proc.wp_seq (fun _ s'' o'' => s'' = s' ∧ o'' = o') ?_ ?_
  · unfold reservePortNames
    split
    · exact Proc.wp_pure ⟨rfl, rfl⟩
    · exact wp_attempt rfl h (fun _ => ⟨rfl, rfl⟩) fun _ => h
  rintro ports s o ⟨rfl, rfl⟩
  split
  · exact Proc.wp_seq (fun _ _ o => LogSound maxBytes o)
      (wp_discardLeases (wp_releaseRegistry _) h) fun _ s o h => Proc.wp_throw h
  · rename_i populated environment hpopulate
    rw [LeaseAllocation.populateState_frame hpopulate]
    exact Proc.wp_pure ⟨rfl, rfl, rfl, rfl⟩

/-! ## The whole of the supervisor -/

/-- What the supervisor finds when it has acquired its lock. -/
structure Fresh (maxBytes : Nat) (o : LogView) : Prop where
  file : o.file = none
  received : o.received = []
  document : ∃ state, o.document = some state ∧ state.logs.nextCursor ≤ 1 ∧
    state.status.complete = false
  idle : ∀ stream, o.idle stream
  spec : ∀ spec, o.spec = some spec → spec.maxLogBytes = maxBytes

theorem Fresh.sound (h : Fresh maxBytes o) : LogSound maxBytes o :=
  sound_of_absent h.file h.document

theorem wp_loadSupervised (h : Fresh maxBytes o) :
    Proc.wp (interface maxBytes) loadSupervised
      (fun r _ o' => o' = o ∧ r.1.maxLogBytes = maxBytes ∧ o.document = some r.2)
      (Sound maxBytes) () o := by
  refine Proc.wp_bind (Proc.wp_attempt ?_)
  rintro _ rfl r o' ⟨rfl, hspec⟩
  refine ⟨.of_quiet rfl h.sound, ?_⟩
  cases r with
  | error e => exact h.sound
  | ok spec =>
    refine Proc.wp_bind (Proc.wp_throwIf (fun _ => h.sound) fun _ => ?_)
    refine Proc.wp_bind (Proc.wp_attempt ?_)
    rintro _ rfl r o' ⟨rfl, hstate⟩
    refine ⟨.of_quiet rfl h.sound, ?_⟩
    cases r with
    | error e => exact h.sound
    | ok state =>
      refine Proc.wp_bind (Proc.wp_throwIf (fun _ => h.sound) fun _ => ?_)
      exact Proc.wp_pure ⟨rfl, h.spec spec (hspec spec rfl), hstate state rfl⟩

theorem wp_superviseLocked (hmax : maxBytes ≤ MAX_LOG_BYTES) (path : PathBuf)
    (h : Fresh maxBytes o) :
    Proc.wp (interface maxBytes) (superviseLocked path) (fun _ _ _ => True) (Sound maxBytes)
      () o := by
  refine Proc.wp_seq _ (wp_loadSupervised h) ?_
  rintro ⟨spec, state⟩ s o ⟨rfl, hlimit, hstate⟩
  obtain ⟨_, hfound, hcursor, -⟩ := h.document
  obtain rfl : state = _ := Option.some.inj (hstate.symm.trans hfound)
  refine Proc.wp_bind (Proc.wp_attempt ?_)
  rintro _ rfl r o' ⟨left, rfl⟩
  have hsound : LogSound maxBytes { o with spec := left } := LogSound.congr h.sound rfl rfl rfl id
  refine ⟨.of_file hsound rfl trivial, ?_⟩
  cases r with
  | error e => exact hsound
  | ok u =>
    refine Proc.wp_bind (wp_call rfl hsound fun updatedAtMs => ?_)
    refine Proc.wp_bind (wp_call rfl hsound fun supervisorPid => ?_)
    have hstarting (o' : LogView) (hfile : o'.file = none) {state' : RunState}
        (hdocument : o'.document = some state') (hlogs : state'.logs = state.logs)
        (hstatus : state'.status = .starting) : LogSound maxBytes o' :=
      sound_of_absent hfile ⟨state', hdocument, hlogs ▸ hcursor, by rw [hstatus]; rfl⟩
    refine Proc.wp_seq (fun _ _ o' => o'.file = none ∧ o'.received = [] ∧
        (∀ stream, o'.idle stream) ∧ ∃ state', o'.document = some state' ∧
          state'.logs = state.logs ∧ state'.status = .starting)
      (wp_persist hsound (hstarting _ h.file rfl rfl rfl) (fun _ => .inl h.file)
        ⟨h.file, h.received, h.idle, _, rfl, rfl, rfl⟩ (fun _ => hsound)
        fun _ => hstarting _ h.file rfl rfl rfl) ?_
    rintro _ s o' ⟨hfile, hreceived, hidle, state', hdocument, hlogs, hstatus⟩
    refine Proc.wp_seq _ (wp_acquire spec.leaseRequests
      (hstarting o' hfile hdocument hlogs hstatus)) ?_
    rintro ⟨leases, populated⟩ s o' ⟨-, rfl, hlogs', hstatus'⟩
    have hpreparing : Preparing maxBytes
        { spec, state := populated, leases, logs := .create spec.maxLogBytes } o' := by
      refine ⟨hfile, hreceived, ⟨state', hdocument, hlogs ▸ hcursor, by rw [hstatus]; rfl⟩, hidle,
        congrArg LogWriter.create hlimit, ?_, ?_⟩
      · rw [hlogs']
        exact hcursor
      · rw [hstatus']
        rfl
    refine Proc.wp_seq (fun r _ o => ∀ e, r.1 = .error e → LogSound maxBytes o)
      (Proc.wp_withStore ?_) fun r s o hr => Proc.wp_ofExcept (fun _ _ => trivial) hr
    exact Proc.wp_mono (wp_superviseLeased hmax path hpreparing) (fun _ _ _ _ => nofun)
      fun _ _ _ h _ _ => h

theorem wp_markSupervisorFailed (error : AppError) (s : Unit) (h : LogSound maxBytes o) :
    Proc.wp (interface maxBytes) (markSupervisorFailed error) (fun _ _ _ => True)
      (fun _ _ _ => True) s o := by
  refine Proc.wp_bind (Proc.wp_call ?_)
  rintro _ rfl r o' ⟨rfl, hread⟩
  refine ⟨.of_quiet rfl h, ?_⟩
  cases r with
  | error e => exact Proc.wp_pure trivial
  | ok state =>
    simp only
    split
    · exact Proc.wp_pure trivial
    have hstate := hread state rfl
    refine Proc.wp_bind (wp_call rfl h fun updatedAtMs => ?_)
    refine Proc.wp_bind (wp_call rfl h fun finishedAtMs => ?_)
    -- The failed state keeps the summary that is on disk.
    have hnew : LogSound maxBytes { o' with
        document := some (failedState error updatedAtMs finishedAtMs state) } := by
      obtain ⟨records, tail, h⟩ := h
      refine ⟨records, tail, h.file, h.unended, h.fits, h.numbered, ?_, ?_⟩
      · rintro _ ⟨⟩
        exact h.durable state hstate
      · rintro _ ⟨⟩ hcomplete
        cases hcomplete
    refine Proc.wp_bind (Proc.wp_call ?_)
    rintro _ rfl r o'' hs
    have hdiscipline : Discipline
        (.persistState (failedState error updatedAtMs finishedAtMs state)) o' :=
      fun _ => .inr ⟨state, hstate, rfl⟩
    obtain ⟨-, rfl⟩ | ⟨_, -, rfl | rfl⟩ := hs
    · exact ⟨.of_file hnew rfl hdiscipline, Proc.wp_pure trivial⟩
    · exact ⟨.of_file h rfl hdiscipline, Proc.wp_pure trivial⟩
    · exact ⟨.of_file hnew rfl hdiscipline, Proc.wp_pure trivial⟩

theorem wp_superviseAndMark (hmax : maxBytes ≤ MAX_LOG_BYTES) (path : PathBuf)
    (h : Fresh maxBytes o) :
    Proc.wp (interface maxBytes) (superviseAndMark path) (fun _ _ _ => True) (fun _ _ _ => True)
      () o := by
  refine Proc.wp_seq (fun r _ o => ∀ e, r = .error e → LogSound maxBytes o)
    (Proc.wp_outcome (Proc.wp_mono (wp_superviseLocked hmax path h) (fun _ _ _ _ => nofun) ?_))
    fun r s o hr => ?_
  · rintro e s o h _ -
    exact h
  cases r with
  | ok u => exact Proc.wp_pure trivial
  | error e =>
    exact Proc.wp_seq _ (wp_markSupervisorFailed e s (hr e rfl)) fun _ s o _ => Proc.wp_throw trivial

end LogView

end Procherd
