-- SUMMARY: Captured output (`logs.rs`): the log writer, the record format, and `read_logs`.
import Procherd.Toolchain
import Procherd.Format.Base64
import Procherd.Format.Json
import Mathlib.Data.Nat.Digits.Lemmas

/-!
# Logs

The pure parts of `logs.rs`. The writer is split at its system calls: what a
chunk does to the digests, how much of it is captured, the line it becomes, and
the summary after the line. `readLogs` is the reader over the bytes of the file.
-/

namespace Procherd

def READ_CHUNK_BYTES : Nat := 8 * 1024
def LOG_CHANNEL_CAPACITY : Nat := 64
def MAX_RECORD_LINE_BYTES : Nat := 32 * 1024

structure LogChunk where
  stream : LogStream
  bytes : Bytes
deriving DecidableEq

/-! ## The record format -/

/-- The byte that ends a line. -/
def NEWLINE : UInt8 := 10

def LogEncoding.name : LogEncoding → String
  | .base64 => "base64"

def LogRecord.toJson (record : LogRecord) : Json :=
  .obj [("schema_version", .str record.schemaVersion),
    ("cursor", .num record.cursor),
    ("timestamp_ms", .num record.timestampMs),
    ("stream", .str record.stream.name),
    ("encoding", .str record.encoding.name),
    ("data", .str record.data),
    ("byte_count", .num record.byteCount)]

/-- `serde_json::to_writer`. -/
def LogRecord.encode (record : LogRecord) : Bytes := Json.utf8 record.toJson.compact

/-- The line of a record in `logs.ndjson`. -/
def LogRecord.line (record : LogRecord) : Bytes := record.encode ++ [NEWLINE]

def recordLines (records : List LogRecord) : Bytes := records.flatMap LogRecord.line

/-! ## LogWriter -/

/-- A writer: the summary, the bytes fed to each digest, and the bytes of the
    current record that have not reached the file. `finished` says that `finish`
    consumed the writer. -/
structure LogWriter where
  summary : LogSummary
  stdoutDigest : Bytes := []
  stderrDigest : Bytes := []
  buffer : Bytes := []
  finished : Bool := false
deriving DecidableEq

namespace LogWriter

def create (maxBytes : Nat) : LogWriter := { summary := .new maxBytes }

def digest (writer : LogWriter) : LogStream → Bytes
  | .stdout => writer.stdoutDigest
  | .stderr => writer.stderrDigest

def updateDigest (writer : LogWriter) (chunk : LogChunk) : LogWriter :=
  match chunk.stream with
  | .stdout => { writer with stdoutDigest := writer.stdoutDigest ++ chunk.bytes }
  | .stderr => { writer with stderrDigest := writer.stderrDigest ++ chunk.bytes }

@[simp] theorem updateDigest_summary (writer : LogWriter) (chunk : LogChunk) :
    (writer.updateDigest chunk).summary = writer.summary := by
  unfold updateDigest
  cases chunk.stream <;> rfl

@[simp] theorem updateDigest_buffer (writer : LogWriter) (chunk : LogChunk) :
    (writer.updateDigest chunk).buffer = writer.buffer := by
  unfold updateDigest
  cases chunk.stream <;> rfl

@[simp] theorem updateDigest_finished (writer : LogWriter) (chunk : LogChunk) :
    (writer.updateDigest chunk).finished = writer.finished := by
  unfold updateDigest
  cases chunk.stream <;> rfl

def available (writer : LogWriter) : Nat :=
  writer.summary.maxBytes - writer.summary.capturedBytes

def captured (writer : LogWriter) (chunk : LogChunk) : Nat :=
  min chunk.bytes.length writer.available

def capturableBytes (writer : LogWriter) (chunk : LogChunk) : Bytes :=
  chunk.bytes.take (writer.captured chunk)

/-- The record that `record` writes for a chunk. -/
def nextRecord (writer : LogWriter) (chunk : LogChunk) (timestampMs : Nat) : LogRecord :=
  let bytes := chunk.bytes.take (writer.captured chunk)
  { schemaVersion := LOG_RECORD_SCHEMA_VERSION
    cursor := writer.summary.nextCursor
    timestampMs
    stream := chunk.stream
    encoding := .base64
    data := String.ofList (Base64.encode bytes)
    byteCount := bytes.length }

/-- The summary after a record of `byteCount` bytes was flushed. -/
def advance (writer : LogWriter) (byteCount : Nat) : LogWriter :=
  { writer with summary := { writer.summary with
      nextCursor := saturatingAdd writer.summary.nextCursor 1
      capturedBytes := saturatingAdd writer.summary.capturedBytes byteCount } }

def drop (writer : LogWriter) (dropped : Nat) : LogWriter :=
  { writer with summary := { writer.summary with
      droppedBytes := saturatingAdd writer.summary.droppedBytes dropped } }

def snapshot (writer : LogWriter) : LogSummary := writer.summary

/-- The summary that `finish` returns once the file is synced. -/
def finish [Toolchain] (writer : LogWriter) : LogSummary :=
  { writer.summary with
    stdoutSha256 := some (encodeLower (Toolchain.sha256 writer.stdoutDigest))
    stderrSha256 := some (encodeLower (Toolchain.sha256 writer.stderrDigest)) }

end LogWriter

/-! ## Reading -/

/-- The successive results of `read_until(b'\n')`: lines with their newline, and
    what follows the last newline. -/
def splitLines : Bytes → List Bytes
  | [] => []
  | b :: rest =>
    if b = NEWLINE then [NEWLINE] :: splitLines rest
    else
      match splitLines rest with
      | [] => [[b]]
      | line :: lines => (b :: line) :: lines

def decodeRecord [Toolchain] (record : LogRecord) : Except AppError Bytes :=
  match record.encoding with
  | .base64 =>
    match Base64.decode record.data.toList with
    | some bytes => .ok bytes
    | none => .error (.integrity ("log cursor " ++ toString record.cursor ++
        " contains invalid base64: " ++ Toolchain.displayBase64Error record.data))

/-- What `read_logs` checks of a record that is inside the durable summary. -/
def checkRecord [Toolchain] (record : LogRecord) : Except AppError Unit := do
  let decoded ← decodeRecord record
  if record.byteCount = 0 ∨ decoded.length ≠ record.byteCount then
    throw (.integrity ("log cursor " ++ toString record.cursor ++
      " byte count does not match its decoded data"))

/-- The selection of one `read_logs` call. -/
structure LogQuery where
  afterCursor : Nat
  limit : Nat
  stream : Option LogStream
deriving DecidableEq

def LogQuery.matches (query : LogQuery) (record : LogRecord) : Bool :=
  decide (query.afterCursor < record.cursor) && query.stream.all (· = record.stream)

/-- The loop of `read_logs` over the lines. Returns the records of the page and
    whether there are more. -/
def scanLines [Toolchain] (state : RunState) (query : LogQuery) :
    Nat → List LogRecord → List Bytes → Except AppError (List LogRecord × Bool)
  | _, records, [] => .ok (records, false)
  | previousCursor, records, line :: lines =>
    if MAX_RECORD_LINE_BYTES < line.length then
      .error (.integrity ("log record exceeds " ++ toString MAX_RECORD_LINE_BYTES ++ " bytes"))
    else if line.getLast? ≠ some NEWLINE then
      if state.status.isTerminal then
        .error (.integrity "terminal run contains an incomplete log record")
      else .ok (records, false)
    else
      match Toolchain.decodeLogRecord line with
      | .error e => .error (.integrity ("invalid log record: " ++ e))
      | .ok record =>
        if record.schemaVersion ≠ LOG_RECORD_SCHEMA_VERSION then
          .error (.integrity ("unsupported log schema " ++ record.schemaVersion))
        else if record.cursor = 0 ∨ record.cursor ≤ previousCursor then
          .error (.integrity ("log cursor " ++ toString record.cursor ++
            " is not strictly monotonic"))
        else if state.logs.nextCursor ≤ record.cursor then
          -- A live reader stops at the durable boundary: records are flushed
          -- before the snapshot that counts them.
          if state.status.isTerminal then
            .error (.integrity ("log cursor " ++ toString record.cursor ++
              " is outside the durable summary"))
          else .ok (records, false)
        else
          match checkRecord record with
          | .error e => .error e
          | .ok () =>
            if !query.matches record then scanLines state query record.cursor records lines
            else if records.length = query.limit then .ok (records, true)
            else scanLines state query record.cursor (records ++ [record]) lines

/-- `read_logs`, where `file` is what opening and reading `logs.ndjson` gave: an
    error of the open call, a later error, or the bytes of the file. -/
def readLogs [Toolchain] (state : RunState) (query : LogQuery)
    (file : Except IoError (Except AppError Bytes)) : Except AppError LogsResult := do
  if query.limit = 0 ∨ 1000 < query.limit then
    throw (.usage "log limit must be between 1 and 1000")
  let (records, hasMore) ←
    match file with
    | .ok (.ok bytes) => scanLines state query 0 [] (splitLines bytes)
    | .ok (.error e) => .error e
    | .error e =>
      if e.kind = .notFound ∧ (state.status = .created ∨ state.status = .starting) then
        .ok ([], false)
      else .error (.ofIo e)
  return {
    schemaVersion := "procherd.logs.v1"
    runId := state.runId
    afterCursor := query.afterCursor
    records
    nextAfterCursor := (records.getLast?.map (·.cursor)).getD query.afterCursor
    hasMore
    capturedBytes := state.logs.capturedBytes
    droppedBytes := state.logs.droppedBytes
    terminal := state.status.isTerminal }

/-! ## Written records

What the writer puts into the file, and why the reader accepts it: the line of
a written record is one line, within the limit of the reader. -/

/-- The record that a writer makes of `bytes`. -/
structure LogRecord.Written (record : LogRecord) (bytes : Bytes) : Prop where
  schemaVersion : record.schemaVersion = LOG_RECORD_SCHEMA_VERSION
  data : record.data = String.ofList (Base64.encode bytes)
  byteCount : record.byteCount = bytes.length
  nonempty : bytes ≠ []
  length_le : bytes.length ≤ READ_CHUNK_BYTES
  cursor_le : record.cursor ≤ u64Max
  timestamp_le : record.timestampMs ≤ u64Max

/-- `serde_json` reads back what the writer wrote. -/
class LawfulLogFormat [Toolchain] : Prop where
  decode_line : ∀ (record : LogRecord) (bytes : Bytes), record.Written bytes →
    Toolchain.decodeLogRecord record.line = .ok record

theorem plain_base64 (bytes : Bytes) : ∀ c ∈ Base64.encode bytes, Json.plain c := by
  have hdigit : ∀ i : Fin 64, Json.plain (Base64.digit i) := by decide
  exact Base64.encode_forall (fun n hn => hdigit ⟨n, hn⟩) (by decide) bytes

namespace LogRecord.Written

variable {record : LogRecord} {bytes : Bytes}

theorem printable (h : record.Written bytes) : Json.Printable record.toJson.compact := by
  refine Json.printable_cons (by decide) (Json.printable_append
    (Json.printable_compactFields ?_) (Json.printable_cons (by decide) nofun))
  have hdata : ∀ c ∈ record.data.toList, Json.plain c := by
    rw [h.data, String.toList_ofList]
    exact plain_base64 bytes
  have hplain {text : String} (htext : text.toList.all Json.plain) :
      ∀ c ∈ text.toList, Json.plain c := List.all_eq_true.mp htext
  simp only [List.forall_mem_cons, Json.compact]
  refine ⟨⟨hplain (by decide), Json.printable_quote (hplain ?_)⟩,
    ⟨hplain (by decide), Json.printable_number _⟩, ⟨hplain (by decide), Json.printable_number _⟩,
    ⟨hplain (by decide), Json.printable_quote (hplain ?_)⟩,
    ⟨hplain (by decide), Json.printable_quote (hplain ?_)⟩,
    ⟨hplain (by decide), Json.printable_quote hdata⟩,
    ⟨hplain (by decide), Json.printable_number _⟩, nofun⟩
  · rw [h.schemaVersion]; decide
  · cases record.stream <;> decide
  · cases record.encoding; decide

theorem encode_eq (h : record.Written bytes) :
    record.encode = record.toJson.compact.map fun c => UInt8.ofNat c.toNat :=
  Json.utf8_ascii fun c hc => (h.printable c hc).2

theorem newline_notMem_encode (h : record.Written bytes) : NEWLINE ∉ record.encode := by
  rw [h.encode_eq]
  intro hmem
  obtain ⟨c, hc, hb⟩ := List.mem_map.mp hmem
  have ⟨hlo, hhi⟩ := h.printable c hc
  have hval := congrArg UInt8.toNat hb
  rw [UInt8.toNat_ofNat', Nat.mod_eq_of_lt (by omega)] at hval
  change c.toNat = 10 at hval
  omega

/-- The longest line: a full chunk in base64 and three numbers of 20 digits. -/
theorem length_line_le (h : record.Written bytes) :
    record.line.length ≤ MAX_RECORD_LINE_BYTES := by
  have hlen : record.data.toList.length ≤ 10924 := by
    have hb := h.length_le
    rw [h.data, String.toList_ofList, Base64.length_encode]
    simp only [READ_CHUNK_BYTES] at hb
    omega
  have hdata : Json.quote record.data.toList = '"' :: record.data.toList ++ ['"'] := by
    apply Json.quote_plain
    rw [h.data, String.toList_ofList]
    exact plain_base64 bytes
  have hcursor : (Json.number record.cursor).length ≤ 20 :=
    Json.length_number_le (by decide) (Nat.lt_of_le_of_lt h.cursor_le (by decide))
  have htime : (Json.number record.timestampMs).length ≤ 20 :=
    Json.length_number_le (by decide) (Nat.lt_of_le_of_lt h.timestamp_le (by decide))
  have hcount : (Json.number record.byteCount).length ≤ 20 := by
    refine Json.length_number_le (by decide) (Nat.lt_of_le_of_lt ?_ (by decide : 8192 < 10 ^ 20))
    rw [h.byteCount]
    exact h.length_le
  have hstream : (Json.quote record.stream.name.toList).length = 8 := by
    cases record.stream <;> decide
  have hencoding : (Json.quote record.encoding.name.toList).length = 8 := by
    cases record.encoding; decide
  have hschema : (Json.quote record.schemaVersion.toList).length = 24 := by
    rw [h.schemaVersion]; decide
  have hkeys : (Json.quote "schema_version".toList).length = 16 ∧
      (Json.quote "cursor".toList).length = 8 ∧ (Json.quote "timestamp_ms".toList).length = 14 ∧
      (Json.quote "stream".toList).length = 8 ∧ (Json.quote "encoding".toList).length = 10 ∧
      (Json.quote "data".toList).length = 6 ∧ (Json.quote "byte_count".toList).length = 12 := by
    decide
  rw [LogRecord.line, List.length_append, h.encode_eq, List.length_map]
  simp only [LogRecord.toJson, Json.compact, Json.compactFields, List.length_cons,
    List.length_append, List.length_nil, hdata, hstream, hencoding, hschema, hkeys,
    MAX_RECORD_LINE_BYTES]
  omega

theorem decodeRecord_eq [Toolchain] (h : record.Written bytes) :
    decodeRecord record = .ok bytes := by
  unfold decodeRecord
  cases record.encoding
  simp only [h.data, String.toList_ofList, Base64.decode_encode]

end LogRecord.Written

/-! ## Lines of a file -/

theorem splitLines_cons_line {body rest : Bytes} (h : NEWLINE ∉ body) :
    splitLines (body ++ NEWLINE :: rest) = (body ++ [NEWLINE]) :: splitLines rest := by
  induction body with
  | nil => simp only [List.nil_append, splitLines, if_true]
  | cons b body ih =>
    have ⟨hb, hbody⟩ := not_or.mp (mt List.mem_cons.mpr h)
    simp only [List.cons_append, splitLines, if_neg (Ne.symm hb), ih hbody]

/-- The end of a file without a newline is one incomplete line. -/
theorem splitLines_tail {tail : Bytes} (h : NEWLINE ∉ tail) (hne : tail ≠ []) :
    splitLines tail = [tail] := by
  induction tail with
  | nil => exact absurd rfl hne
  | cons b tail ih =>
    have ⟨hb, htail⟩ := not_or.mp (mt List.mem_cons.mpr h)
    simp only [splitLines, if_neg (Ne.symm hb)]
    cases tail with
    | nil => rfl
    | cons c tail => rw [ih htail (List.cons_ne_nil _ _)]

theorem splitLines_recordLines {records : List LogRecord}
    (h : ∀ record ∈ records, ∃ bytes, record.Written bytes) (rest : Bytes) :
    splitLines (recordLines records ++ rest) = records.map LogRecord.line ++ splitLines rest := by
  induction records with
  | nil => rfl
  | cons record records ih =>
    have ⟨⟨bytes, hrecord⟩, hrecords⟩ := List.forall_mem_cons.mp h
    have hline : recordLines (record :: records) ++ rest =
        record.encode ++ NEWLINE :: (recordLines records ++ rest) := by
      simp only [recordLines, List.flatMap_cons, LogRecord.line, List.append_assoc,
        List.cons_append, List.nil_append]
    rw [hline, splitLines_cons_line hrecord.newline_notMem_encode, ih hrecords]
    rfl

end Procherd
