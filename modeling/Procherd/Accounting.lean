-- SUMMARY: The accounting of captured output: which bytes the records of a writer hold, and what its summary says of them.
import Procherd.Logs

/-!
# Accounting

The chunks arrive in one order, in which the two streams are interleaved. The
writer keeps the first `maxBytes` of their bytes: every chunk of which something
is kept becomes a record. This holds of the sequence of chunks as a whole, so it
is an invariant that one more chunk extends.
-/

namespace Procherd

/-! ## Chunks -/

def bytesOf (chunks : List LogChunk) : Bytes := chunks.flatMap (·.bytes)

/-- The bytes of one stream. -/
def streamBytes (stream : LogStream) (chunks : List LogChunk) : Bytes :=
  bytesOf (chunks.filter (·.stream = stream))

@[simp] theorem bytesOf_append (first rest : List LogChunk) :
    bytesOf (first ++ rest) = bytesOf first ++ bytesOf rest :=
  List.flatMap_append

@[simp] theorem bytesOf_singleton (chunk : LogChunk) : bytesOf [chunk] = chunk.bytes :=
  List.append_nil _

@[simp] theorem streamBytes_append (stream : LogStream) (first rest : List LogChunk) :
    streamBytes stream (first ++ rest) = streamBytes stream first ++ streamBytes stream rest := by
  rw [streamBytes, List.filter_append, bytesOf_append]
  rfl

theorem streamBytes_singleton (stream : LogStream) (chunk : LogChunk) :
    streamBytes stream [chunk] = if chunk.stream = stream then chunk.bytes else [] := by
  by_cases h : chunk.stream = stream
  · simp only [streamBytes, h, List.filter_cons, decide_true, if_true, List.filter_nil,
      bytesOf_singleton]
  · simp only [streamBytes, h, List.filter_cons, decide_false, Bool.false_eq_true, if_false,
      List.filter_nil]
    rfl

/-- The two streams together are all bytes. -/
theorem length_streamBytes (chunks : List LogChunk) :
    (streamBytes .stdout chunks).length + (streamBytes .stderr chunks).length =
      (bytesOf chunks).length := by
  induction chunks with
  | nil => rfl
  | cons chunk rest ih =>
    rw [show chunk :: rest = [chunk] ++ rest from rfl]
    simp only [streamBytes_append, bytesOf_append, bytesOf_singleton, List.length_append,
      streamBytes_singleton]
    cases chunk.stream <;> simp only [reduceCtorEq, if_true, if_false, List.length_nil] <;> omega

/-- One more chunk: what the budget still keeps of it becomes a piece. -/
def retain (maxBytes : Nat) (pieces : List LogChunk) (chunk : LogChunk) : List LogChunk :=
  let n := min chunk.bytes.length (maxBytes - (bytesOf pieces).length)
  if 0 < n then pieces ++ [{ chunk with bytes := chunk.bytes.take n }] else pieces

/-- The pieces of `chunks` that a budget of `maxBytes` keeps. -/
def retained (maxBytes : Nat) (chunks : List LogChunk) : List LogChunk :=
  chunks.foldl (retain maxBytes) []

theorem retained_concat (maxBytes : Nat) (chunks : List LogChunk) (chunk : LogChunk) :
    retained maxBytes (chunks ++ [chunk]) = retain maxBytes (retained maxBytes chunks) chunk :=
  List.foldl_append

/-- What a budget of `maxBytes` keeps of the received chunks. -/
structure Captured (maxBytes : Nat) (received pieces : List LogChunk) : Prop where
  content : bytesOf pieces = (bytesOf received).take maxBytes
  stream : ∀ stream, streamBytes stream pieces <+: streamBytes stream received
  /-- Before the budget is spent, everything is kept. -/
  complete : (bytesOf received).length < maxBytes →
    ∀ stream, streamBytes stream pieces = streamBytes stream received

namespace Captured

variable {maxBytes : Nat} {received pieces : List LogChunk} {chunk : LogChunk}

theorem nil (maxBytes : Nat) : Captured maxBytes [] [] where
  content := (List.take_nil).symm
  stream _ := List.prefix_rfl
  complete _ _ := rfl

theorem length_eq (h : Captured maxBytes received pieces) :
    (bytesOf pieces).length = min (bytesOf received).length maxBytes := by
  rw [h.content, List.length_take, Nat.min_comm]

/-- A chunk of which the budget still takes something. -/
theorem keep {n : Nat} (h : Captured maxBytes received pieces) (hpos : 0 < n)
    (hn : n = min chunk.bytes.length (maxBytes - (bytesOf pieces).length)) :
    Captured maxBytes (received ++ [chunk])
      (pieces ++ [{ chunk with bytes := chunk.bytes.take n }]) := by
  have hlength := h.length_eq
  have hspare : (bytesOf received).length < maxBytes := by omega
  have htake : chunk.bytes.take n = chunk.bytes.take (maxBytes - (bytesOf received).length) := by
    rw [List.take_eq_take_min (l := chunk.bytes) (i := maxBytes - _)]
    congr 1
    omega
  refine ⟨?_, fun stream => ?_, fun hless stream => ?_⟩
  · simp only [bytesOf_append, bytesOf_singleton]
    rw [List.take_append, h.content, htake]
  · simp only [streamBytes_append, streamBytes_singleton, h.complete hspare stream]
    apply (List.prefix_append_right_inj _).mpr
    split
    · exact List.take_prefix n _
    · exact List.prefix_rfl
  · simp only [bytesOf_append, bytesOf_singleton, List.length_append] at hless
    simp only [streamBytes_append, streamBytes_singleton, h.complete hspare stream]
    rw [List.take_of_length_le (by omega)]

/-- A chunk after the budget is spent. -/
theorem discard (h : Captured maxBytes received pieces)
    (hn : min chunk.bytes.length (maxBytes - (bytesOf pieces).length) = 0) :
    Captured maxBytes (received ++ [chunk]) pieces := by
  have hlength := h.length_eq
  by_cases hempty : chunk.bytes = []
  · have hstream (stream : LogStream) :
        streamBytes stream (received ++ [chunk]) = streamBytes stream received := by
      rw [streamBytes_append, streamBytes_singleton, hempty, ite_self, List.append_nil]
    have hbytes : bytesOf (received ++ [chunk]) = bytesOf received := by
      rw [bytesOf_append, bytesOf_singleton, hempty, List.append_nil]
    refine ⟨hbytes ▸ h.content, fun stream => ?_, fun hless stream => ?_⟩
    · rw [hstream]
      exact h.stream stream
    · rw [hstream]
      exact h.complete (hbytes ▸ hless) stream
  have hpos := List.length_pos_iff.mpr hempty
  have hspent : maxBytes ≤ (bytesOf received).length := by omega
  refine ⟨?_, fun stream => ?_, fun hless => ?_⟩
  · rw [bytesOf_append, List.take_append_of_le_length hspent, h.content]
  · rw [streamBytes_append]
    exact (h.stream stream).trans (List.prefix_append _ _)
  · rw [bytesOf_append, List.length_append] at hless
    omega

theorem of_retained (maxBytes : Nat) (chunks : List LogChunk) :
    Captured maxBytes chunks (retained maxBytes chunks) := by
  induction chunks using List.reverseRecOn with
  | nil => exact .nil maxBytes
  | append_singleton chunks chunk ih =>
    rw [retained_concat]
    simp only [retain]
    split
    · rename_i hpos
      exact ih.keep hpos rfl
    · rename_i hzero
      exact ih.discard (Nat.eq_zero_of_not_pos hzero)

end Captured

/-! ## Records -/

/-- The decoded data of a record. -/
def LogRecord.bytes (record : LogRecord) : Bytes :=
  (Base64.decode record.data.toList).getD []

def LogRecord.chunk (record : LogRecord) : LogChunk :=
  { stream := record.stream, bytes := record.bytes }

theorem LogRecord.Written.bytes_eq {record : LogRecord} {bytes : Bytes}
    (h : record.Written bytes) : record.bytes = bytes := by
  rw [LogRecord.bytes, h.data, String.toList_ofList, Base64.decode_encode]
  rfl

/-- The records that a writer has flushed, one after the other. -/
structure Numbered (records : List LogRecord) : Prop where
  written : ∀ record ∈ records, record.Written record.bytes
  cursors : records.map (·.cursor) = List.range' 1 records.length

namespace Numbered

variable {records : List LogRecord}

theorem nil : Numbered [] := ⟨nofun, rfl⟩

theorem concat {record : LogRecord} {bytes : Bytes} (h : Numbered records)
    (hwritten : record.Written bytes) (hcursor : record.cursor = records.length + 1) :
    Numbered (records ++ [record]) where
  written := by
    intro other hother
    rcases List.mem_append.mp hother with hother | hother
    · exact h.written other hother
    · rw [List.mem_singleton.mp hother, hwritten.bytes_eq]
      exact hwritten
  cursors := by
    rw [List.map_append, h.cursors, List.length_append, List.length_singleton,
      List.range'_concat, List.map_singleton, hcursor, Nat.one_mul, Nat.add_comm]

theorem written_exists (h : Numbered records) : ∀ record ∈ records, ∃ bytes, record.Written bytes :=
  fun record hrecord => ⟨_, h.written record hrecord⟩

theorem byteCount_pos (h : Numbered records) : ∀ record ∈ records, 0 < record.byteCount := by
  intro record hrecord
  have hwritten := h.written record hrecord
  rw [hwritten.byteCount]
  exact List.length_pos_iff.mpr hwritten.nonempty

theorem sum_byteCount (h : Numbered records) :
    (records.map (·.byteCount)).sum = (bytesOf (records.map LogRecord.chunk)).length := by
  have hcounts : records.map (·.byteCount) = records.map (·.bytes.length) :=
    List.map_congr_left fun record hrecord => (h.written record hrecord).byteCount
  rw [hcounts, bytesOf, List.length_flatMap, List.map_map]
  rfl

theorem cursor_bounds (h : Numbered records) :
    ∀ record ∈ records, 1 ≤ record.cursor ∧ record.cursor ≤ records.length := by
  intro record hrecord
  have hmem : record.cursor ∈ List.range' 1 records.length :=
    h.cursors ▸ List.mem_map_of_mem hrecord
  rw [List.mem_range'_1] at hmem
  omega

/-- There are no more records than captured bytes. -/
theorem length_le (h : Numbered records) :
    records.length ≤ (bytesOf (records.map LogRecord.chunk)).length := by
  rw [← h.sum_byteCount]
  have hpos := h.byteCount_pos
  clear h
  induction records with
  | nil => exact Nat.zero_le _
  | cons record rest ih =>
    have hrest := ih fun other hother => hpos other (List.mem_cons_of_mem _ hother)
    have hrecord := hpos record List.mem_cons_self
    simp only [List.length_cons, List.map_cons, List.sum_cons]
    omega

end Numbered

/-! ## The summary -/

/-- The largest `max_log_bytes`. -/
def MAX_LOG_BYTES : Nat := 1024 * 1024 * 1024

/-- The state of a writer after `received`, of which it has flushed `records`. -/
structure Summarizes (maxBytes : Nat) (writer : LogWriter) (received : List LogChunk)
    (records : List LogRecord) : Prop where
  numbered : Numbered records
  pieces : records.map LogRecord.chunk = retained maxBytes received
  limit : writer.summary.maxBytes = maxBytes
  nextCursor : writer.summary.nextCursor = records.length + 1
  capturedBytes : writer.summary.capturedBytes = min (bytesOf received).length maxBytes
  droppedBytes : writer.summary.droppedBytes = min ((bytesOf received).length - maxBytes) u64Max
  digest : ∀ stream, writer.digest stream = streamBytes stream received

namespace Summarizes

variable {maxBytes : Nat} {writer : LogWriter} {received : List LogChunk}
  {records : List LogRecord} {chunk : LogChunk}

theorem create (maxBytes : Nat) : Summarizes maxBytes (.create maxBytes) [] [] where
  numbered := .nil
  pieces := rfl
  limit := rfl
  nextCursor := rfl
  capturedBytes := (Nat.zero_min _).symm
  droppedBytes := by
    rw [show (bytesOf []).length = 0 from rfl, Nat.zero_sub, Nat.zero_min]
    rfl
  digest stream := by cases stream <;> rfl

theorem captured (h : Summarizes maxBytes writer received records) :
    Captured maxBytes received (records.map LogRecord.chunk) :=
  h.pieces ▸ .of_retained maxBytes received

theorem length_chunks (h : Summarizes maxBytes writer received records) :
    (bytesOf (records.map LogRecord.chunk)).length = writer.summary.capturedBytes :=
  h.captured.length_eq.trans h.capturedBytes.symm

theorem digest_updateDigest (h : Summarizes maxBytes writer received records) (stream : LogStream) :
    (writer.updateDigest chunk).digest stream = streamBytes stream (received ++ [chunk]) := by
  rw [streamBytes_append, streamBytes_singleton, ← h.digest stream]
  unfold LogWriter.updateDigest
  cases chunk.stream <;> cases stream <;>
    simp only [LogWriter.digest, reduceCtorEq, if_true, if_false, List.append_nil]

theorem captured_eq (chunk : LogChunk) (h : Summarizes maxBytes writer received records) :
    (writer.updateDigest chunk).captured chunk =
      min chunk.bytes.length (maxBytes - (bytesOf (records.map LogRecord.chunk)).length) := by
  rw [LogWriter.captured, LogWriter.available, LogWriter.updateDigest_summary, h.limit, h.length_chunks]

/-- The record of the next chunk. -/
theorem nextRecord_written (h : Summarizes maxBytes writer received records)
    (hmax : maxBytes ≤ MAX_LOG_BYTES) {timestampMs : Nat} (htimestamp : timestampMs ≤ u64Max)
    (hlength : chunk.bytes.length ≤ READ_CHUNK_BYTES)
    (hpos : 0 < (writer.updateDigest chunk).captured chunk) :
    ((writer.updateDigest chunk).nextRecord chunk timestampMs).Written
      (chunk.bytes.take ((writer.updateDigest chunk).captured chunk)) where
  schemaVersion := rfl
  data := rfl
  byteCount := rfl
  nonempty := by
    intro hnil
    have hzero := congrArg List.length hnil
    rw [List.length_take, List.length_nil] at hzero
    have hle : (writer.updateDigest chunk).captured chunk ≤ chunk.bytes.length := Nat.min_le_left _ _
    omega
  length_le := (List.length_take_le' _ _).trans hlength
  cursor_le := by
    have hrecords := h.numbered.length_le
    rw [h.captured.length_eq] at hrecords
    change (writer.updateDigest chunk).summary.nextCursor ≤ u64Max
    rw [LogWriter.updateDigest_summary, h.nextCursor]
    simp only [MAX_LOG_BYTES, u64Max] at *
    omega
  timestamp_le := htimestamp

theorem nextRecord_cursor (h : Summarizes maxBytes writer received records) (timestampMs : Nat) :
    ((writer.updateDigest chunk).nextRecord chunk timestampMs).cursor = records.length + 1 := by
  change (writer.updateDigest chunk).summary.nextCursor = _
  rw [LogWriter.updateDigest_summary, h.nextCursor]

/-- The writer after a chunk of which something is kept. -/
theorem keep (h : Summarizes maxBytes writer received records) (hmax : maxBytes ≤ MAX_LOG_BYTES)
    {timestampMs : Nat} (htimestamp : timestampMs ≤ u64Max)
    (hlength : chunk.bytes.length ≤ READ_CHUNK_BYTES)
    (hpos : 0 < (writer.updateDigest chunk).captured chunk) {logs : LogWriter}
    (hsummary : logs.summary = ((((writer.updateDigest chunk).advance
      ((writer.updateDigest chunk).nextRecord chunk timestampMs).byteCount).drop
        (chunk.bytes.length - (writer.updateDigest chunk).captured chunk))).summary)
    (hdigest : ∀ stream, logs.digest stream = (writer.updateDigest chunk).digest stream) :
    Summarizes maxBytes logs (received ++ [chunk])
      (records ++ [(writer.updateDigest chunk).nextRecord chunk timestampMs]) := by
  have hwritten := h.nextRecord_written hmax htimestamp hlength hpos
  have hcaptured := h.captured_eq chunk
  have hlen := h.captured.length_eq
  have hbytes : (bytesOf (received ++ [chunk])).length =
      (bytesOf received).length + chunk.bytes.length := by
    rw [bytesOf_append, bytesOf_singleton, List.length_append]
  have hrecords := h.numbered.length_le
  have hcount : ((writer.updateDigest chunk).nextRecord chunk timestampMs).byteCount =
      (writer.updateDigest chunk).captured chunk := by
    rw [hwritten.byteCount, List.length_take]
    exact Nat.min_eq_left (Nat.min_le_left _ _)
  simp only [MAX_LOG_BYTES] at hmax
  refine ⟨h.numbered.concat hwritten (h.nextRecord_cursor timestampMs), ?_, ?_, ?_, ?_, ?_, ?_⟩
  · have hchunk : ((writer.updateDigest chunk).nextRecord chunk timestampMs).chunk =
        { chunk with bytes := chunk.bytes.take ((writer.updateDigest chunk).captured chunk) } := by
      rw [LogRecord.chunk, hwritten.bytes_eq]
      rfl
    rw [List.map_append, List.map_singleton, hchunk, retained_concat, ← h.pieces]
    simp only [retain]
    rw [← hcaptured, if_pos hpos]
  · rw [hsummary]
    exact (congrArg LogSummary.maxBytes (LogWriter.updateDigest_summary writer chunk)).trans h.limit
  · rw [hsummary]
    change saturatingAdd (writer.updateDigest chunk).summary.nextCursor 1 = _
    rw [LogWriter.updateDigest_summary, h.nextCursor, saturatingAdd_of_le (by simp only [u64Max]; omega),
      List.length_append, List.length_singleton]
  · rw [hsummary]
    change saturatingAdd (writer.updateDigest chunk).summary.capturedBytes _ = _
    rw [LogWriter.updateDigest_summary, hcount, h.capturedBytes, hbytes,
      saturatingAdd_of_le (by simp only [u64Max]; omega)]
    omega
  · rw [hsummary]
    change saturatingAdd (writer.updateDigest chunk).summary.droppedBytes _ = _
    rw [LogWriter.updateDigest_summary, h.droppedBytes, hbytes, saturatingAdd]
    omega
  · intro stream
    rw [hdigest, h.digest_updateDigest]

/-- The writer after a chunk of which nothing is kept. -/
theorem discard (h : Summarizes maxBytes writer received records) (hne : chunk.bytes ≠ [])
    (hzero : (writer.updateDigest chunk).captured chunk = 0) {logs : LogWriter}
    (hlogs : logs = (writer.updateDigest chunk).drop chunk.bytes.length) :
    Summarizes maxBytes logs (received ++ [chunk]) records := by
  have hcaptured := h.captured_eq chunk
  have hlen := h.captured.length_eq
  have hpos := List.length_pos_iff.mpr hne
  have hbytes : (bytesOf (received ++ [chunk])).length =
      (bytesOf received).length + chunk.bytes.length := by
    rw [bytesOf_append, bytesOf_singleton, List.length_append]
  have hsummary : logs.summary = (((writer.updateDigest chunk).drop chunk.bytes.length)).summary := by
    rw [hlogs]
  refine ⟨h.numbered, ?_, ?_, ?_, ?_, ?_, ?_⟩
  · rw [retained_concat, ← h.pieces]
    simp only [retain]
    rw [← hcaptured, hzero, if_neg (Nat.lt_irrefl 0)]
  · rw [hsummary]
    exact (congrArg LogSummary.maxBytes (LogWriter.updateDigest_summary writer chunk)).trans h.limit
  · rw [hsummary]
    exact (congrArg LogSummary.nextCursor (LogWriter.updateDigest_summary writer chunk)).trans h.nextCursor
  · rw [hsummary]
    refine (congrArg LogSummary.capturedBytes (LogWriter.updateDigest_summary writer chunk)).trans ?_
    rw [h.capturedBytes, hbytes]
    omega
  · rw [hsummary]
    change saturatingAdd (writer.updateDigest chunk).summary.droppedBytes _ = _
    rw [LogWriter.updateDigest_summary, h.droppedBytes, hbytes, saturatingAdd]
    omega
  · intro stream
    rw [hlogs]
    exact h.digest_updateDigest stream

end Summarizes

end Procherd
