-- SUMMARY: A toolchain and a setup on which the model runs: SHA-256, ULIDs, and the decoders of the two documents that are read as bytes.
import Procherd.System
import Procherd.Format.Sha256
import Procherd.Format.Tokens

/-!
# Reference toolchain

What the crates compute on a Unix target, with simplified texts where they
refuse their input. It reads back every record and every stop request that the
program writes. With a setup that starts a shell, the system can be run on a
list of moves.
-/

namespace Procherd.Reference

open Interaction

/-! ## ULIDs -/

def crockford : List Char := "0123456789ABCDEFGHJKMNPQRSTVWXYZ".toList

def ulidValue (text : List Char) : Option Nat :=
  text.foldlM (fun value c =>
    let digit := crockford.idxOf c.toUpper
    if digit < 32 then some (32 * value + digit) else none) 0

def parseUlid (s : String) : Option Nat :=
  if s.toList.length = 26 then (ulidValue s.toList).map (· % 2 ^ 128) else none

/-- The `n` low digits of a value, the highest first. -/
def ulidDigits : Nat → Nat → List Char
  | 0, _ => []
  | n + 1, value => crockford.getD (value / 32 ^ n % 32) '0' :: ulidDigits n value

def displayUlid (value : Nat) : String := String.ofList (ulidDigits 26 value)

/-! ## Decoders -/

def getStr (fields : List (String × Json.Scalar)) (key : String) : Option String :=
  match fields.lookup key with
  | some (.str s) => some s
  | _ => none

def getNum (fields : List (String × Json.Scalar)) (key : String) : Option Nat :=
  match fields.lookup key with
  | some (.num n) => if n ≤ u64Max then some n else none
  | _ => none

def parseStream (s : String) : Option LogStream :=
  if s = "stdout" then some .stdout else if s = "stderr" then some .stderr else none

def parseEncoding (s : String) : Option LogEncoding := if s = "base64" then some .base64 else none

def readFields (bytes : Bytes) : Option (List (String × Json.Scalar)) :=
  (Json.fromUtf8 bytes).bind Json.readObject

def logRecordOf (fields : List (String × Json.Scalar)) : Option LogRecord := do
  let schemaVersion ← getStr fields "schema_version"
  let cursor ← getNum fields "cursor"
  let timestampMs ← getNum fields "timestamp_ms"
  let stream ← (getStr fields "stream").bind parseStream
  let encoding ← (getStr fields "encoding").bind parseEncoding
  let data ← getStr fields "data"
  let byteCount ← getNum fields "byte_count"
  return { schemaVersion, cursor, timestampMs, stream, encoding, data, byteCount }

def stopRequestOf (fields : List (String × Json.Scalar)) : Option StopRequest := do
  let schemaVersion ← getStr fields "schema_version"
  let runId ← getStr fields "run_id"
  let ownerToken ← getStr fields "owner_token"
  let requestedAtMs ← getNum fields "requested_at_ms"
  let graceMs ← getNum fields "grace_ms"
  return { schemaVersion, runId, ownerToken, requestedAtMs, graceMs }

/-- A document of `count` fields, which leaves no room for a field that is unknown or
    comes twice. -/
def decode {α : Type} (count : Nat) (f : List (String × Json.Scalar) → Option α) (bytes : Bytes) :
    Except String α :=
  match (readFields bytes).bind fun fields => if fields.length = count then f fields else none with
  | some a => .ok a
  | none => .error "invalid document"

scoped instance toolchain : Toolchain where
  platform := .unix
  sha256 := Sha256.digest
  displayPath path := ((Json.fromUtf8 path.bytes).map String.ofList).getD ""
  debugStr := String.quote
  parseUlid := parseUlid
  displayUlid := displayUlid
  displayBase64Error _ := "Invalid input"
  decodeLogRecord := decode 7 logRecordOf
  decodeStopRequest := decode 5 stopRequestOf
  -- More than any document of the runs below takes.
  stateLength _ := 4096
  specLength _ := 4096

theorem readable (state : RunState) : state.Readable := by
  show 4096 ≤ DOCUMENT_LIMIT
  decide

/-! ## Round trips -/

def logFields (record : LogRecord) : List (String × Json.Scalar) :=
  [("schema_version", .str record.schemaVersion), ("cursor", .num record.cursor),
    ("timestamp_ms", .num record.timestampMs), ("stream", .str record.stream.name),
    ("encoding", .str record.encoding.name), ("data", .str record.data),
    ("byte_count", .num record.byteCount)]

def stopFields (request : StopRequest) : List (String × Json.Scalar) :=
  [("schema_version", .str request.schemaVersion), ("run_id", .str request.runId),
    ("owner_token", .str request.ownerToken), ("requested_at_ms", .num request.requestedAtMs),
    ("grace_ms", .num request.graceMs)]

theorem logRecordOf_logFields {record : LogRecord} (hcursor : record.cursor ≤ u64Max)
    (htimestamp : record.timestampMs ≤ u64Max) (hcount : record.byteCount ≤ u64Max) :
    logRecordOf (logFields record) = some record := by
  have hstream : parseStream record.stream.name = some record.stream := by
    cases record.stream <;> rfl
  have hencoding : parseEncoding record.encoding.name = some record.encoding := by
    cases record.encoding; rfl
  have hnum (key : String) (n : Nat) (hn : n ≤ u64Max)
      (h : (logFields record).lookup key = some (.num n)) :
      getNum (logFields record) key = some n := by
    simp only [getNum, h, hn, if_true]
  have hstr (key s : String) (h : (logFields record).lookup key = some (.str s)) :
      getStr (logFields record) key = some s := by
    simp only [getStr, h]
  rw [logRecordOf, hstr "schema_version" _ rfl, hnum "cursor" _ hcursor rfl,
    hnum "timestamp_ms" _ htimestamp rfl, hstr "stream" _ rfl, hstr "encoding" _ rfl,
    hstr "data" _ rfl, hnum "byte_count" _ hcount rfl]
  simp only [hstream, hencoding, bind, Option.bind]
  rfl

theorem stopRequestOf_stopFields {request : StopRequest} (htime : request.requestedAtMs ≤ u64Max)
    (hgrace : request.graceMs ≤ u64Max) : stopRequestOf (stopFields request) = some request := by
  have hnum (key : String) (n : Nat) (hn : n ≤ u64Max)
      (h : (stopFields request).lookup key = some (.num n)) :
      getNum (stopFields request) key = some n := by
    simp only [getNum, h, hn, if_true]
  have hstr (key s : String) (h : (stopFields request).lookup key = some (.str s)) :
      getStr (stopFields request) key = some s := by
    simp only [getStr, h]
  rw [stopRequestOf, hstr "schema_version" _ rfl, hstr "run_id" _ rfl, hstr "owner_token" _ rfl,
    hnum "requested_at_ms" _ htime rfl, hnum "grace_ms" _ hgrace rfl]
  rfl

theorem utf8_newline : Json.utf8 ['\n'] = [NEWLINE] := by decide

scoped instance lawfulLogFormat : LawfulLogFormat where
  decode_line record bytes h := by
    have hline : record.line =
        Json.utf8 (Json.compact (Json.ofFields (logFields record)) ++ ['\n']) := by
      rw [Json.utf8_append, utf8_newline]
      rfl
    have hcount : record.byteCount ≤ u64Max := by
      rw [h.byteCount]
      exact h.length_le.trans (by decide)
    have hread : readFields record.line = some (logFields record) := by
      rw [readFields, hline, Json.fromUtf8_utf8, Option.bind_some]
      exact Json.readObject_compact (List.cons_ne_nil _ _) (List.all_eq_true.mp rfl)
    change decode 7 logRecordOf record.line = .ok record
    have hcount' : (logFields record).length = 7 := rfl
    simp only [decode, hread, Option.bind_some, hcount', if_true,
      logRecordOf_logFields h.cursor_le h.timestamp_le hcount]

scoped instance lawfulStopFormat : LawfulStopFormat where
  decode_encode request htime hgrace := by
    have hencode : request.encode =
        Json.utf8 (Json.pretty 0 (Json.ofFields (stopFields request)) ++ ['\n']) := by
      rw [Json.utf8_append, utf8_newline]
      rfl
    have hread : readFields request.encode = some (stopFields request) := by
      rw [readFields, hencode, Json.fromUtf8_utf8, Option.bind_some]
      exact Json.readObject_pretty (List.cons_ne_nil _ _) (List.all_eq_true.mp rfl)
    change decode 5 stopRequestOf request.encode = .ok request
    have hcount : (stopFields request).length = 5 := rfl
    simp only [decode, hread, Option.bind_some, hcount, if_true,
      stopRequestOf_stopFields htime hgrace]

/-! ## A setup -/

def options : StartOptions :=
  { runId := "run_01ARZ3NDEKTSV4RRFFQ69G5FAV"
    ownerToken := "0123456789abcdef0123456789abcdef0123456789abcdef0123456789abcdef"
    workingDirectory := .ofString "/work"
    maxLogBytes := 4
    startupTimeoutMs := 1000
    maxRuntimeMs := none
    runtimeGraceMs := 10
    readinessTimeoutMs := 1000
    conditions := []
    leasePorts := []
    leaseTempDirs := []
    program := "sh"
    args := []
    inheritedNameCount := 0
    inheritedNamesSha256 := "" }

/-- The process writes `hi` to its standard output; the only client is `client`. -/
def setup (client : ClientProgram) : Setup :=
  { options
    root := .ofString "/state"
    registry := none
    output := fun
      | .stdout => [104, 105]
      | .stderr => []
    clients := fun _ => client }

/-- The idle client. -/
def idle : ClientProgram := .ret (.observed (.error (.usage "idle")))

/-- `n` steps of one thread, with one answer. -/
def steps (t : Thread) (n : Nat) (a : Answer) : List system.Move := List.replicate n (t, a)

/-- From the creation to the persisted `running`. -/
def startUp : List system.Move := steps .start 9 {} ++ steps .supervisor 20 {}

/-- From the output of the process to the release of the supervisor's lock. -/
def finish : List system.Move :=
  steps (.reader .stdout) 6 { count := 2 } ++ steps (.reader .stderr) 3 {} ++
    steps .supervisor 26 { count := 1000, exit := some { code := some 0, signal := none } }

end Procherd.Reference
