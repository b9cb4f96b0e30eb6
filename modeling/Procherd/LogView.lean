-- SUMMARY: The supervisor over its log: what each of its steps does to the file, to the summary in `state.json` and to the channel.
import Procherd.Accounting
import Procherd.ControlFrame

/-!
# The log view

The supervisor is the only thread that writes `logs.ndjson`, receives from the
channel and, while it is active, writes `state.json`. Over these the log is
sound after every one of its steps, whichever of them fail: the file is a
sequence of numbered records and at most a part of one more line, and the
summary in `state.json` counts only records that are there.
-/

namespace Procherd

open Interaction

/-- What the supervisor sees of its log. -/
structure LogView where
  document : Option RunState
  spec : Option SupervisorSpec
  file : Option Bytes
  received : List LogChunk
  closed : Bool
  idle : LogStream → Bool
  receiver : Bool

def World.logView (w : World) : LogView :=
  { document := w.state?
    spec := w.specJson
    file := w.logsNdjson
    received := w.received
    closed := w.closed
    idle := fun stream => w.reader stream = .idle
    receiver := w.receiver }

def LogView.append (o : LogView) (bytes : Bytes) : LogView :=
  { o with file := o.file.map (· ++ bytes) }

/-- The child has exited and its output is closed. -/
def RunStatus.complete : RunStatus → Bool
  | .exited | .stopped => true
  | _ => false

theorem RunStatus.complete_of_live {status : RunStatus} (h : status.isTerminal = false) :
    status.complete = false := by
  cases status <;> first | rfl | cases h

theorem RunStatus.eq_failed {status : RunStatus} (h : status.isTerminal)
    (hcomplete : status.complete = false) : status = .failed := by
  revert h hcomplete
  cases status <;> decide

variable [Toolchain]

/-- The file holds `records` and `tail`, and `state.json` counts only records
    that are there; a run that completed has all of its output recorded. -/
structure LogFile (maxBytes : Nat) (o : LogView) (records : List LogRecord) (tail : Bytes) :
    Prop where
  file : o.file.getD [] = recordLines records ++ tail
  unended : NEWLINE ∉ tail
  /-- The part of a line is within the limit of the reader. -/
  fits : tail.length ≤ MAX_RECORD_LINE_BYTES
  numbered : Numbered records
  durable : ∀ state, o.document = some state → state.logs.nextCursor ≤ records.length + 1
  complete : ∀ state, o.document = some state → state.status.complete →
    o.file = some (recordLines records) ∧ o.closed ∧
      ∃ writer, Summarizes maxBytes writer o.received records ∧ state.logs = writer.finish

/-- The log is sound. -/
def LogSound (maxBytes : Nat) (o : LogView) : Prop :=
  ∃ records tail, LogFile maxBytes o records tail

namespace LogView

/-! ## Steps -/

/-- What a receiving call does. -/
def Receives (o : LogView) : Received → LogView → Prop
  | .chunk chunk, o' => chunk.bytes ≠ [] ∧ chunk.bytes.length ≤ READ_CHUNK_BYTES ∧
      o' = { o with received := o.received ++ [chunk] }
  | .empty, o' => o' = o
  | .disconnected, o' => o' = { o with closed := true }

def step : {β : Type} → BodyCmd β → LogView → β → LogView → Prop
  | _, .persistState state, o, r, o' =>
    (r = .ok () ∧ o' = { o with document := some state }) ∨
      ∃ e, r = .error e ∧ (o' = o ∨ o' = { o with document := some state })
  | _, .readSpec, o, r, o' => o' = o ∧ ∀ spec, r = .ok spec → o.spec = some spec
  | _, .readState, o, r, o' => o' = o ∧ ∀ state, r = .ok state → o.document = some state
  | _, .removeSpec, o, _, o' => ∃ spec, o' = { o with spec }
  | _, .now, o, now, o' => o' = o ∧ now ≤ u64Max
  | _, .openChannel, o, _, o' => o' = { o with receiver := true }
  | _, .captureStream stream, o, _, o' => o' = { o with idle := Function.update o.idle stream false }
  | _, .dropReceiver, o, _, o' => o' = { o with receiver := false }
  | _, .createLog, o, r, o' =>
    (r = .ok () ∧ o' = { o with file := some [] }) ∨ ∃ e, r = .error e ∧ o' = o
  | _, .appendLog bytes, o, r, o' =>
    (∃ n, r = .wrote n ∧ o' = o.append (bytes.take n)) ∨ ∃ e kept, r = .failed e kept ∧ o' = o
  | _, .dropLog buffer, o, _, o' => ∃ n, o' = o.append (buffer.take n)
  | _, .tryRecv, o, r, o' => o.Receives r o'
  | _, .recvTimeout _, o, r, o' => o.Receives r o'
  | _, _, o, _, o' => o' = o

/-- When a command is used. -/
def Discipline : {β : Type} → BodyCmd β → LogView → Prop
  | _, .persistState state, o => state.status = .failed →
      o.file = none ∨ ∃ old, o.document = some old ∧ state.logs = old.logs
  | _, .openChannel, o => ∀ stream, o.idle stream
  | _, .captureStream stream, o => o.idle stream ∧ o.receiver
  | _, .tryRecv, o => ∀ stream, o.idle stream = false
  | _, .recvTimeout _, o => ∀ stream, o.idle stream = false
  | _, _, _ => True

/-- What a step promises: the log stays sound and only grows, and a terminal
    run keeps its log. -/
structure Guarantee (maxBytes : Nat) {β : Type} (c : BodyCmd β) (o o' : LogView) : Prop where
  sound : LogSound maxBytes o'
  grows : ∀ bytes, o.file = some bytes → ∃ more, o'.file = some (bytes ++ more)
  settled : ∀ state, o.document = some state → state.status.isTerminal → o'.file = o.file
  discipline : Discipline c o

abbrev interface (maxBytes : Nat) : Interface BodyCmd LogView :=
  .isolated step fun c o _ o' => Guarantee maxBytes c o o'

/-- The commands that neither change the view nor tell anything about it. -/
def quiet {β : Type} : BodyCmd β → Bool
  | .persistState _ | .removeSpec | .openChannel | .captureStream _ | .dropReceiver | .createLog
  | .appendLog _ | .dropLog _ | .tryRecv | .recvTimeout _ => false
  | _ => true

omit [Toolchain] in
theorem quiet_of_control {β : Type} {c : BodyCmd β} (hc : c.control) : quiet c := by
  cases c <;> first | rfl | cases hc

omit [Toolchain] in
theorem step_quiet {β : Type} {c : BodyCmd β} (hc : quiet c) {o o' : LogView} {b : β}
    (h : step c o b o') : o' = o := by
  cases c <;> first | exact h.1 | exact h | cases hc

variable {maxBytes : Nat} {σ α : Type} {s : σ} {o o' : LogView} {l : Locals}
  {E : AppError → σ → LogView → Prop}

/-- A step that leaves the file alone. -/
theorem Guarantee.of_file {β : Type} {c : BodyCmd β} (hsound : LogSound maxBytes o')
    (hfile : o'.file = o.file) (hc : Discipline c o) : Guarantee maxBytes c o o' where
  sound := hsound
  grows bytes h := ⟨[], by rw [hfile, h, List.append_nil]⟩
  settled _ _ _ := hfile
  discipline := hc

theorem Guarantee.of_quiet {β : Type} {c : BodyCmd β} (hc : quiet c) (h : LogSound maxBytes o) :
    Guarantee maxBytes c o o :=
  .of_file h rfl (by cases c <;> trivial)

/-- Soundness is about the file, the document and what was received. -/
theorem LogSound.congr (h : LogSound maxBytes o) (hdocument : o'.document = o.document)
    (hfile : o'.file = o.file) (hreceived : o'.received = o.received)
    (hclosed : o.closed → o'.closed) : LogSound maxBytes o' := by
  obtain ⟨records, tail, h⟩ := h
  refine ⟨records, tail, by rw [hfile]; exact h.file, h.unended, h.fits, h.numbered, ?_, ?_⟩
  · rw [hdocument]
    exact h.durable
  · intro state hstate hcomplete
    rw [hdocument] at hstate
    obtain ⟨hlines, hc, hwriter⟩ := h.complete state hstate hcomplete
    exact ⟨hfile.trans hlines, hclosed hc, hreceived ▸ hwriter⟩

/-! ## Rules -/

theorem wp_call {c : BodyCmd α} (hc : quiet c) {Q : α → σ → LogView → Prop}
    (hsound : LogSound maxBytes o) (h : ∀ a, Q a s o) :
    Proc.wp (interface maxBytes) (Proc.call c) Q E s o := by
  apply Proc.wp_call
  rintro _ rfl b o' hs
  obtain rfl := step_quiet hc hs
  exact ⟨.of_quiet hc hsound, h b⟩

theorem wp_attempt {c : BodyCmd (Except AppError α)} (hc : quiet c) {Q : α → σ → LogView → Prop}
    (hsound : LogSound maxBytes o) (h : ∀ a, Q a s o) (hE : ∀ e, E e s o) :
    Proc.wp (interface maxBytes) (Proc.attempt c) Q E s o := by
  apply Proc.wp_attempt
  rintro _ rfl r o' hs
  obtain rfl := step_quiet hc hs
  refine ⟨.of_quiet hc hsound, ?_⟩
  cases r with
  | ok a => exact h a
  | error e => exact hE e

theorem wp_now {Q : Nat → σ → LogView → Prop} (hsound : LogSound maxBytes o)
    (h : ∀ now ≤ u64Max, Q now s o) :
    Proc.wp (interface maxBytes) (Proc.call .now) Q E s o := by
  apply Proc.wp_call
  rintro _ rfl now o' ⟨rfl, hnow⟩
  exact ⟨.of_quiet rfl hsound, h now hnow⟩

theorem wp_persist {state : RunState} {Q : Unit → σ → LogView → Prop}
    (hsound : LogSound maxBytes o) (hnew : LogSound maxBytes { o with document := some state })
    (hfailed : Discipline (.persistState state) o) (hQ : Q () s { o with document := some state })
    (hE : ∀ e, E e s o) (hE' : ∀ e, E e s { o with document := some state }) :
    Proc.wp (interface maxBytes) (Proc.attempt (.persistState state)) Q E s o := by
  apply Proc.wp_attempt
  rintro _ rfl r o' hs
  obtain ⟨rfl, rfl⟩ | ⟨e, rfl, rfl | rfl⟩ := hs
  · exact ⟨.of_file hnew rfl hfailed, hQ⟩
  · exact ⟨.of_file hsound rfl hfailed, hE e⟩
  · exact ⟨.of_file hnew rfl hfailed, hE' e⟩

theorem keeps_quiet (hsound : LogSound maxBytes o) :
    (interface maxBytes).Keeps quiet fun o' => o' = o := by
  rintro β c hc _ _ b o'' rfl rfl hs
  obtain rfl := step_quiet hc hs
  exact ⟨.of_quiet hc hsound, rfl⟩

theorem wp_readStopRequest (path : PathBuf) (spec : SupervisorSpec) (hsound : LogSound maxBytes o)
    (hE : ∀ e, E e s o) :
    Proc.wp (interface maxBytes) (readStopRequest path spec)
      (fun _ s' o' => s' = s ∧ o' = o) E s o :=
  wp_readStopRequest_keeps
    (fun c hc _ _ _ _ => keeps_quiet hsound c (by cases c <;> first | rfl | cases hc))
    (fun e _ ho => ho ▸ hE e) path spec rfl

/-- The frame rule of process control over the log, for an assertion on the locals
    that is about the writer, the summary and the status. -/
theorem controlFrame {I : Locals → LogView → Prop} {E : AppError → Locals → LogView → Prop}
    (hsound : ∀ {l o}, I l o → LogSound maxBytes o) (hE : ∀ {e l o}, I l o → E e l o)
    (hlocals : ∀ {l l' o}, I l o → l'.logs = l.logs → l'.state.logs = l.state.logs →
      l'.state.status = l.state.status → I l' o)
    (hpersist : ∀ {l o}, I l o → Proc.wp (interface maxBytes) persistState (fun _ => I) E l o) :
    ControlFrame (interface maxBytes) I E where
  command c hc l o o' b o'' h hrely hs := by
    subst hrely
    have hquiet := quiet_of_control hc
    obtain rfl := step_quiet hquiet hs
    exact ⟨.of_quiet hquiet (hsound h), h⟩
  fail {runId l o o' e o''} h hrely hs := by
    subst hrely
    obtain rfl := step_quiet (c := .releaseRegistry runId) (b := .error e) (quiet_of_control rfl) hs
    exact hE h
  failIo c l o o' e o'' _ h hrely hs := by
    subst hrely
    obtain rfl := step_quiet (quiet_of_control (BodyCmd.control_of_steering c.steering)) hs
    exact hE h
  locals h hkeeps := hlocals h hkeeps.logs hkeeps.summary hkeeps.status
  touched {l o o' now o''} h hrely hs := by
    subst hrely
    obtain rfl : o'' = o := hs.1
    exact hlocals h rfl rfl rfl
  persist := hpersist

end LogView

end Procherd
