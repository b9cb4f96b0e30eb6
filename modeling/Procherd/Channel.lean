-- SUMMARY: The reader threads and the channel: every byte that is read arrives once and in order, and a closed channel has delivered all of them.
import Procherd.LogCapture

/-!
# The channel

Each reader thread reads its pipe in chunks and sends them into one bounded
channel, in whatever order the two interleave. The supervisor sees the channel
closed only when both readers have ended; then everything that was read has been
received.
-/

namespace Procherd

open Interaction

/-! ## The steps of a reader -/

/-- What a step of a reader does. -/
def ReaderStep (stream : LogStream) : {β : Type} → ReaderCmd β → World → β → World → Prop
  | _, .read, w, .eof, w' => w' = w ∧ w.pipe stream = []
  | _, .read, w, .bytes bytes, w' => bytes ≠ [] ∧ bytes.length ≤ READ_CHUNK_BYTES ∧
    ∃ rest, w.pipe stream = bytes ++ rest ∧ w' = { w with
      pipe := Function.update w.pipe stream rest
      taken := Function.update w.taken stream (w.taken stream ++ bytes) }
  | _, .read, w, .interrupted, w' => w' = w
  | _, .read, w, .failed, w' =>
    w' = { w with readFailed := Function.update w.readFailed stream true }
  | _, .send _, w, false, w' => w' = w ∧ w.receiver = false
  | _, .send chunk, w, true, w' =>
    w' = { w with queue := w.queue ++ [chunk], sent := w.sent ++ [chunk] }
  | _, .dropSender, w, (), w' =>
    w' = { w with reader := Function.update w.reader stream .finished }

theorem execReader_step {stream : LogStream} {β : Type} {c : ReaderCmd β} {a : Answer}
    {w w' : World} {b : β} (h : execReader stream c a w = some (b, w')) :
    w.reader stream = .reading ∧ ReaderStep stream c w b w' := by
  simp only [execReader] at h
  split at h
  · cases h
  rename_i hreading
  refine ⟨not_not.mp hreading, ?_⟩
  cases c with
  | read =>
    simp only at h
    split at h
    · split at h <;> cases h <;> rfl
    split at h
    · rename_i hempty
      cases h
      exact ⟨rfl, hempty⟩
    rename_i hne
    cases h
    have hpos := List.length_pos_iff.mpr hne
    have hn : 1 ≤ readCount a (w.pipe stream).length ∧
        readCount a (w.pipe stream).length ≤ READ_CHUNK_BYTES := by
      simp only [readCount, READ_CHUNK_BYTES]
      omega
    refine ⟨fun hnil => ?_, ?_, (w.pipe stream).drop _, (List.take_append_drop _ _).symm, rfl⟩
    · have hlength := congrArg List.length hnil
      rw [List.length_take, List.length_nil] at hlength
      omega
    · rw [List.length_take]
      omega
  | send chunk =>
    simp only at h
    split at h
    · rename_i hreceiver
      cases h
      exact ⟨rfl, Bool.eq_false_of_not_eq_true (by simpa using hreceiver)⟩
    · split at h <;> cases h
      rfl
  | dropSender =>
    cases h
    rfl

variable [Toolchain]

/-! ## Chunks -/

/-- A reader sends chunks of its own stream, of the size of its buffer. -/
def chunkProtocol : system.Condition
  | .reader stream, _, .send chunk, _, _ => chunk.stream = stream ∧ chunk.bytes ≠ [] ∧
      chunk.bytes.length ≤ READ_CHUNK_BYTES
  | _, _, _, _, _ => True

namespace ReaderChunks

/-- A reader that knows only what it has just read. -/
def interface (stream : LogStream) : Interface ReaderCmd Unit :=
  .isolated
    (fun {_} c _ b _ => ∃ w w', ReaderStep stream c w b w')
    (fun {_} c _ _ _ => ∀ a w, chunkProtocol (.reader stream) c a w)

theorem wp_captureStream (stream : LogStream) :
    (captureStream stream).wp (interface stream) (fun _ _ => True) () := by
  refine Prog.wp_loop (fun _ _ => True) (fun s o _ => ?_) trivial
  refine Prog.wp_exec fun _ _ r _ ⟨w, w', hs⟩ => ⟨fun _ _ => trivial, ?_⟩
  have hend : (Prog.call .dropSender : Prog ReaderCmd Unit).wp (interface stream)
      (fun _ _ => True) () :=
    Prog.wp_exec fun _ _ _ _ _ => ⟨fun _ _ => trivial, Prog.wp_ret trivial⟩
  cases r with
  | eof => exact Prog.wp_ret hend
  | failed => exact Prog.wp_ret hend
  | interrupted => exact Prog.wp_ret trivial
  | bytes bytes =>
    refine Prog.wp_exec fun _ _ alive _ _ => ⟨fun _ _ => ⟨rfl, hs.1, hs.2.1⟩, ?_⟩
    cases alive with
    | true => exact Prog.wp_ret trivial
    | false => exact Prog.wp_ret hend

end ReaderChunks

variable {setup : Setup} {ok : system.Condition} {cfg : system.Config}

theorem reach_chunks (h : Machine.Reach ok setup.initial cfg) :
    Machine.Reach (fun i _ c a w => ok i c a w ∧ chunkProtocol i c a w) setup.initial cfg := by
  refine Machine.Reach.strengthen (M := system) (t := Thread.reader) (V := fun _ _ => ())
    (L := ReaderChunks.interface) (Q := fun _ _ _ => True) (fun stream => ⟨?_, fun _ _ _ _ _ _ _ _ _ => rfl⟩)
    (fun _ _ _ _ _ _ => trivial) (fun stream => ReaderChunks.wp_captureStream stream)
    (fun stream β c a w b w' hok _ hguar => ⟨hok, hguar a w⟩) (fun j hj β c a w hok => ⟨hok, ?_⟩) h
  · exact fun c a w b w' _ h => ⟨w, w', (execReader_step h).2⟩
  · cases j with
    | reader stream => exact absurd rfl (hj stream)
    | _ => trivial

/-! ## The plumbing -/

/-- Nothing is captured before the supervisor is active. -/
structure Untouched (w : World) : Prop where
  file : w.logsNdjson = none
  sent : w.sent = []
  closed : w.closed = false
  receiver : w.receiver = false
  reader : ∀ stream, w.reader stream = .idle

/-- The bytes of the pipes, and the order of the channel. -/
structure Plumbing (output : LogStream → Bytes) (w : World) : Prop where
  order : w.received ++ w.queue = w.sent
  chunks : ∀ chunk ∈ w.sent, chunk.bytes ≠ [] ∧ chunk.bytes.length ≤ READ_CHUNK_BYTES
  pipe : ∀ stream, w.taken stream ++ w.pipe stream = output stream
  idle : ∀ stream, w.reader stream = .idle →
    w.taken stream = [] ∧ streamBytes stream w.sent = []
  untouched : w.phase ≠ .active → w.phase ≠ .released → Untouched w

def BodyCmd.receives {β : Type} : BodyCmd β → Bool
  | .tryRecv | .recvTimeout _ => true
  | _ => false

section Body

variable {β : Type} {c : BodyCmd β} {a : Answer} {w w' : World} {b : β}

theorem execBody_queue (hc : c.receives = false) (h : execBody c a w = some (b, w')) :
    w'.queue = w.queue ∧ w'.received = w.received ∧ w'.closed = w.closed := by
  cases c <;> cases hc
  all_goals
    simp only [execBody, fallible, committed, fallibleIo] at h
    repeat' split at h
    all_goals (cases h; exact ⟨rfl, rfl, rfl⟩)

omit [Toolchain] in
theorem idle_of_update {reader : LogStream → ReaderStatus} {stream other : LogStream}
    {status : ReaderStatus} (hstatus : status ≠ .idle)
    (h : Function.update reader stream status other = .idle) : reader other = .idle := by
  by_cases heq : other = stream
  · subst heq
    rw [Function.update_self] at h
    exact absurd h hstatus
  · rwa [Function.update_of_ne heq] at h

/-- A reader thread that has been started is never idle again. -/
theorem execBody_idle {stream : LogStream} (h : execBody c a w = some (b, w'))
    (hidle : w'.reader stream = .idle) : w.reader stream = .idle := by
  cases c with
  | captureStream other =>
    cases h
    exact idle_of_update (by decide) hidle
  | _ =>
    simp only [execBody, fallible, committed, fallibleIo, receive] at h
    repeat' split at h
    all_goals cases h <;> exact hidle

/-- A receiving call needs the receiver. -/
theorem execBody_receive {c : BodyCmd Received} {r : Received}
    (hc : c = .tryRecv ∨ ∃ timeout, c = .recvTimeout timeout)
    (h : execBody c a w = some (r, w')) : w.receiver ∧ receive w = (r, w') := by
  have hexec : execBody c a w = if w.receiver then some (receive w) else none := by
    rcases hc with rfl | ⟨timeout, rfl⟩ <;> rfl
  rw [hexec] at h
  split at h
  · rename_i hreceiver
    exact ⟨hreceiver, Option.some.inj h⟩
  · cases h

end Body

omit [Toolchain] in
/-- What a receiving call does to the world. -/
theorem receive_cases {w w' : World} {r : Received} (h : receive w = (r, w')) :
    (∃ chunk queue, r = .chunk chunk ∧ w.queue = chunk :: queue ∧
      w' = { w with queue, received := w.received ++ [chunk] }) ∨
    (r = .empty ∧ w' = w) ∨
    (r = .disconnected ∧ w.queue = [] ∧ w.sendersDropped ∧ w' = { w with closed := true }) := by
  unfold receive at h
  split at h
  · rename_i chunk queue hqueue
    cases h
    exact .inl ⟨chunk, queue, rfl, hqueue, rfl⟩
  · rename_i hqueue
    split at h
    · rename_i hdropped
      cases h
      exact .inr (.inr ⟨rfl, hqueue, hdropped, rfl⟩)
    · cases h
      exact .inr (.inl ⟨rfl, rfl⟩)

namespace Plumbing

variable {output : LogStream → Bytes} {β : Type} {a : Answer} {w w' : World} {b : β}

omit [Toolchain] in
/-- A step that leaves the pipes, the channel and the log alone. -/
theorem of_frame (h : Plumbing output w) (hqueue : w'.queue = w.queue) (hsent : w'.sent = w.sent)
    (hreceived : w'.received = w.received) (hpipe : w'.pipe = w.pipe) (htaken : w'.taken = w.taken)
    (hreader : ∀ stream, w'.reader stream = .idle → w.reader stream = .idle)
    (huntouched : w'.phase ≠ .active → w'.phase ≠ .released → Untouched w') :
    Plumbing output w' where
  order := by rw [hreceived, hqueue, hsent]; exact h.order
  chunks := by rw [hsent]; exact h.chunks
  pipe := by rw [htaken, hpipe]; exact h.pipe
  idle stream hidle := by rw [htaken, hsent]; exact h.idle stream (hreader stream hidle)
  untouched := huntouched

theorem step_reader {stream : LogStream} {c : ReaderCmd β}
    (hok : chunkProtocol (.reader stream) c a w) (hexec : execReader stream c a w = some (b, w'))
    (h : Plumbing output w) : Plumbing output w' := by
  have huntouched : w'.phase ≠ .active → w'.phase ≠ .released → Untouched w' := by
    intro hactive hreleased
    rw [execReader_phase hexec] at hactive hreleased
    have hidle := (h.untouched hactive hreleased).reader stream
    rw [(execReader_step hexec).1] at hidle
    cases hidle
  obtain ⟨hreading, hs⟩ := execReader_step hexec
  have hne (other : LogStream) (hidle : w.reader other = .idle) : other ≠ stream := by
    rintro rfl
    rw [hreading] at hidle
    cases hidle
  cases c with
  | read =>
    cases b with
    | eof => exact hs.1 ▸ h
    | interrupted => exact (show w' = w from hs) ▸ h
    | failed =>
      obtain rfl : w' = { w with readFailed := Function.update w.readFailed stream true } := hs
      exact h.of_frame rfl rfl rfl rfl rfl (fun _ => id) huntouched
    | bytes bytes =>
      obtain ⟨-, -, rest, hpipe, rfl⟩ := hs
      refine ⟨h.order, h.chunks, fun other => ?_, fun other hidle => ?_, huntouched⟩
      · by_cases heq : other = stream
        · subst heq
          simp only [Function.update_self, List.append_assoc]
          rw [← hpipe]
          exact h.pipe other
        · simp only [Function.update_of_ne heq]
          exact h.pipe other
      · simp only [Function.update_of_ne (hne other hidle)]
        exact h.idle other hidle
  | send chunk =>
    cases b with
    | false => exact hs.1 ▸ h
    | true =>
      obtain rfl : w' = { w with queue := w.queue ++ [chunk], sent := w.sent ++ [chunk] } := hs
      refine ⟨?_, ?_, h.pipe, fun other hidle => ?_, huntouched⟩
      · rw [← List.append_assoc, h.order]
      · intro other hother
        rcases List.mem_append.mp hother with hother | hother
        · exact h.chunks other hother
        · rw [List.mem_singleton.mp hother]
          exact hok.2
      · have hother : chunk.stream ≠ other := by
          rw [hok.1]
          exact (hne other hidle).symm
        rw [streamBytes_append, streamBytes_singleton, if_neg hother, List.append_nil]
        exact h.idle other hidle
  | dropSender =>
    obtain rfl : w' = { w with reader := Function.update w.reader stream .finished } := hs
    exact h.of_frame rfl rfl rfl rfl rfl (fun _ => idle_of_update (by decide)) huntouched

theorem step_body {c : BodyCmd β} (hphase : w.phase = .active)
    (hexec : execBody c a w = some (b, w')) (h : Plumbing output w) : Plumbing output w' := by
  have hframe := execBody_frame hexec
  have huntouched : w'.phase ≠ .active → w'.phase ≠ .released → Untouched w' := fun hne =>
    absurd ((execBody_phase hexec).trans hphase) hne
  have hreceive (r : Received) (hr : receive w = (r, w')) : Plumbing output w' := by
    refine ⟨?_, by rw [hframe]; exact h.chunks, by rw [hframe]; exact h.pipe, fun stream hidle => ?_,
      huntouched⟩
    rotate_left
    · rw [hframe]
      exact h.idle stream (execBody_idle hexec hidle)
    obtain ⟨chunk, queue, -, hqueue, rfl⟩ | ⟨-, rfl⟩ | ⟨-, -, -, rfl⟩ := receive_cases hr
    · rw [← h.order, hqueue, List.append_assoc]
      rfl
    · exact h.order
    · exact h.order
  cases hc : c.receives with
  | false =>
    obtain ⟨hqueue, hreceived, -⟩ := execBody_queue hc hexec
    have hidle (stream : LogStream) : w'.reader stream = .idle → w.reader stream = .idle :=
      execBody_idle hexec
    rw [hframe]
    exact h.of_frame hqueue rfl hreceived rfl rfl hidle (hframe ▸ huntouched)
  | true =>
    cases c with
    | tryRecv => exact hreceive b (execBody_receive (.inl rfl) hexec).2
    | recvTimeout timeout => exact hreceive b (execBody_receive (.inr ⟨_, rfl⟩) hexec).2
    | _ => cases hc

theorem step {options : StartOptions} {i : Thread} {c : i.Cmd β}
    (hok : launchProtocol options i c a w) (hchunk : chunkProtocol i c a w)
    (hexec : exec i c a w = some (b, w')) (h : Plumbing output w) : Plumbing output w' := by
  cases i with
  | start =>
    cases c with
    | inl c =>
      have hexec : execCreate c a w = some (b, w') := hexec
      have huntouched : w'.phase ≠ .active → w'.phase ≠ .released → Untouched w := by
        intro hactive hreleased
        obtain hphase | ⟨hphase, -⟩ := execCreate_phase hexec
        · rw [hphase] at hactive hreleased
          exact h.untouched hactive hreleased
        · exact h.untouched (by rw [hphase]; decide) (by rw [hphase]; decide)
      rw [execCreate_frame hexec]
      refine h.of_frame rfl rfl rfl rfl rfl (fun _ => id) fun hactive hreleased => ?_
      have hw := huntouched hactive hreleased
      exact ⟨hw.file, hw.sent, hw.closed, hw.receiver, hw.reader⟩
    | inr c =>
      rw [execClient_frame (show execClient .start c a w = some (b, w') from hexec)]
      refine h.of_frame rfl rfl rfl rfl rfl (fun _ => id) fun hactive hreleased => ?_
      have hw := h.untouched hactive hreleased
      exact ⟨hw.file, hw.sent, hw.closed, hw.receiver, hw.reader⟩
  | supervisor =>
    cases c with
    | inl c =>
      have hexec : execLock c a w = some (b, w') := hexec
      have hphase := execLock_phase hexec
      have hframe := execLock_frame hexec
      obtain rfl | ⟨-, hphase⟩ | ⟨-, hphase⟩ := hphase
      · exact h
      · rw [hframe]
        exact h.of_frame rfl rfl rfl rfl rfl (fun _ => id) fun hactive _ => absurd hphase hactive
      · rw [hframe]
        exact h.of_frame rfl rfl rfl rfl rfl (fun _ => id) fun _ hreleased => absurd hphase hreleased
    | inr c => exact step_body hok.2 hexec h
  | reader stream => exact step_reader hchunk hexec h
  | client index =>
    rw [execClient_frame (show execClient (.client index) c a w = some (b, w') from hexec)]
    refine h.of_frame rfl rfl rfl rfl rfl (fun _ => id) fun hactive hreleased => ?_
    have hw := h.untouched hactive hreleased
    exact ⟨hw.file, hw.sent, hw.closed, hw.receiver, hw.reader⟩

end Plumbing

/-! ## The plumbing of a run -/

theorem plumbing_initial (setup : Setup) : Plumbing setup.output setup.initial.world where
  order := rfl
  chunks := nofun
  pipe _ := rfl
  idle _ _ := ⟨rfl, rfl⟩
  untouched _ _ := ⟨rfl, rfl, rfl, rfl, fun _ => rfl⟩

/-- What is known of every step: the protocols of the threads, and the state of
    the lock and of the plumbing before it. -/
structure Plumbed (setup : Setup) (i : Thread) {β : Type} (c : i.Cmd β) (a : Answer) (w : World) :
    Prop where
  launch : launchProtocol setup.options i c a w
  launched : Launched setup.options w
  chunk : chunkProtocol i c a w
  plumbing : Plumbing setup.output w

theorem reach_plumbed (h : Machine.Reach ok setup.initial cfg) :
    Machine.Reach (fun i _ c a w => ok i c a w ∧ Plumbed setup i c a w) setup.initial cfg := by
  refine ((reach_chunks (reach_launched h)).with_invariant (J := Plumbing setup.output) ?_
    (plumbing_initial setup)).mono ?_
  · intro i β c a w b w' hok hexec hw
    exact hw.step hok.1.2.1 hok.2 hexec
  · intro i β c a w ⟨⟨⟨hok, hlaunch, hlaunched⟩, hchunk⟩, hplumbing⟩
    exact ⟨hok, hlaunch, hlaunched, hchunk, hplumbing⟩

/-! ## The log in a run -/

namespace LogView

theorem logView_quiet {β : Type} {c : BodyCmd β} (hc : quiet c) {a : Answer} {w w' : World} {b : β}
    (h : execBody c a w = some (b, w')) : w'.logView = w.logView := by
  cases c <;> first
    | exact absurd hc Bool.false_ne_true
    | (simp only [execBody, fallible, committed, fallibleIo] at h
       repeat' split at h
       all_goals (cases h; rfl))

theorem receives_exec {output : LogStream → Bytes} {c : BodyCmd Received} {a : Answer}
    {w w' : World} {r : Received} (hc : c = .tryRecv ∨ ∃ timeout, c = .recvTimeout timeout)
    (hw : Plumbing output w) (h : execBody c a w = some (r, w')) :
    w.logView.Receives r w'.logView := by
  obtain ⟨chunk, queue, rfl, hqueue, rfl⟩ | ⟨rfl, rfl⟩ | ⟨rfl, -, -, rfl⟩ :=
    receive_cases (execBody_receive hc h).2
  · have hsent : chunk ∈ w.sent := by
      rw [← hw.order, hqueue]
      exact List.mem_append_right _ List.mem_cons_self
    exact ⟨(hw.chunks chunk hsent).1, (hw.chunks chunk hsent).2, rfl⟩
  · rfl
  · rfl

theorem step_exec {output : LogStream → Bytes} {β : Type} {c : BodyCmd β} {a : Answer}
    {w w' : World} {b : β} (hw : Plumbing output w) (h : execBody c a w = some (b, w')) :
    step c w.logView b w'.logView := by
  cases c with
  | persistState state =>
    obtain ⟨fault, -, rfl, rfl | rfl⟩ | ⟨-, rfl, rfl⟩ := committed_cases h
    · exact .inr ⟨_, rfl, .inl rfl⟩
    · exact .inr ⟨_, rfl, .inr rfl⟩
    · exact .inl ⟨rfl, rfl⟩
  | readSpec =>
    refine ⟨logView_quiet rfl h, fun spec hread => ?_⟩
    obtain ⟨fault, -, hr, -⟩ | ⟨-, h⟩ := fallible_cases h
    · rw [hr] at hread
      cases hread
    · subst hread
      have hfile := congrArg Prod.fst (Option.some.inj h)
      simp only at hfile
      split at hfile
      · cases hfile
      · rename_i hspec
        rw [(readSized_ok hfile).1]
        exact hspec
  | readState =>
    refine ⟨logView_quiet rfl h, fun state hread => ?_⟩
    obtain ⟨fault, -, hr, -⟩ | ⟨-, h⟩ := fallible_cases h
    · rw [hr] at hread
      cases hread
    · have hfile : w.stateJson.read w.statePath = .ok state := by
        rw [← hread]
        exact congrArg Prod.fst (Option.some.inj h)
      exact StateFile.read_ok hfile
  | removeSpec =>
    obtain ⟨_, -, -, rfl⟩ | ⟨-, h⟩ := fallible_cases h
    · exact ⟨_, rfl⟩
    · cases h
      exact ⟨none, rfl⟩
  | now =>
    cases h
    exact ⟨rfl, Nat.min_le_right _ _⟩
  | openChannel => cases h; rfl
  | captureStream stream =>
    cases h
    simp only [step, World.logView]
    congr 1
    funext other
    by_cases heq : other = stream
    · subst heq
      simp only [Function.update_self, reduceCtorEq, decide_false]
    · simp only [Function.update_of_ne heq]
  | dropReceiver => cases h; rfl
  | createLog =>
    obtain ⟨_, -, rfl, rfl⟩ | ⟨-, h⟩ := fallible_cases h
    · exact .inr ⟨_, rfl, rfl⟩
    · cases h
      exact .inl ⟨rfl, rfl⟩
  | appendLog bytes =>
    simp only [execBody] at h
    split at h
    · cases h
      exact .inr ⟨_, _, rfl, rfl⟩
    · cases h
      exact .inl ⟨_, rfl, rfl⟩
  | dropLog buffer =>
    cases h
    exact ⟨a.count, rfl⟩
  | tryRecv => exact receives_exec (.inl rfl) hw h
  | recvTimeout timeout => exact receives_exec (.inr ⟨_, rfl⟩) hw h
  | _ => exact logView_quiet rfl h

/-- No other thread touches what the supervisor sees of its log. -/
theorem logView_of_other {β : Type} {j : Thread} (hj : j ≠ .supervisor) {c : j.Cmd β}
    {a : Answer} {w w' : World} {b : β} (hok : launchProtocol setup.options j c a w)
    (h : exec j c a w = some (b, w')) (hw : w.phase = .active) : w'.logView = w.logView := by
  have hsame := sameRun_of_active hj hok h hw
  cases j with
  | supervisor => exact absurd rfl hj
  | start =>
    cases c with
    | inl c =>
      have hframe := execCreate_frame (show execCreate c a w = some (b, w') from h)
      simp only [World.logView, World.state?, hsame.stateJson, hsame.specJson]
      rw [hframe]
    | inr c =>
      rw [execClient_frame (show execClient .start c a w = some (b, w') from h)]
      rfl
  | client index =>
    rw [execClient_frame (show execClient (.client index) c a w = some (b, w') from h)]
    rfl
  | reader stream =>
    obtain ⟨hreading, hs⟩ := execReader_step (show execReader stream c a w = some (b, w') from h)
    cases c with
    | read =>
      cases b with
      | eof => rw [hs.1]
      | interrupted => rw [show w' = w from hs]
      | failed => rw [show w' = _ from hs]; rfl
      | bytes bytes =>
        obtain ⟨-, -, rest, -, rfl⟩ := hs
        rfl
    | send chunk =>
      cases b with
      | false => rw [hs.1]
      | true => rw [show w' = _ from hs]; rfl
    | dropSender =>
      rw [show w' = _ from hs]
      simp only [World.logView]
      congr 1
      funext other
      by_cases heq : other = stream
      · subst heq
        simp only [Function.update_self, reduceCtorEq, decide_false, hreading]
      · simp only [Function.update_of_ne heq]

end LogView

theorem StartOptions.maxLogBytes_le {options : StartOptions} {requests : LeaseRequests}
    (h : options.check = .ok requests) : options.maxLogBytes ≤ MAX_LOG_BYTES := by
  simp only [StartOptions.check, bind, Except.bind, throw, throwThe, MonadExceptOf.throw] at h
  split at h
  · cases h
  · rename_i hbound
    rw [MAX_LOG_BYTES]
    omega

theorem LogView.fresh_of_created {output : LogStream → Bytes} {w : World}
    (h : Created setup.options w) (hw : Plumbing output w) (hphase : w.phase = .launched) :
    LogView.Fresh setup.options.maxLogBytes w.logView ∧
      setup.options.maxLogBytes ≤ MAX_LOG_BYTES := by
  obtain ⟨requests, createdAtMs, hcheck, -, hstate, -, hspec⟩ := h.documents
  have huntouched := hw.untouched (by rw [hphase]; decide) (by rw [hphase]; decide)
  refine ⟨⟨huntouched.file, ?_, ?_, ?_, ?_⟩, StartOptions.maxLogBytes_le hcheck⟩
  · have horder := hw.order
    rw [huntouched.sent] at horder
    exact (List.append_eq_nil_iff.mp horder).1
  · refine ⟨setup.options.initialState requests createdAtMs, ?_, Nat.le_refl _, rfl⟩
    simp only [World.logView, World.state?, hstate]
    rfl
  · intro stream
    simp only [World.logView, huntouched.reader stream, decide_true]
  · intro spec hread
    obtain rfl := Option.some.inj (hspec.symm.trans hread)
    rfl

/-- The supervisor keeps its log sound in every run. -/
theorem reach_logs (h : Machine.Reach ok setup.initial cfg) :
    Machine.Reach (fun i _ c a w => (ok i c a w ∧ Plumbed setup i c a w) ∧
      bodyGuarantee World.logView (LogView.interface setup.options.maxLogBytes) i c a w)
      setup.initial cfg := by
  refine reach_bodyGuarantee
    (fun o => LogView.Fresh setup.options.maxLogBytes o ∧ setup.options.maxLogBytes ≤ MAX_LOG_BYTES)
    (fun c a w b w' hok h => LogView.step_exec hok.2.plumbing h) ?_ ?_
    (fun path o h => LogView.wp_superviseAndMark h.2 path h.1) (reach_plumbed h)
  · intro β j hj c a w b w' hok hexec hactive
    exact (LogView.logView_of_other hj hok.2.launch hexec hactive).symm
  · intro a w w' hok hexec
    simp only [execLock] at hexec
    repeat' split at hexec
    all_goals cases hexec
    rename_i hphase _ _ _
    have hlaunched := not_not.mp hphase
    have hfresh := LogView.fresh_of_created (hok.2.launched.created hlaunched) hok.2.plumbing
      hlaunched
    exact hfresh

end Procherd
