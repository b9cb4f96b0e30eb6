-- SUMMARY: The accounting of a whole run: the records and the digests of a completed run against what its readers have read.
import Procherd.Channel
import Procherd.Reference

/-!
# Log accounting

A reader ends only after it has sent everything that it has read, or when the
receiver is gone. The channel is closed only when both readers have ended. In a
run that completed, the supervisor has therefore received all that was read, and
the log and its summary account for every byte of it.
-/

namespace Procherd

open Interaction

variable [Toolchain]

/-! ## The readers and what they have sent -/

/-- Everything that a stream gave has been sent. -/
structure Drained (stream : LogStream) (w : World) : Prop where
  sent : streamBytes stream w.sent = w.taken stream
  end_of_file : w.pipe stream = [] ∨ w.readFailed stream

/-- What a reader's steps promise: it sends what it has just read, and ends when
    it has sent everything or nobody receives. -/
def ReaderPromise (stream : LogStream) : {β : Type} → ReaderCmd β → World → Prop
  | _, .read, w => w.taken stream = streamBytes stream w.sent
  | _, .send chunk, w => chunk.stream = stream ∧
      w.taken stream = streamBytes stream w.sent ++ chunk.bytes
  | _, .dropSender, w => w.receiver → Drained stream w

/-- What the other threads do to a reader: they may start it once, and take
    nothing from it while it reads. -/
structure ReaderRely (stream : LogStream) (w w' : World) : Prop where
  reading : w.reader stream = .reading → w'.reader stream = .reading ∧
    w'.taken stream = w.taken stream ∧ streamBytes stream w'.sent = streamBytes stream w.sent ∧
    w'.pipe stream = w.pipe stream ∧ w'.readFailed stream = w.readFailed stream ∧
    (w'.receiver → w.receiver)
  idle : w.reader stream = .idle → w'.reader stream = .idle ∨
    (w'.reader stream = .reading ∧ w'.taken stream = streamBytes stream w'.sent)

namespace ReaderRely

variable {stream : LogStream} {w w' w₁ w₂ w₃ : World}

omit [Toolchain] in
/-- A step that leaves the reader, its pipe and what it has sent alone. -/
theorem of_frame (hreader : w'.reader stream = w.reader stream)
    (htaken : w'.taken stream = w.taken stream)
    (hsent : streamBytes stream w'.sent = streamBytes stream w.sent)
    (hpipe : w'.pipe stream = w.pipe stream) (hfailed : w'.readFailed stream = w.readFailed stream)
    (hreceiver : w.reader stream = .reading → w'.receiver → w.receiver) :
    ReaderRely stream w w' where
  reading hreading := ⟨hreader.trans hreading, htaken, hsent, hpipe, hfailed, hreceiver hreading⟩
  idle hidle := .inl (hreader.trans hidle)

omit [Toolchain] in
theorem refl (stream : LogStream) (w : World) : ReaderRely stream w w :=
  of_frame rfl rfl rfl rfl rfl fun _ => id

omit [Toolchain] in
theorem trans (h : ReaderRely stream w₁ w₂) (h' : ReaderRely stream w₂ w₃) :
    ReaderRely stream w₁ w₃ where
  reading hreading := by
    obtain ⟨h₁, h₂, h₃, h₄, h₅, h₆⟩ := h.reading hreading
    obtain ⟨h₁', h₂', h₃', h₄', h₅', h₆'⟩ := h'.reading h₁
    exact ⟨h₁', h₂'.trans h₂, h₃'.trans h₃, h₄'.trans h₄, h₅'.trans h₅, h₆ ∘ h₆'⟩
  idle hidle := by
    obtain hidle | ⟨hreading, htaken⟩ := h.idle hidle
    · exact h'.idle hidle
    · obtain ⟨h₁', h₂', h₃', -⟩ := h'.reading hreading
      exact .inr ⟨h₁', by rw [h₂', h₃', htaken]⟩

end ReaderRely

namespace ReaderPass

def interface (stream : LogStream) : Interface ReaderCmd World where
  step c w b w' := w.reader stream = .reading ∧ ReaderStep stream c w b w'
  rely := ReaderRely stream
  guar c w _ _ := ReaderPromise stream c w
  rely_refl := .refl stream
  rely_trans := .trans

/-- A reader between two reads. -/
def Ready (stream : LogStream) (w : World) : Prop :=
  w.reader stream = .idle ∨ (w.reader stream = .reading ∧ w.taken stream = streamBytes stream w.sent)

/-- A reader that is about to end. -/
def Ending (stream : LogStream) (w : World) : Prop :=
  w.reader stream = .reading ∧ (w.receiver → Drained stream w)

variable {stream : LogStream} {w w' : World}

omit [Toolchain] in
/-- A read of a started reader. -/
theorem taken_of_ready (h : Ready stream w) (hrely : ReaderRely stream w w')
    (hreading : w'.reader stream = .reading) : w'.taken stream = streamBytes stream w'.sent := by
  obtain hidle | ⟨hread, htaken⟩ := h
  · obtain hidle | ⟨-, htaken⟩ := hrely.idle hidle
    · rw [hreading] at hidle
      cases hidle
    · exact htaken
  · obtain ⟨-, htaken', hsent', -⟩ := hrely.reading hread
    rw [htaken', hsent', htaken]

omit [Toolchain] in
theorem wp_end (h : Ending stream w) :
    (Prog.call .dropSender : Prog ReaderCmd Unit).wp (interface stream) (fun _ _ => True) w := by
  refine Prog.wp_exec fun w' hrely _ _ _ => ⟨fun hreceiver => ?_, Prog.wp_ret trivial⟩
  obtain ⟨-, htaken, hsent, hpipe, hfailed, hkeep⟩ := hrely.reading h.1
  have hdrained := h.2 (hkeep hreceiver)
  refine ⟨?_, ?_⟩
  · rw [hsent, htaken]
    exact hdrained.sent
  · rw [hpipe, hfailed]
    exact hdrained.end_of_file

omit [Toolchain] in
theorem wp_captureStream (h : Ready stream w) :
    (captureStream stream).wp (interface stream) (fun _ _ => True) w := by
  refine Prog.wp_loop (fun _ => Ready stream) (fun s w h => ?_) h
  refine Prog.wp_exec fun w' hrely r w'' ⟨hreading, hs⟩ => ?_
  have htaken := taken_of_ready h hrely hreading
  refine ⟨htaken, ?_⟩
  cases r with
  | eof =>
    obtain ⟨rfl, hempty⟩ := hs
    exact Prog.wp_ret (wp_end ⟨hreading, fun _ => ⟨htaken.symm, .inl hempty⟩⟩)
  | failed =>
    obtain rfl : w'' = { w' with readFailed := Function.update w'.readFailed stream true } := hs
    exact Prog.wp_ret (wp_end ⟨hreading, fun _ =>
      ⟨htaken.symm, .inr (Function.update_self stream true w'.readFailed)⟩⟩)
  | interrupted =>
    obtain rfl : w'' = w' := hs
    exact Prog.wp_ret (.inr ⟨hreading, htaken⟩)
  | bytes bytes =>
    obtain ⟨-, -, rest, -, rfl⟩ := hs
    refine Prog.wp_exec fun w₁ hrely alive w₂ ⟨hreading₁, hs⟩ => ?_
    obtain ⟨-, htaken₁, hsent₁, -⟩ := hrely.reading hreading
    have hpending : w₁.taken stream = streamBytes stream w₁.sent ++ bytes := by
      rw [htaken₁, hsent₁]
      simp only [Function.update_self, htaken]
    refine ⟨⟨rfl, hpending⟩, ?_⟩
    cases alive with
    | true =>
      obtain rfl : w₂ = _ := hs
      refine Prog.wp_ret (.inr ⟨hreading₁, ?_⟩)
      simp only [streamBytes_append, streamBytes_singleton, if_true]
      exact hpending
    | false =>
      obtain ⟨rfl, hreceiver⟩ := hs
      refine Prog.wp_ret (wp_end ⟨hreading₁, fun halive => ?_⟩)
      rw [hreceiver] at halive
      cases halive

end ReaderPass

/-! ## The readers in a run -/

variable {setup : Setup} {ok : system.Condition} {cfg : system.Config}

/-- The supervisor starts a reader once, and opens the channel before that. -/
def logDiscipline : system.Condition
  | .supervisor, _, .inr c, a, w => (execBody c a w).isSome → LogView.Discipline c w.logView
  | _, _, _, _, _ => True

/-- The steps of other threads, as a reader sees them. -/
theorem readerRely_of_other {stream : LogStream} {β : Type} {j : Thread} (hj : j ≠ .reader stream)
    {c : j.Cmd β} {a : Answer} {w w' : World} {b : β} (hplumbed : Plumbed setup j c a w)
    (hlog : logDiscipline j c a w) (hexec : exec j c a w = some (b, w')) :
    ReaderRely stream w w' := by
  cases j with
  | start =>
    cases c with
    | inl c =>
      rw [execCreate_frame (show execCreate c a w = some (b, w') from hexec)]
      exact .of_frame rfl rfl rfl rfl rfl fun _ => id
    | inr c =>
      rw [execClient_frame (show execClient .start c a w = some (b, w') from hexec)]
      exact .of_frame rfl rfl rfl rfl rfl fun _ => id
  | client index =>
    rw [execClient_frame (show execClient (.client index) c a w = some (b, w') from hexec)]
    exact .of_frame rfl rfl rfl rfl rfl fun _ => id
  | reader other =>
    have hne : stream ≠ other := fun heq => hj (heq ▸ rfl)
    obtain ⟨-, hs⟩ := execReader_step (show execReader other c a w = some (b, w') from hexec)
    cases c with
    | read =>
      cases b with
      | eof => exact hs.1 ▸ .refl stream w
      | interrupted => exact (show w' = w from hs) ▸ .refl stream w
      | failed =>
        rw [show w' = _ from hs]
        exact .of_frame rfl rfl rfl rfl (Function.update_of_ne hne _ _) fun _ => id
      | bytes bytes =>
        obtain ⟨-, -, rest, -, rfl⟩ := hs
        exact .of_frame rfl (Function.update_of_ne hne _ _) rfl (Function.update_of_ne hne _ _) rfl
          fun _ => id
    | send chunk =>
      cases b with
      | false => exact hs.1 ▸ .refl stream w
      | true =>
        rw [show w' = _ from hs]
        refine .of_frame rfl rfl ?_ rfl rfl fun _ => id
        have hstream : chunk.stream ≠ stream := by
          rw [hplumbed.chunk.1]
          exact hne.symm
        rw [streamBytes_append, streamBytes_singleton, if_neg hstream, List.append_nil]
    | dropSender =>
      rw [show w' = _ from hs]
      exact .of_frame (Function.update_of_ne hne _ _) rfl rfl rfl rfl fun _ => id
  | supervisor =>
    cases c with
    | inl c =>
      rw [execLock_frame (show execLock c a w = some (b, w') from hexec)]
      exact .of_frame rfl rfl rfl rfl rfl fun _ => id
    | inr c =>
      have hexec : execBody c a w = some (b, w') := hexec
      have hlog := hlog (by rw [hexec]; rfl)
      cases c with
      | captureStream other =>
        cases hexec
        by_cases heq : other = stream
        · subst heq
          have hidle : w.reader other = .idle := of_decide_eq_true hlog.1
          obtain ⟨htaken, hsent⟩ := hplumbed.plumbing.idle other hidle
          refine ⟨fun hreading => ?_, fun _ => .inr ⟨Function.update_self _ _ _, ?_⟩⟩
          · rw [hidle] at hreading
            cases hreading
          · exact htaken.trans hsent.symm
        · exact .of_frame (Function.update_of_ne (Ne.symm heq) _ _) rfl rfl rfl rfl fun _ => id
      | openChannel =>
        cases hexec
        refine .of_frame rfl rfl rfl rfl rfl fun hreading => ?_
        have hidle : w.reader stream = .idle := of_decide_eq_true (hlog stream)
        rw [hidle] at hreading
        cases hreading
      | _ =>
        simp only [execBody, fallible, committed, fallibleIo, receive] at hexec
        repeat' split at hexec
        all_goals cases hexec
        all_goals
          refine .of_frame rfl rfl rfl rfl rfl fun _ => ?_
          first | exact id | exact fun h => by cases h

/-- The promises of both readers, in every run. -/
def readerPromises : system.Condition
  | .reader stream, _, c, _, w => ReaderPromise stream c w
  | _, _, _, _, _ => True

theorem reach_readers (h : Machine.Reach ok setup.initial cfg)
    (hok : ∀ i {β : Type} (c : i.Cmd β) a w, ok i c a w →
      Plumbed setup i c a w ∧ logDiscipline i c a w) :
    Machine.Reach (fun i _ c a w => ok i c a w ∧ readerPromises i c a w) setup.initial cfg := by
  refine Machine.Reach.strengthen (M := system) (t := Thread.reader) (V := fun _ => id)
    (L := ReaderPass.interface) (Q := fun _ _ _ => True)
    (fun stream => ⟨fun c a w b w' _ h => execReader_step h, fun j hj c a w b w' h hexec =>
      readerRely_of_other hj (hok j c a w h).1 (hok j c a w h).2 hexec⟩)
    (fun _ _ _ _ _ _ => trivial) (fun stream => ReaderPass.wp_captureStream (.inl rfl))
    (fun stream β c a w b w' hok _ hguar => ⟨hok, hguar⟩) (fun j hj β c a w hok => ⟨hok, ?_⟩) h
  cases j with
  | reader stream => exact absurd rfl (hj stream)
  | _ => trivial

/-! ## The channel -/

/-- A reader that ended has sent everything, as long as somebody receives; once
    the channel is closed, both have. -/
structure ChannelSound (w : World) : Prop where
  finished : ∀ stream, w.reader stream = .finished → w.receiver → Drained stream w
  closed : w.closed → w.queue = [] ∧ ∀ stream, w.reader stream = .finished ∧ Drained stream w

namespace ChannelSound

variable {w w' : World} {β : Type} {a : Answer} {b : β}

omit [Toolchain] in
theorem initial (setup : Setup) : ChannelSound setup.world := ⟨nofun, nofun⟩

omit [Toolchain] in
theorem drained_congr {stream : LogStream} (h : Drained stream w)
    (hsent : streamBytes stream w'.sent = streamBytes stream w.sent)
    (htaken : w'.taken stream = w.taken stream) (hpipe : w'.pipe stream = w.pipe stream)
    (hfailed : w'.readFailed stream = w.readFailed stream) : Drained stream w' where
  sent := by rw [hsent, htaken]; exact h.sent
  end_of_file := by rw [hpipe, hfailed]; exact h.end_of_file

omit [Toolchain] in
/-- A step that leaves the readers and what they have sent alone. -/
theorem of_frame (h : ChannelSound w) (hreader : w'.reader = w.reader) (hpipe : w'.pipe = w.pipe)
    (htaken : w'.taken = w.taken) (hsent : w'.sent = w.sent)
    (hfailed : w'.readFailed = w.readFailed) (hreceiver : w'.receiver → w.receiver)
    (hclosed : w'.closed → w.closed ∧ w'.queue = w.queue) : ChannelSound w' where
  finished stream hfinished halive := by
    have hdrained := h.finished stream (hreader ▸ hfinished) (hreceiver halive)
    exact drained_congr hdrained (by rw [hsent]) (by rw [htaken]) (by rw [hpipe]) (by rw [hfailed])
  closed hc := by
    obtain ⟨hc, hqueue⟩ := hclosed hc
    obtain ⟨hempty, hall⟩ := h.closed hc
    refine ⟨hqueue.trans hempty, fun stream => ⟨by rw [hreader]; exact (hall stream).1, ?_⟩⟩
    exact drained_congr (hall stream).2 (by rw [hsent]) (by rw [htaken]) (by rw [hpipe])
      (by rw [hfailed])

theorem step_reader {stream : LogStream} {c : ReaderCmd β}
    (hchunk : chunkProtocol (.reader stream) c a w) (hpromise : ReaderPromise stream c w)
    (hexec : execReader stream c a w = some (b, w')) (h : ChannelSound w) : ChannelSound w' := by
  obtain ⟨hreading, hs⟩ := execReader_step hexec
  have hopen : w.closed = false := by
    by_contra hclosed
    have hfinished := ((h.closed (Bool.eq_true_of_not_eq_false hclosed)).2 stream).1
    rw [hreading] at hfinished
    cases hfinished
  have hne {other : LogStream} (hfinished : w.reader other = .finished) : other ≠ stream := by
    rintro rfl
    rw [hreading] at hfinished
    cases hfinished
  cases c with
  | read =>
    cases b with
    | eof => exact hs.1 ▸ h
    | interrupted => exact (show w' = w from hs) ▸ h
    | failed =>
      obtain rfl : w' = { w with readFailed := Function.update w.readFailed stream true } := hs
      refine ⟨fun other hfinished halive => ?_, fun hclosed => absurd (hopen.symm.trans hclosed) nofun⟩
      exact drained_congr (h.finished other hfinished halive) rfl rfl rfl
        (Function.update_of_ne (hne hfinished) _ _)
    | bytes bytes =>
      obtain ⟨-, -, rest, -, rfl⟩ := hs
      refine ⟨fun other hfinished halive => ?_, fun hclosed => absurd (hopen.symm.trans hclosed) nofun⟩
      exact drained_congr (h.finished other hfinished halive) rfl
        (Function.update_of_ne (hne hfinished) _ _) (Function.update_of_ne (hne hfinished) _ _) rfl
  | send chunk =>
    cases b with
    | false => exact hs.1 ▸ h
    | true =>
      obtain rfl : w' = { w with queue := w.queue ++ [chunk], sent := w.sent ++ [chunk] } := hs
      refine ⟨fun other hfinished halive => ?_, fun hclosed => absurd (hopen.symm.trans hclosed) nofun⟩
      have hstream : chunk.stream ≠ other := by
        rw [hchunk.1]
        exact (hne hfinished).symm
      refine drained_congr (h.finished other hfinished halive) ?_ rfl rfl rfl
      rw [streamBytes_append, streamBytes_singleton, if_neg hstream, List.append_nil]
  | dropSender =>
    obtain rfl : w' = { w with reader := Function.update w.reader stream .finished } := hs
    refine ⟨fun other hfinished halive => ?_, fun hclosed => absurd (hopen.symm.trans hclosed) nofun⟩
    by_cases heq : other = stream
    · subst heq
      exact drained_congr (hpromise halive) rfl rfl rfl rfl
    · have hother : w.reader other = .finished := by
        simpa only [Function.update_of_ne heq] using hfinished
      exact drained_congr (h.finished other hother halive) rfl rfl rfl rfl

/-- The supervisor finds the channel closed. -/
theorem step_receive {c : BodyCmd Received} {r : Received}
    (hc : c = .tryRecv ∨ ∃ timeout, c = .recvTimeout timeout)
    (hdiscipline : ∀ stream, w.logView.idle stream = false)
    (hexec : execBody c a w = some (r, w')) (h : ChannelSound w) : ChannelSound w' := by
  obtain ⟨hreceiver, hreceive⟩ := execBody_receive hc hexec
  obtain ⟨chunk, queue, -, hqueue, rfl⟩ | ⟨-, rfl⟩ | ⟨-, hempty, hdropped, rfl⟩ :=
    receive_cases hreceive
  · refine h.of_frame rfl rfl rfl rfl rfl id fun hclosed => absurd (h.closed hclosed).1 ?_
    rw [hqueue]
    exact List.cons_ne_nil _ _
  · exact h
  · have hfinished (stream : LogStream) : w.reader stream = .finished := by
      have hidle := hdiscipline stream
      simp only [World.sendersDropped, Bool.and_eq_true, bne_iff_ne, ne_eq] at hdropped
      simp only [World.logView, decide_eq_false_iff_not] at hidle
      cases hstatus : w.reader stream with
      | idle => exact absurd hstatus hidle
      | reading =>
        cases stream with
        | stdout => exact absurd hstatus hdropped.1.2
        | stderr => exact absurd hstatus hdropped.2
      | finished => rfl
    refine ⟨fun stream hstream halive => ?_, fun _ => ⟨hempty, fun stream => ⟨hfinished stream, ?_⟩⟩⟩
    all_goals
      exact drained_congr (h.finished stream (hfinished stream) hreceiver) rfl rfl rfl rfl

theorem step_body {c : BodyCmd β} (hdiscipline : LogView.Discipline c w.logView)
    (hexec : execBody c a w = some (b, w')) (h : ChannelSound w) : ChannelSound w' := by
  have hstarted {stream : LogStream} (hidle : w.logView.idle stream) :
      w.reader stream = .idle := of_decide_eq_true hidle
  have hopen {stream : LogStream} (hidle : w.logView.idle stream) : ¬ w.closed := by
    intro hclosed
    have hfinished := ((h.closed hclosed).2 stream).1
    rw [hstarted hidle] at hfinished
    cases hfinished
  cases c with
  | tryRecv => exact step_receive (.inl rfl) hdiscipline hexec h
  | recvTimeout timeout => exact step_receive (.inr ⟨_, rfl⟩) hdiscipline hexec h
  | openChannel =>
    cases hexec
    refine ⟨fun stream hfinished _ => ?_, fun hclosed => absurd hclosed (hopen (hdiscipline .stdout))⟩
    have hfinished : w.reader stream = .finished := hfinished
    rw [hstarted (hdiscipline stream)] at hfinished
    cases hfinished
  | captureStream stream =>
    cases hexec
    refine ⟨fun other hfinished halive => ?_, fun hclosed => absurd hclosed (hopen hdiscipline.1)⟩
    by_cases heq : other = stream
    · subst heq
      simp only [Function.update_self, reduceCtorEq] at hfinished
    · simp only [Function.update_of_ne heq] at hfinished
      exact drained_congr (h.finished other hfinished halive) rfl rfl rfl rfl
  | _ =>
    simp only [execBody, fallible, committed, fallibleIo] at hexec
    repeat' split at hexec
    all_goals cases hexec
    all_goals
      refine h.of_frame rfl rfl rfl rfl rfl ?_ fun hclosed => ⟨hclosed, rfl⟩
      first | exact id | exact fun h => by cases h

theorem step {i : Thread} {c : i.Cmd β} (hplumbed : Plumbed setup i c a w)
    (hlog : logDiscipline i c a w) (hpromise : readerPromises i c a w)
    (hexec : exec i c a w = some (b, w')) (h : ChannelSound w) : ChannelSound w' := by
  cases i with
  | start =>
    cases c with
    | inl c =>
      rw [execCreate_frame (show execCreate c a w = some (b, w') from hexec)]
      exact h.of_frame rfl rfl rfl rfl rfl id fun hclosed => ⟨hclosed, rfl⟩
    | inr c =>
      rw [execClient_frame (show execClient .start c a w = some (b, w') from hexec)]
      exact h.of_frame rfl rfl rfl rfl rfl id fun hclosed => ⟨hclosed, rfl⟩
  | client index =>
    rw [execClient_frame (show execClient (.client index) c a w = some (b, w') from hexec)]
    exact h.of_frame rfl rfl rfl rfl rfl id fun hclosed => ⟨hclosed, rfl⟩
  | reader stream => exact step_reader hplumbed.chunk hpromise hexec h
  | supervisor =>
    cases c with
    | inl c =>
      rw [execLock_frame (show execLock c a w = some (b, w') from hexec)]
      exact h.of_frame rfl rfl rfl rfl rfl id fun hclosed => ⟨hclosed, rfl⟩
    | inr c =>
      have hexec : execBody c a w = some (b, w') := hexec
      exact step_body (hlog (by rw [hexec]; rfl)) hexec h

end ChannelSound

/-! ## The log of a run -/

namespace LogView

variable {maxBytes : Nat} {o : LogView}

/-- Without a file, any document of a run that has not completed is sound. -/
theorem sound_of_no_file (hfile : o.file = none) (hdocument : ∀ state, o.document = some state →
    state.logs.nextCursor ≤ 1 ∧ state.status.complete = false) : LogSound maxBytes o := by
  refine ⟨[], [], by rw [hfile]; rfl, List.not_mem_nil, Nat.zero_le _, .nil, ?_, ?_⟩
  · exact fun state hstate => (hdocument state hstate).1
  · intro state hstate hcomplete
    rw [(hdocument state hstate).2] at hcomplete
    cases hcomplete

variable {w w' : World} {β : Type} {a : Answer} {b : β}

theorem sound_start {c : CreateCmd β} (hok : startProtocol setup.options .start (.inl c) a w)
    (hplumbing : Plumbing setup.output w) (hexec : execCreate c a w = some (b, w'))
    (h : LogSound maxBytes w.logView) : LogSound maxBytes w'.logView := by
  have hframe := execCreate_frame hexec
  have hkeep (hstate : w'.stateJson = w.stateJson) : LogSound maxBytes w'.logView := by
    refine LogSound.congr h ?_ ?_ ?_ ?_
    · simp only [World.logView, World.state?, hstate]
    all_goals rw [hframe]
    · rfl
    · rfl
    · exact id
  -- Before the supervisor is active there is no file.
  have hnew (hphase : w.phase ≠ .active) (hphase' : w.phase ≠ .released)
      (hdocument : ∀ state, w'.state? = some state →
        state.logs.nextCursor ≤ 1 ∧ state.status.complete = false) :
      LogSound maxBytes w'.logView := by
    refine sound_of_no_file ?_ hdocument
    have hfile := (hplumbing.untouched hphase hphase').file
    rw [hframe]
    exact hfile
  cases c with
  | createState =>
    have hphase : w.phase = .unlaunched := hok
    obtain ⟨_, -, -, rfl⟩ | ⟨-, hexec⟩ := fallible_cases hexec
    · exact h
    · cases hexec
      refine hnew (by rw [hphase]; decide) (by rw [hphase]; decide) fun state hstate => ?_
      cases (show none = some state from hstate)
  | writeNewState state =>
    obtain ⟨hphase, -, requests, createdAtMs, -, -, rfl⟩ := hok
    have hset := hnew (by rw [hphase]; decide) (by rw [hphase]; decide)
    obtain ⟨_, -, -, rfl | rfl⟩ | ⟨-, -, rfl⟩ := committed_cases hexec
    · exact h
    all_goals
      refine hset ?_
      rintro _ ⟨⟩
      exact ⟨Nat.le_refl _, rfl⟩
  | replaceState state =>
    obtain ⟨hphase, hcreated, old, error, updatedAtMs, finishedAtMs, hold, rfl⟩ := hok
    obtain ⟨requests, createdAtMs, -, -, hstate, -⟩ := hcreated.documents
    obtain rfl : old = _ := StateFile.document.inj (hold.symm.trans hstate)
    have hset := hnew (by rw [hphase]; decide) (by rw [hphase]; decide)
    obtain ⟨_, -, -, rfl | rfl⟩ | ⟨-, -, rfl⟩ := committed_cases hexec
    · exact h
    all_goals
      refine hset ?_
      rintro _ ⟨⟩
      exact ⟨Nat.le_refl _, rfl⟩
  | _ =>
    simp only [execCreate, fallible] at hexec
    repeat' split at hexec
    all_goals cases hexec
    all_goals exact hkeep rfl

theorem sound_step {i : Thread} {c : i.Cmd β} (hplumbed : Plumbed setup i c a w)
    (hguar : bodyGuarantee World.logView (interface maxBytes) i c a w)
    (hexec : exec i c a w = some (b, w')) (h : LogSound maxBytes w.logView) :
    LogSound maxBytes w'.logView := by
  cases i with
  | start =>
    cases c with
    | inl c => exact sound_start hplumbed.launch.1 hplumbed.plumbing hexec h
    | inr c =>
      rw [execClient_frame (show execClient .start c a w = some (b, w') from hexec)]
      exact h
  | client index =>
    rw [execClient_frame (show execClient (.client index) c a w = some (b, w') from hexec)]
    exact h
  | reader stream =>
    rw [execReader_frame (show execReader stream c a w = some (b, w') from hexec)]
    exact LogSound.congr h rfl rfl rfl id
  | supervisor =>
    cases c with
    | inl c =>
      rw [execLock_frame (show execLock c a w = some (b, w') from hexec)]
      exact h
    | inr c => exact (hguar b w' hexec).sound

end LogView

/-- What holds of the log and the channel in every world of a run. -/
structure LogRun (setup : Setup) (w : World) : Prop where
  plumbing : Plumbing setup.output w
  channel : ChannelSound w
  sound : LogSound setup.options.maxLogBytes w.logView

theorem logDiscipline_of_guarantee {maxBytes : Nat} {β : Type} {i : Thread} {c : i.Cmd β}
    {a : Answer} {w : World} (h : bodyGuarantee World.logView (LogView.interface maxBytes) i c a w) :
    logDiscipline i c a w := by
  cases i with
  | supervisor =>
    cases c with
    | inl c => trivial
    | inr c =>
      intro hsome
      obtain ⟨⟨b, w'⟩, hexec⟩ := Option.isSome_iff_exists.mp hsome
      exact (h b w' hexec).discipline
  | _ => trivial

theorem LogRun.initial (setup : Setup) : LogRun setup setup.initial.world where
  plumbing := plumbing_initial setup
  channel := .initial setup
  sound := LogView.sound_of_no_file rfl fun state hstate =>
    nomatch (show none = some state from hstate)

theorem LogRun.step {β : Type} {i : Thread} {c : i.Cmd β} {a : Answer} {w w' : World} {b : β}
    (hplumbed : Plumbed setup i c a w)
    (hguar : bodyGuarantee World.logView (LogView.interface setup.options.maxLogBytes) i c a w)
    (hpromise : readerPromises i c a w) (hexec : exec i c a w = some (b, w')) (h : LogRun setup w) :
    LogRun setup w' where
  plumbing := h.plumbing.step hplumbed.launch hplumbed.chunk hexec
  channel := h.channel.step hplumbed (logDiscipline_of_guarantee hguar) hpromise hexec
  sound := LogView.sound_step hplumbed hguar hexec h.sound

/-- What is known of every step: its protocols, what it guarantees of the log,
    and the log before it. -/
structure Logged (setup : Setup) (i : Thread) {β : Type} (c : i.Cmd β) (a : Answer) (w : World) :
    Prop where
  plumbed : Plumbed setup i c a w
  guar : bodyGuarantee World.logView (LogView.interface setup.options.maxLogBytes) i c a w
  promise : readerPromises i c a w

theorem reach_logged (h : Machine.Reach ok setup.initial cfg) :
    Machine.Reach (fun i _ c a w => ok i c a w ∧ Logged setup i c a w) setup.initial cfg := by
  refine (reach_readers (reach_logs h) fun i _ c a w hok =>
    ⟨hok.1.2, logDiscipline_of_guarantee hok.2⟩).mono ?_
  exact fun i _ c a w hok => ⟨hok.1.1.1, hok.1.1.2, hok.1.2, hok.2⟩

theorem reach_logRun (h : Machine.Reach ok setup.initial cfg) : LogRun setup cfg.world :=
  Machine.Reach.invariant (M := system) (J := LogRun setup)
    (fun _ _ _ _ _ _ _ hok hexec hw => hw.step hok.2.plumbed hok.2.guar hok.2.promise hexec)
    (reach_logged h) (.initial setup)

/-! ## The accounting of a completed run -/

/-- The number of bytes that both readers have read. -/
def World.total (w : World) : Nat := (w.taken .stdout).length + (w.taken .stderr).length

/-- The log and its summary account for all that the readers have read. -/
structure Accounted (setup : Setup) (w : World) (state : RunState) (records : List LogRecord) :
    Prop where
  file : w.logsNdjson = some (recordLines records)
  capturedBytes : state.logs.capturedBytes = min w.total setup.options.maxLogBytes
  droppedBytes : w.total < 2 ^ 64 → state.logs.capturedBytes + state.logs.droppedBytes = w.total
  nextCursor : state.logs.nextCursor = records.length + 1
  cursors : records.map (·.cursor) = List.range' 1 (state.logs.nextCursor - 1)
  positive : ∀ record ∈ records, 0 < record.byteCount
  sum : (records.map (·.byteCount)).sum = state.logs.capturedBytes
  decoded : ∀ record ∈ records, decodeRecord record = .ok record.bytes
  /-- The records hold the first bytes in the order in which they arrived. -/
  content : bytesOf (records.map LogRecord.chunk) =
    (bytesOf w.received).take state.logs.capturedBytes
  arrival : ∀ stream, streamBytes stream w.received = w.taken stream
  stream : ∀ stream, streamBytes stream (records.map LogRecord.chunk) <+: w.taken stream
  stdoutSha256 : state.logs.stdoutSha256 = some (encodeLower (Toolchain.sha256 (w.taken .stdout)))
  stderrSha256 : state.logs.stderrSha256 = some (encodeLower (Toolchain.sha256 (w.taken .stderr)))
  /-- What a reader has read is all that the process wrote to the stream. -/
  whole : ∀ stream, w.readFailed stream = false → w.taken stream = setup.output stream

/-- Everything that was read has been received. -/
theorem LogRun.received {w : World} (h : LogRun setup w) (hclosed : w.closed) (stream : LogStream) :
    streamBytes stream w.received = w.taken stream := by
  obtain ⟨hempty, hdrained⟩ := h.channel.closed hclosed
  have horder := h.plumbing.order
  rw [hempty, List.append_nil] at horder
  rw [horder]
  exact (hdrained stream).2.sent

theorem LogRun.whole {w : World} (h : LogRun setup w) (hclosed : w.closed) (stream : LogStream)
    (hread : w.readFailed stream = false) : w.taken stream = setup.output stream := by
  have hdrained := ((h.channel.closed hclosed).2 stream).2
  have hpipe := h.plumbing.pipe stream
  obtain hempty | hfailed := hdrained.end_of_file
  · rw [hempty, List.append_nil] at hpipe
    exact hpipe
  · rw [hread] at hfailed
    cases hfailed

/-- The log of every completed run accounts for every byte that was read. -/
theorem log_accounting (setup : Setup) {cfg : system.Config}
    (h : Machine.Reach system.always setup.initial cfg) {state : RunState}
    (hstate : cfg.world.state? = some state)
    (hstatus : state.status = .exited ∨ state.status = .stopped) :
    ∃ records, Accounted setup cfg.world state records := by
  have hrun := reach_logRun h
  obtain ⟨records, tail, hfile⟩ := hrun.sound
  have hcomplete : state.status.complete := by
    rcases hstatus with hstatus | hstatus <;> rw [hstatus] <;> rfl
  obtain ⟨hlines, hclosed, writer, hwriter, hlogs⟩ := hfile.complete state hstate hcomplete
  change Summarizes _ writer cfg.world.received records at hwriter
  have harrival := hrun.received hclosed
  have htotal : (bytesOf cfg.world.received).length = cfg.world.total := by
    rw [← length_streamBytes, harrival, harrival]
    rfl
  have hcaptured : state.logs.capturedBytes = min cfg.world.total setup.options.maxLogBytes := by
    rw [hlogs, ← htotal]
    exact hwriter.capturedBytes
  have hnext : state.logs.nextCursor = records.length + 1 := by
    rw [hlogs]
    exact hwriter.nextCursor
  refine ⟨records, hlines, hcaptured, fun hbound => ?_, hnext, ?_, hfile.numbered.byteCount_pos, ?_,
    fun record hrecord => ?_, ?_, harrival, fun stream => ?_, ?_, ?_, hrun.whole hclosed⟩
  · have hdropped : state.logs.droppedBytes =
        min (cfg.world.total - setup.options.maxLogBytes) u64Max := by
      rw [hlogs, ← htotal]
      exact hwriter.droppedBytes
    rw [hcaptured, hdropped, u64Max]
    omega
  · rw [hnext]
    exact hfile.numbered.cursors
  · rw [hfile.numbered.sum_byteCount, hwriter.captured.length_eq, htotal, hcaptured]
  · exact (hfile.numbered.written record hrecord).decodeRecord_eq
  · rw [hwriter.captured.content, hcaptured, ← htotal, Nat.min_comm, ← List.take_eq_take_min]
  · rw [← harrival stream]
    exact hwriter.captured.stream stream
  · rw [hlogs, ← harrival]
    exact congrArg (fun bytes => some (encodeLower (Toolchain.sha256 bytes))) (hwriter.digest .stdout)
  · rw [hlogs, ← harrival]
    exact congrArg (fun bytes => some (encodeLower (Toolchain.sha256 bytes))) (hwriter.digest .stderr)

end Procherd

namespace Procherd.Reference

open Interaction

/-- The reference run writes `hi`, which is within its limit. -/
theorem log_accounting_finished : ∃ (cfg : system.Config) (state : RunState)
    (records : List LogRecord), cfg.world.state? = some state ∧ state.status = .exited ∧
      state.logs.capturedBytes = 2 ∧ Accounted (setup idle) cfg.world state records := by
  have hrun : (Machine.run (setup idle).initial (startUp ++ finish)).map
      (fun cfg => cfg.world.state?.map fun state => (state.status, state.logs.capturedBytes)) =
      some (some (.exited, 2)) := by decide +kernel
  obtain ⟨cfg, hcfg, hstate⟩ := Option.map_eq_some_iff.mp hrun
  obtain ⟨state, hstate, hstatus⟩ := Option.map_eq_some_iff.mp hstate
  obtain ⟨hstatus, hcaptured⟩ := Prod.mk.inj hstatus
  obtain ⟨records, h⟩ := log_accounting (setup idle) (.of_run hcfg) hstate (.inl hstatus)
  exact ⟨cfg, state, records, hstate, hstatus, hcaptured, h⟩

end Procherd.Reference
