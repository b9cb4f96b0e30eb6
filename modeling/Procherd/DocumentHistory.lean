-- SUMMARY: The document in a run: what every step writes, and how it follows the history of `state.json`.
import Procherd.DocumentWrites
import Procherd.Lifecycle
import Procherd.Channel

/-!
# The history of the document

The writers of `state.json` are `start`, which creates it and marks a failed
launch, and the supervisor, whose every write continues the document on disk.
-/

namespace Procherd

open Interaction

variable [Toolchain] {setup : Setup} {ok : system.Condition} {cfg : system.Config}

/-! ## The clock -/

/-- No reading of the clock is behind the document. -/
def forwardClock : system.Condition
  | .supervisor, _, .inr .now, a, w => w.documentView.Clocked a.now
  | .supervisor, _, .inr .clock, a, w => ∀ i, w.documentView.Clocked (min (a.clock i) u64Max)
  | .supervisor, _, .inr .pollReadiness, a, w => w.documentView.Clocked a.polled.readyAt
  | _, _, _, _, _ => True

/-- The chunk or the probe that completes a pending readiness does so before the
    deadline. -/
def timelyEvidence (maxBytes : Nat) : system.Condition
  | .supervisor, _, .inr .clock, a, w =>
    w.documentView.TimelyChunk maxBytes fun i => min (a.clock i) u64Max
  | .supervisor, _, .inr .pollReadiness, a, w => w.documentView.TimelyProbe maxBytes a.polled
  | _, _, _, _, _ => True

/-! ## The view in a run -/

def LogView.toDocumentView (o : LogView) : DocumentView :=
  { document := o.document, spec := o.spec, received := o.received }

namespace DocumentView

variable {maxBytes : Nat} {timely : Prop} {output : LogStream → Bytes} {β : Type} {a : Answer}
  {w w' : World} {b : β}

omit [Toolchain] in
theorem receives_of_logView {o o' : LogView} {r : Received} (h : o.Receives r o') :
    o.toDocumentView.Receives r o'.toDocumentView := by
  cases r with
  | chunk chunk => exact congrArg LogView.toDocumentView h.2.2
  | empty => exact congrArg LogView.toDocumentView h
  | disconnected =>
    obtain rfl : o' = { o with closed := true } := h
    rfl

theorem step_exec {c : BodyCmd β} (hw : Plumbing output w)
    (htime : timely → forwardClock .supervisor (.inr c) a w ∧
      timelyEvidence maxBytes .supervisor (.inr c) a w)
    (h : execBody c a w = some (b, w')) : step maxBytes timely c w.documentView b w'.documentView := by
  have hs := LogView.step_exec hw h
  have hkeep (ho : w'.logView = w.logView) : w'.documentView = w.documentView :=
    congrArg LogView.toDocumentView ho
  cases c with
  | persistState state =>
    obtain ⟨hr, ho⟩ | ⟨e, hr, ho | ho⟩ := hs
    · exact .inl ⟨hr, congrArg LogView.toDocumentView ho⟩
    · exact .inr ⟨e, hr, .inl (congrArg LogView.toDocumentView ho)⟩
    · exact .inr ⟨e, hr, .inr (congrArg LogView.toDocumentView ho)⟩
  | readSpec => exact ⟨hkeep hs.1, hs.2⟩
  | readState => exact ⟨hkeep hs.1, hs.2⟩
  | removeSpec =>
    obtain ⟨spec, ho⟩ := hs
    exact ⟨spec, congrArg LogView.toDocumentView ho⟩
  | now =>
    cases h
    exact ⟨rfl, fun ht => (htime ht).1⟩
  | clock =>
    cases h
    exact ⟨rfl, htime⟩
  | pollReadiness =>
    cases h
    exact ⟨rfl, htime⟩
  | tryRecv => exact receives_of_logView hs
  | recvTimeout timeout => exact receives_of_logView hs
  | createLog =>
    obtain ⟨-, ho⟩ | ⟨e, -, ho⟩ := hs
    all_goals exact congrArg LogView.toDocumentView ho
  | appendLog bytes =>
    obtain ⟨n, -, ho⟩ | ⟨e, kept, -, ho⟩ := hs
    all_goals exact congrArg LogView.toDocumentView ho
  | dropLog buffer =>
    obtain ⟨n, ho⟩ := hs
    exact congrArg LogView.toDocumentView ho
  | _ => exact congrArg LogView.toDocumentView hs

theorem fresh_of_created {w : World} (h : Created setup.options w) (hw : Plumbing output w)
    (hphase : w.phase = .launched)
    (hfit : timely → ∀ literal, .log literal ∈ setup.options.conditions →
      literalBytes literal ≠ [] ∧ (literalBytes literal).length ≤ MAX_LOG_LITERAL_BYTES) :
    Fresh setup.options.maxLogBytes timely w.documentView ∧
      setup.options.maxLogBytes ≤ MAX_LOG_BYTES := by
  obtain ⟨hfresh, hmax⟩ := LogView.fresh_of_created h hw hphase
  obtain ⟨requests, createdAtMs, -, -, hstate, -⟩ := h.documents
  refine ⟨⟨hfresh.received, ⟨setup.options.initialState requests createdAtMs, ?_, ?_, fun ht => ?_⟩,
    hfresh.spec⟩, hmax⟩
  · simp only [World.documentView, World.state?, hstate]
    rfl
  · exact unstarted_new _ _ _
  · intro check hcheck literal hlog
    obtain ⟨i, hi, rfl⟩ := List.mem_mapIdx.mp hcheck
    exact hfit ht literal (hlog ▸ List.getElem_mem hi)

end DocumentView

/-- Every write of the supervisor continues the document, and in time where the
    clock and the evidence allow it. -/
theorem reach_documents {timely : Prop}
    (htime : timely → ∀ {β : Type} (c : BodyCmd β) a w, ok .supervisor (.inr c) a w →
      forwardClock .supervisor (.inr c) a w ∧
        timelyEvidence setup.options.maxLogBytes .supervisor (.inr c) a w)
    (hfit : timely → ∀ literal, .log literal ∈ setup.options.conditions →
      literalBytes literal ≠ [] ∧ (literalBytes literal).length ≤ MAX_LOG_LITERAL_BYTES)
    (h : Machine.Reach ok setup.initial cfg) :
    Machine.Reach (fun i _ c a w => (ok i c a w ∧ Plumbed setup i c a w) ∧
      bodyGuarantee World.documentView
        (DocumentView.interface setup.options.maxLogBytes timely) i c a w) setup.initial cfg := by
  refine reach_bodyGuarantee
    (fun o => DocumentView.Fresh setup.options.maxLogBytes timely o ∧
      setup.options.maxLogBytes ≤ MAX_LOG_BYTES)
    (fun c a w b w' hok h => DocumentView.step_exec hok.2.plumbing
      (fun ht => htime ht c a w hok.1) h) ?_ ?_
    (fun path o h => DocumentView.wp_superviseAndMark (h.2.trans (by decide)) path h.1)
    (reach_plumbed h)
  · intro β j hj c a w b w' hok hexec hactive
    have hview := LogView.logView_of_other hj hok.2.launch hexec hactive
    exact congrArg LogView.toDocumentView hview.symm
  · intro a w w' hok hexec
    simp only [execLock] at hexec
    repeat' split at hexec
    all_goals cases hexec
    rename_i hphase _ _ _
    have hlaunched := not_not.mp hphase
    have hfresh := DocumentView.fresh_of_created (hok.2.launched.created hlaunched)
      hok.2.plumbing hlaunched hfit
    exact hfresh

/-! ## What a step writes -/

/-- The content of `state.json` that a command writes. -/
def Thread.writes : {β : Type} → (i : Thread) → i.Cmd β → Option RunState
  | _, .start, .inl (.writeNewState state) => some state
  | _, .start, .inl (.replaceState state) => some state
  | _, .supervisor, .inr (.persistState state) => some state
  | _, _, _ => none

/-- What a step does to the history. -/
inductive Wrote (setup : Setup) (timely : Prop) {β : Type} (i : Thread) (c : i.Cmd β)
    (w w' : World) : Prop
  | quiet (hhistory : w'.history = w.history)
  | created (requests : LeaseRequests) (createdAtMs : Nat) (hempty : w.history = [])
      (hcheck : setup.options.check = .ok requests)
      (hhistory : w'.history = [setup.options.initialState requests createdAtMs])
  | launchFailed (requests : LeaseRequests) (createdAtMs : Nat) (error : AppError)
      (updatedAtMs finishedAtMs : Nat)
      (hcreated : w.history = [setup.options.initialState requests createdAtMs])
      (hwrites : i.writes c = some (launchFailedState error updatedAtMs finishedAtMs
        (setup.options.initialState requests createdAtMs)))
      (hstate : w.state? = some (setup.options.initialState requests createdAtMs))
      (hhistory : w'.history = launchFailedState error updatedAtMs finishedAtMs
        (setup.options.initialState requests createdAtMs) :: w.history)
  | supervised (old state : RunState) (rest : List RunState) (hold : w.history = old :: rest)
      (hlive : old.status.isTerminal = false) (hlaunched : w.phase ≠ .unlaunched)
      (hstate : w.state? = some old) (hwrites : i.writes c = some state)
      (hnext : old.Succeeds timely (retainedBytes setup.options.maxLogBytes w.received) state)
      (hhistory : w'.history = state :: old :: rest)

/-- What is known of every step: its protocols, the history before it, and what
    it guarantees of the document. -/
structure Documented (setup : Setup) (timely : Prop) (i : Thread) {β : Type} (c : i.Cmd β)
    (a : Answer) (w : World) : Prop where
  launch : launchProtocol setup.options i c a w
  recorded : Recorded w
  records : ∀ b w', exec i c a w = some (b, w') → Recorded w'
  guar : bodyGuarantee World.documentView
    (DocumentView.interface setup.options.maxLogBytes timely) i c a w

theorem reach_documented {timely : Prop}
    (htime : timely → ∀ {β : Type} (c : BodyCmd β) a w, ok .supervisor (.inr c) a w →
      forwardClock .supervisor (.inr c) a w ∧
        timelyEvidence setup.options.maxLogBytes .supervisor (.inr c) a w)
    (hfit : timely → ∀ literal, .log literal ∈ setup.options.conditions →
      literalBytes literal ≠ [] ∧ (literalBytes literal).length ≤ MAX_LOG_LITERAL_BYTES)
    (h : Machine.Reach ok setup.initial cfg) :
    Machine.Reach (fun i _ c a w => ok i c a w ∧ Documented setup timely i c a w)
      setup.initial cfg := by
  refine ((reach_documents htime hfit h).with_reached (J := Recorded)
    fun cfg => reach_recorded).mono ?_
  rintro i β c a w ⟨⟨⟨hok, hplumbed⟩, hguar⟩, hrecorded, hrecords⟩
  exact ⟨hok, hplumbed.launch, hrecorded, hrecords, hguar⟩

namespace Documented

variable {timely : Prop} {β : Type} {a : Answer} {w w' : World} {b : β}

theorem wrote_start {c : CreateCmd β} (h : Documented setup timely .start (.inl c) a w)
    (hexec : execCreate c a w = some (b, w')) :
    Wrote setup timely .start (.inl c) w w' := by
  have hstart := h.launch.1
  cases c with
  | now => cases hexec; exact .quiet rfl
  | writeNewState state =>
    obtain ⟨-, hempty, requests, createdAtMs, hcheck, -, rfl⟩ := hstart
    have hset : Wrote setup timely .start
        (.inl (.writeNewState (setup.options.initialState requests createdAtMs))) w
        (w.setState (setup.options.initialState requests createdAtMs)) :=
      .created requests createdAtMs hempty hcheck (by simp only [World.setState, hempty])
    obtain ⟨_, -, -, rfl | rfl⟩ | ⟨-, -, rfl⟩ := committed_cases hexec
    · exact .quiet rfl
    · exact hset
    · exact hset
  | replaceState state =>
    obtain ⟨-, hcreated, old, error, updatedAtMs, finishedAtMs, hold, rfl⟩ := hstart
    obtain ⟨requests, createdAtMs, -, -, hstate, hhistory, -⟩ := hcreated.documents
    obtain rfl : old = _ := StateFile.document.inj (hold.symm.trans hstate)
    have hset : Wrote setup timely .start (.inl (.replaceState (launchFailedState error updatedAtMs
          finishedAtMs (setup.options.initialState requests createdAtMs)))) w
        (w.setState (launchFailedState error updatedAtMs finishedAtMs
          (setup.options.initialState requests createdAtMs))) :=
      .launchFailed requests createdAtMs error updatedAtMs finishedAtMs hhistory rfl
        (by rw [World.state?, hstate]; rfl) rfl
    obtain ⟨_, -, -, rfl | rfl⟩ | ⟨-, -, rfl⟩ := committed_cases hexec
    · exact .quiet rfl
    · exact hset
    · exact hset
  | launch =>
    simp only [execCreate] at hexec
    repeat' split at hexec
    all_goals cases hexec
    all_goals exact .quiet rfl
  | createDir =>
    obtain ⟨_, -, rfl⟩ | ⟨-, rfl⟩ := createDir_cases hexec
    all_goals exact .quiet rfl
  | _ =>
    obtain ⟨_, _, _, rfl⟩ | ⟨_, hexec⟩ := fallible_cases hexec
    · exact .quiet rfl
    · cases hexec
      exact .quiet rfl

theorem wrote_body {c : BodyCmd β} (h : Documented setup timely .supervisor (.inr c) a w)
    (hexec : execBody c a w = some (b, w')) :
    Wrote setup timely .supervisor (.inr c) w w' := by
  cases hc : c.writesState with
  | false => exact .quiet (execBody_state hc hexec).2
  | true =>
    cases c with
    | persistState state =>
      obtain ⟨old, hold, hnext⟩ := h.guar b w' hexec
      have hphase : w.phase ≠ .unlaunched := by
        rw [show w.phase = .active from h.launch.2]
        decide
      obtain ⟨rest, hrest⟩ :=
        List.head?_eq_some_iff.mp ((h.recorded.document hphase).symm.trans hold)
      have hset (hrecords : Recorded (w.setState state)) :
          Wrote setup timely .supervisor (.inr (.persistState state)) w (w.setState state) := by
        refine .supervised old state rest hrest ?_ hphase hold rfl hnext
          (by simp only [World.setState, hrest])
        refine hrecords.lifecycle.tail_live old ?_
        rw [hrest]
        exact List.mem_cons_self
      obtain ⟨_, -, -, rfl | rfl⟩ | ⟨-, -, rfl⟩ := committed_cases hexec
      · exact .quiet rfl
      · exact hset (h.records b _ hexec)
      · exact hset (h.records b _ hexec)
    | _ => cases hc

theorem wrote {i : Thread} {c : i.Cmd β} (h : Documented setup timely i c a w)
    (hexec : exec i c a w = some (b, w')) : Wrote setup timely i c w w' := by
  cases i with
  | start =>
    cases c with
    | inl c => exact h.wrote_start hexec
    | inr c =>
      rw [execClient_frame (show execClient .start c a w = some (b, w') from hexec)]
      exact .quiet rfl
  | supervisor =>
    cases c with
    | inl c =>
      rw [execLock_frame (show execLock c a w = some (b, w') from hexec)]
      exact .quiet rfl
    | inr c => exact h.wrote_body hexec
  | reader stream =>
    rw [execReader_frame (show execReader stream c a w = some (b, w') from hexec)]
    exact .quiet rfl
  | client index =>
    rw [execClient_frame (show execClient (.client index) c a w = some (b, w') from hexec)]
    exact .quiet rfl

end Documented

end Procherd
