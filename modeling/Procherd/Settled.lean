-- SUMMARY: Settled runs: nothing changes them any more, and what `wait` makes of one on its first observation.
import Procherd.Readability
import Procherd.Observation
import Procherd.Reference

/-!
# Settled runs

A run is settled once its state is terminal and its supervisor has released the
lock, or was never launched. The state stays what it is, so that the first
observation of `wait` is as good as any later one.
-/

namespace Procherd

open Interaction

variable [Toolchain] {setup : Setup} {ok : system.Condition} {cfg cfg' : system.Config}

/-! ## Settled worlds -/

/-- The run ended with `state`, which every client can read. -/
structure Settled (state : RunState) (w : World) : Prop where
  stateJson : w.stateJson = .document state
  terminal : state.status.isTerminal
  phase : w.phase.finished
  dir : w.dir = true
  lockFile : w.lockFile = true
  accepted : checkState w.runId state = .ok state

omit [Toolchain] in
theorem Phase.ne_unlaunched {p : Phase} (h : p.finished) : p ≠ .unlaunched := by
  rintro rfl
  cases h

/-- What a step does to `state.json`. -/
theorem exec_document {i : Thread} {β : Type} {c : i.Cmd β} {a : Answer} {w w' : World} {b : β}
    (h : exec i c a w = some (b, w')) :
    w'.stateJson = w.stateJson ∨ (w'.stateJson = .incomplete ∧ w'.history = w.history) ∨
      ∃ state, w'.stateJson = .document state ∧ w'.history = state :: w.history := by
  have hset {state : RunState} {r : Except AppError Unit}
      (h : committed a w ((), w.setState state) = some (r, w')) :
      w'.stateJson = w.stateJson ∨ (w'.stateJson = .incomplete ∧ w'.history = w.history) ∨
        ∃ state, w'.stateJson = .document state ∧ w'.history = state :: w.history := by
    obtain ⟨-, -, -, rfl | rfl⟩ | ⟨-, -, rfl⟩ := committed_cases h
    · exact .inl rfl
    · exact .inr (.inr ⟨state, rfl, rfl⟩)
    · exact .inr (.inr ⟨state, rfl, rfl⟩)
  cases i with
  | start =>
    cases c with
    | inl c =>
      cases c with
      | writeNewState state => exact hset h
      | replaceState state => exact hset h
      | createState =>
        obtain ⟨-, -, -, rfl⟩ | ⟨-, h⟩ := fallible_cases h
        · exact .inl rfl
        · cases h
          exact .inr (.inl ⟨rfl, rfl⟩)
      | _ =>
        simp only [exec, execEither, execCreate, fallible] at h
        repeat' split at h
        all_goals cases h <;> exact .inl rfl
    | inr c =>
      rw [execClient_frame (show execClient .start c a w = some (b, w') from h)]
      exact .inl rfl
  | supervisor =>
    cases c with
    | inl c =>
      rw [execLock_frame (show execLock c a w = some (b, w') from h)]
      exact .inl rfl
    | inr c =>
      cases hc : c.writesState with
      | false => exact .inl (execBody_state hc h).1
      | true =>
        cases c with
        | persistState state => exact hset h
        | _ => cases hc
  | reader stream =>
    rw [execReader_frame (show execReader stream c a w = some (b, w') from h)]
    exact .inl rfl
  | client index =>
    rw [execClient_frame (show execClient (.client index) c a w = some (b, w') from h)]
    exact .inl rfl

namespace Settled

variable {state : RunState} {w w' : World}

theorem of_reach (h : Machine.Reach ok setup.initial cfg) (hstate : cfg.world.state? = some state)
    (hterminal : state.status.isTerminal) (hphase : cfg.world.phase.finished) :
    Settled state cfg.world := by
  have hreadable := reach_readable h
  have hhead : cfg.world.history.head? = some state :=
    ((reach_recorded h).document (Phase.ne_unlaunched hphase)).symm.trans hstate
  have hmem : state ∈ cfg.world.history := List.mem_of_head? hhead
  have hfounded := hreadable.founded (List.ne_nil_of_mem hmem)
  refine ⟨?_, hterminal, hphase, hfounded.dir, hfounded.lockFile, ?_⟩
  · cases hfile : cfg.world.stateJson with
    | document found =>
      rw [World.state?, hfile] at hstate
      rw [Option.some.inj hstate]
    | absent => rw [World.state?, hfile] at hstate; cases hstate
    | incomplete => rw [World.state?, hfile] at hstate; cases hstate
  · rw [hreadable.runId]
    exact checkState_of_documents hfounded.runId (hreadable.documents state hmem)

/-- No step changes a settled run. -/
theorem step {i : Thread} {β : Type} {c : i.Cmd β} {a : Answer} {b : β} (hw : Recorded w)
    (hw' : Recorded w') (hexec : exec i c a w = some (b, w')) (h : Settled state w) :
    Settled state w' := by
  have hkeeps := exec_keeps hexec
  have hphase := Phase.finished_mayBecome h.phase (exec_mayBecome hexec)
  have hhead : w.history.head? = some state := by
    rw [← hw.document (Phase.ne_unlaunched h.phase), World.state?, h.stateJson]
    rfl
  refine ⟨?_, h.terminal, hphase, hkeeps.dir h.dir, hkeeps.lockFile h.lockFile,
    hkeeps.runId ▸ h.accepted⟩
  obtain hsame | ⟨hincomplete, hhistory⟩ | ⟨next, -, hhistory⟩ := exec_document hexec
  · exact hsame.trans h.stateJson
  · have hnone := hw'.document (Phase.ne_unlaunched hphase)
    rw [World.state?, hincomplete, hhistory, hhead] at hnone
    cases hnone
  · -- Nothing follows a terminal state.
    obtain ⟨rest, hrest⟩ := List.head?_eq_some_iff.mp hhead
    have hlife := hw'.lifecycle
    rw [hhistory, hrest] at hlife
    have hlive := hlife.tail_live state List.mem_cons_self
    rw [h.terminal] at hlive
    cases hlive

end Settled

/-! ## The decision -/

/-- What a condition means for a settled run. -/
def WaitCondition.Holds (state : RunState) : WaitCondition → Prop
  | .running => state.process.processPid.isSome
  | .ready => state.readiness.status = .ready
  | .exit => state.status.isTerminal

/-- The run if the condition holds, and otherwise an operational or usage error. -/
def Decided (condition : WaitCondition) (state : RunState) : Except AppError WaitResult → Prop
  | .ok result =>
    result.condition = condition ∧ result.run.state = state ∧ condition.Holds state
  | .error e => ¬ condition.Holds state ∧ (e.code = 1 ∨ e.code = 2)

/-- Whether the condition can be told from a settled state. -/
def WaitCondition.Known (state : RunState) (condition : WaitCondition) : Prop :=
  condition = .running → state.process.processPid.isSome

omit [Toolchain] in
theorem check_known (runId : String) {condition : WaitCondition} {state : RunState} {active : Bool}
    (hterminal : state.status.isTerminal) (hactive : condition = .exit → active = false)
    (hknown : condition.Known state) :
    (condition.check runId (.new state active) = .ok true ∧ condition.Holds state) ∨
      ∃ e, condition.check runId (.new state active) = .error e ∧ ¬ condition.Holds state ∧
        (e.code = 1 ∨ e.code = 2) := by
  cases condition with
  | running => exact .inl ⟨congrArg Except.ok (hknown rfl), hknown rfl⟩
  | exit =>
    obtain rfl := hactive rfl
    refine .inl ⟨?_, hterminal⟩
    simp only [WaitCondition.check, RunView.new, hterminal, Bool.not_false, Bool.and_self]
  | ready =>
    cases hstatus : state.readiness.status with
    | ready => exact .inl ⟨by simp only [WaitCondition.check, RunView.new, hstatus], hstatus⟩
    | _ =>
      simp [WaitCondition.check, WaitCondition.Holds, RunView.new, hstatus, hterminal,
        AppError.usage, AppError.operational]

omit [Toolchain] in
/-- A run without a child never becomes running. -/
theorem check_unknown {condition : WaitCondition} {state : RunState} {active : Bool}
    {runId : String} (hknown : ¬ condition.Known state) :
    condition.check runId (.new state active) = .ok false := by
  obtain ⟨rfl, hnone⟩ := Classical.not_imp.mp hknown
  exact congrArg Except.ok (Bool.eq_false_iff.mpr hnone)

/-! ## The observation -/

theorem checkRunSchema_of_accepted {runId : String} {state : RunState}
    (h : checkState runId state = .ok state) : checkRunSchema state = .ok () := by
  simp only [checkState, validatePersistedRunState, bind, Except.bind, throw, throwThe,
    MonadExceptOf.throw] at h
  rw [checkRunSchema, if_neg]
  intro hschema
  rw [if_pos hschema] at h
  cases h

theorem runId_of_accepted {runId : String} {state : RunState}
    (h : checkState runId state = .ok state) : state.runId = runId := by
  simp only [checkState, bind, Except.bind, throw, throwThe, MonadExceptOf.throw] at h
  split at h
  · cases h
  split at h
  · cases h
  · rename_i hsame
    exact not_not.mp hsame

/-- The files that the client `n` uses can be read, and if it waits for the exit,
    no other client is testing the lock when it does. -/
def waitUndisturbed (n : Nat) (condition : WaitCondition) : system.Condition
  | .client m, _, .tryLock, a, w =>
    m = n → a.fault = none ∧ (condition = .exit → w.lock = none)
  | .client m, _, _, a, _ => m = n → a.fault = none
  | _, _, _, _, _ => True

namespace SettledWait

variable {n : Nat} {condition : WaitCondition} {state : RunState}

/-- A client of a settled run. Where its condition is known, it does not look at
    the clock. -/
def interface (n : Nat) (condition : WaitCondition) (state : RunState) :
    Interface ClientCmd World where
  step c w b w' := (Settled state w → Settled state w') ∧
    ∃ a, waitUndisturbed n condition (.client n) c a w ∧
      execClient (.client n) c a w = some (b, w')
  rely w w' := Settled state w → Settled state w'
  guar
    | .instant, _, _, _ => ¬ condition.Known state
    | _, _, _, _ => True
  rely_refl _ := id
  rely_trans h h' := h' ∘ h

variable {s : Unit} {w : World} {e : AppError}

theorem wp_readState (h : Settled state w) (hreadable : state.Readable)
    {E : AppError → Unit → World → Prop} :
    Proc.wp (interface n condition state) (Proc.attempt .readState : Client RunState)
      (fun found _ w => found = state ∧ Settled state w) E s w := by
  refine Proc.wp_attempt ?_
  rintro w₁ hrely r w₂ ⟨hsettled, a, hok, hexec⟩
  have h₁ := hrely h
  have hfault : a.fault = none := hok rfl
  simp only [execClient, fallible, hfault, h₁.dir, h₁.stateJson, if_true,
    StateFile.read_document hreadable, Except.bind, h₁.accepted] at hexec
  obtain ⟨rfl, -⟩ := Prod.mk.inj (Option.some.inj hexec)
  exact ⟨trivial, rfl, hsettled h₁⟩

/-- The document of the run is larger than `read_json` takes. -/
theorem wp_readState_oversized (h : Settled state w) (hoversized : ¬ state.Readable)
    {Q : RunState → Unit → World → Prop} :
    Proc.wp (interface n condition state) (Proc.attempt .readState : Client RunState)
      Q (fun e _ _ => e.code = 5) s w := by
  refine Proc.wp_attempt ?_
  rintro w₁ hrely r w₂ ⟨-, a, hok, hexec⟩
  have h₁ := hrely h
  have hfault : a.fault = none := hok rfl
  simp only [execClient, fallible, hfault, h₁.dir, h₁.stateJson, if_true,
    StateFile.read_oversized hoversized, Except.bind] at hexec
  obtain ⟨rfl, -⟩ := Prod.mk.inj (Option.some.inj hexec)
  exact ⟨trivial, rfl⟩

theorem wp_supervisorActive (h : Settled state w) {E : AppError → Unit → World → Prop} :
    Proc.wp (interface n condition state) supervisorActive
      (fun active _ w => (condition = .exit → active = false) ∧ Settled state w) E s w := by
  refine Proc.wp_seq (fun free _ w => (condition = .exit → free = true) ∧ Settled state w)
    (Proc.wp_attempt ?_) ?_
  · rintro w₁ hrely r w₂ ⟨hsettled, a, hok, hexec⟩
    have h₁ := hrely h
    obtain ⟨hfault, hfree⟩ := hok rfl
    simp only [execClient, fallible, hfault, h₁.dir, h₁.lockFile, Bool.not_true,
      Bool.false_eq_true, if_false] at hexec
    split at hexec
    · rename_i holder hlock
      cases hexec
      exact ⟨trivial, ⟨fun hexit => absurd ((hfree hexit).symm.trans hlock) (by simp), hsettled h₁⟩⟩
    · cases hexec
      exact ⟨trivial, ⟨fun _ => rfl, hsettled h₁⟩⟩
  rintro free s w ⟨hfree, h⟩
  cases free with
  | false => exact Proc.wp_pure ⟨fun hexit => absurd (hfree hexit) (by decide), h⟩
  | true =>
    refine Proc.wp_seq (fun _ _ => Settled state) (Proc.wp_attempt ?_) fun _ s w h =>
      Proc.wp_pure ⟨fun _ => rfl, h⟩
    rintro w₁ hrely r w₂ ⟨hsettled, a, hok, hexec⟩
    have hfault : a.fault = none := hok rfl
    simp only [execClient, fallible, hfault] at hexec
    obtain ⟨rfl, -⟩ := Prod.mk.inj (Option.some.inj hexec)
    exact ⟨trivial, hsettled (hrely h)⟩

theorem wp_loadView (h : Settled state w) (hreadable : state.Readable)
    {E : AppError → Unit → World → Prop} :
    Proc.wp (interface n condition state) loadView
      (fun view _ w => (∃ active, view = .new state active ∧
        (condition = .exit → active = false)) ∧ Settled state w) E s w := by
  have hschema : checkRunSchema state = .ok () := checkRunSchema_of_accepted h.accepted
  refine Proc.wp_seq (fun r _ w => r.1 = state ∧ (condition = .exit → r.2 = false) ∧
    Settled state w) ?_ ?_
  · refine Proc.wp_seq _ (wp_readState h hreadable) ?_
    rintro found s w ⟨rfl, h⟩
    rw [hschema]
    refine Proc.wp_seq _ (Proc.wp_pure (Q := fun _ _ => Settled found) h) fun _ s w h => ?_
    refine Proc.wp_seq _ (wp_supervisorActive h) fun active s w hactive => ?_
    rw [RunStatus.isLive_eq, hactive.2.terminal, Bool.not_true, Bool.and_false]
    exact Proc.wp_pure ⟨rfl, hactive⟩
  · rintro ⟨_, active⟩ s w ⟨rfl, hactive, h⟩
    exact Proc.wp_pure ⟨⟨active, rfl, hactive⟩, h⟩

theorem wp_loadView_oversized (h : Settled state w) (hoversized : ¬ state.Readable)
    {Q : RunView → Unit → World → Prop} :
    Proc.wp (interface n condition state) loadView Q (fun e _ _ => e.code = 5) s w := by
  refine Proc.wp_seq (fun _ _ _ => False) ?_ fun _ _ _ h => h.elim
  exact Proc.wp_seq _ (wp_readState_oversized (Q := fun _ _ _ => False) h hoversized)
    fun _ _ _ h => h.elim

/-- What a finished `wait` returns: the decision, a timeout where the condition is
    not known, or the refusal of the document. -/
structure Outcome (condition : WaitCondition) (state : RunState) (r : Except AppError WaitResult) :
    Prop where
  known : state.Readable → condition.Known state → Decided condition state r
  unknown : state.Readable → ¬ condition.Known state → ∃ e, r = .error e ∧ e.code = 3
  oversized : ¬ state.Readable → ∃ e, r = .error e ∧ e.code = 5

theorem wp_waitRound {runId : String} {timeoutMs deadline : Nat} (h : Settled state w) :
    Proc.wp (interface n condition state) (waitRound runId condition timeoutMs deadline)
      (fun r _ w => r.elim (Settled state w) fun result => Outcome condition state (.ok result))
      (fun e _ _ => Outcome condition state (.error e)) s w := by
  by_cases hreadable : state.Readable
  case neg =>
    have hrefused (e : AppError) (hcode : e.code = 5) : Outcome condition state (.error e) :=
      ⟨fun h => absurd h hreadable, fun h => absurd h hreadable, fun _ => ⟨e, rfl, hcode⟩⟩
    refine Proc.wp_seq (fun _ _ _ => False) ?_ fun _ _ _ h => h.elim
    exact Proc.wp_mono (wp_loadView_oversized (Q := fun _ _ _ => False) h hreadable)
      (fun _ _ _ => id) fun e _ _ => hrefused e
  refine Proc.wp_seq _ (wp_loadView h hreadable) ?_
  rintro _ s w ⟨⟨active, rfl, hactive⟩, h⟩
  refine Proc.wp_bind (Proc.wp_throwIf (fun horphaned => ?_) fun _ => ?_)
  · simp [RunView.new, RunStatus.isLive_eq, h.terminal] at horphaned
  by_cases hknown : condition.Known state
  · have hdecide {r : Except AppError WaitResult} (h : Decided condition state r) :
        Outcome condition state r :=
      ⟨fun _ _ => h, fun _ hnot => absurd hknown hnot, fun hnot => absurd hreadable hnot⟩
    obtain ⟨hcheck, hholds⟩ | ⟨e, hcheck, hnot, hcode⟩ :=
      check_known runId h.terminal hactive hknown
    · rw [hcheck]
      exact Proc.wp_seq (fun r _ w => r = true) (Proc.wp_pure rfl) fun r s w hr => by
        subst hr
        exact Proc.wp_pure (hdecide ⟨rfl, rfl, hholds⟩)
    · rw [hcheck]
      exact Proc.wp_bind (Proc.wp_throw (hdecide ⟨hnot, hcode⟩))
  · rw [check_unknown hknown]
    refine Proc.wp_seq (fun r _ w => r = false ∧ Settled state w) (Proc.wp_pure ⟨rfl, h⟩) ?_
    rintro _ s w ⟨rfl, h⟩
    refine Proc.wp_bind (Proc.wp_call ?_)
    rintro w₁ hrely now w₂ ⟨hsettled, -⟩
    refine ⟨hknown, ?_⟩
    split
    · exact Proc.wp_throw ⟨fun _ h => absurd h hknown, fun _ _ => ⟨_, rfl, rfl⟩,
        fun hnot => absurd hreadable hnot⟩
    · exact Proc.wp_pure (hsettled (hrely h))

/-- The loop of `wait`. -/
def loop (runId : String) (condition : WaitCondition) (timeoutMs deadline : Nat) : ClientProgram :=
  Client.program (Proc.repeatUntil (waitRound runId condition timeoutMs deadline)) .waited

theorem wp_loop {runId : String} {timeoutMs deadline : Nat} (h : Settled state w) :
    (loop runId condition timeoutMs deadline).wp (interface n condition state)
      (fun result _ => ∀ r, result = .waited r → Outcome condition state r) w := by
  have hround : Proc.wp (interface n condition state)
      (Proc.repeatUntil (waitRound runId condition timeoutMs deadline))
      (fun result _ _ => Outcome condition state (.ok result))
      (fun e _ _ => Outcome condition state (.error e)) () w :=
    Proc.wp_repeatUntil (fun _ => Settled state) (fun _ _ h => wp_waitRound h) h
  refine Prog.wp_bind (Prog.wp_mono ?_ hround)
  rintro ⟨_ | _, _⟩ w hr <;>
  · refine Prog.wp_ret ?_
    rintro _ ⟨⟩
    exact hr

omit [Toolchain] in
/-- `wait` reads the clock once, and goes on with its loop. -/
theorem wait_program {runId : String} {timeoutMs : Nat}
    (h : 0 < timeoutMs ∧ timeoutMs ≤ 24 * 60 * 60 * 1000) :
    (wait runId condition timeoutMs).program .waited =
      .exec .instant fun now => loop runId condition timeoutMs (now + timeoutMs) := by
  have hvalid : ¬ (timeoutMs = 0 ∨ 24 * 60 * 60 * 1000 < timeoutMs) := by omega
  unfold wait Proc.throwIf
  rw [if_neg hvalid]
  rfl

variable {runId : String}

/-- The other threads leave a settled run settled. -/
theorem describes :
    Machine.Describes (M := system) (fun i _ c a w => waitUndisturbed n condition i c a w ∧
      Recorded w ∧ ∀ b w', exec i c a w = some (b, w') → Recorded w') (.client n) id
      (interface n condition state) where
  self _ a _ b w' hok hexec :=
    ⟨Settled.step (i := .client n) hok.2.1 (hok.2.2 b w' hexec) hexec, a, hok.1, hexec⟩
  other _ _ _ _ _ _ _ hok hexec := Settled.step hok.2.1 (hok.2.2 _ _ hexec) hexec

end SettledWait

/-- What `wait` makes of a settled run: where the condition can be told from the
    state and the document is not too large to be read, it decides on its first
    observation. Otherwise it times out, or refuses the document. -/
theorem wait_decides (setup : Setup) {cfg cfg' : system.Config} {state : RunState}
    (h : Machine.Reach system.always setup.initial cfg) (hstate : cfg.world.state? = some state)
    (hterminal : state.status.isTerminal) (hphase : cfg.world.phase.finished) (n : Nat)
    (condition : WaitCondition) (timeoutMs : Nat)
    (htimeout : 0 < timeoutMs ∧ timeoutMs ≤ 24 * 60 * 60 * 1000)
    (hwait : cfg.thread (.client n) =
      (wait setup.options.runId condition timeoutMs).program .waited)
    (h' : Machine.Reach (waitUndisturbed n condition) cfg cfg') :
    (∀ r, cfg'.thread (.client n) = .ret (.waited r) →
      (Decided condition state r ↔ condition.Known state ∧ state.Readable)) ∧
    (condition.Known state → ∀ k, cfg'.thread (.client n) = .exec .instant k →
      cfg'.thread (.client n) = cfg.thread (.client n)) := by
  have hrecorded (c : system.Config) (hc : Machine.Reach (waitUndisturbed n condition) cfg c) :
      Recorded c.world := reach_recorded (h.trans (hc.mono fun _ _ _ _ _ _ => trivial))
  have hsettled := Settled.of_reach h hstate hterminal hphase
  rw [SettledWait.wait_program htimeout] at hwait
  obtain hsame | ⟨c₁, c₂, m, hr₁, hsame, hm, hs, hmeets, hr₂⟩ :=
    Machine.Reach.first_step (M := system) (.client n) h'
  · rw [hsame, hwait]
    exact ⟨fun r hr => (nomatch hr), fun _ _ _ => rfl⟩
  have hr₁₂ := hr₁.step hs hmeets
  have hsettled₂ : Settled state c₂.world :=
    Machine.Reach.invariant (M := system) (J := Settled state)
      (fun _ _ _ _ _ _ _ hok hexec => Settled.step hok.2.1 (hok.2.2 _ _ hexec) hexec)
      (hr₁₂.with_reached (J := Recorded) hrecorded) hsettled
  have hloop : ∃ deadline, c₂.thread (.client n) =
      SettledWait.loop setup.options.runId condition timeoutMs deadline := by
    obtain ⟨t, a⟩ := m
    obtain rfl : t = .client n := hm
    obtain ⟨-, ⟨_, c, k, now, hc, -, hk⟩ | ⟨_, _, _, _, _, hc, -⟩⟩ := Machine.step_cases hs
    · obtain ⟨rfl, hcommand, hnext⟩ := Prog.exec.inj (hc.symm.trans (hsame.trans hwait))
      cases hnext
      exact ⟨now + timeoutMs, hk⟩
    · exact nomatch hc.symm.trans (hsame.trans hwait)
  obtain ⟨deadline, hloop⟩ := hloop
  have hwp : (cfg'.thread (.client n)).wp (SettledWait.interface n condition state)
      (fun result _ => ∀ r, result = .waited r → SettledWait.Outcome condition state r)
      cfg'.world := by
    refine SettledWait.describes.wp (fun _ _ _ _ => id) ?_
      (hr₂.with_reached (J := Recorded) fun c hc => hrecorded c (hr₁₂.trans hc))
    rw [hloop]
    exact SettledWait.wp_loop hsettled₂
  constructor
  · intro r hr
    rw [hr] at hwp
    have hout := Prog.wp_ret_elim hwp r rfl
    have hundecided (hdecided : Decided condition state r) {code : Nat} (h₃ : 3 ≤ code) :
        ¬ ∃ e, r = .error e ∧ e.code = code := by
      rintro ⟨e, rfl, hcode⟩
      have hdecision : e.code = 1 ∨ e.code = 2 := hdecided.2
      omega
    refine ⟨fun hdecided => ?_, fun h => hout.known h.2 h.1⟩
    have hreadable : state.Readable := Classical.byContradiction fun hoversized =>
      hundecided hdecided (by decide) (hout.oversized hoversized)
    exact ⟨Classical.byContradiction fun hunknown =>
      hundecided hdecided (by decide) (hout.unknown hreadable hunknown), hreadable⟩
  · intro hknown k hk
    rw [hk] at hwp
    have hclock : (SettledWait.interface n condition state).step .instant cfg'.world 0 cfg'.world :=
      ⟨id, {}, fun _ => rfl, rfl⟩
    exact absurd hknown (Prog.wp_exec_elim hwp hclock).1

end Procherd

namespace Procherd.Reference

open Interaction

/-- A client that waits for `condition`. -/
def waiting (condition : WaitCondition) : ClientProgram :=
  (wait options.runId condition 1000).program .waited

/-- The state of a settled run. -/
def settled? (cfg : system.Config) : Option RunState :=
  if cfg.world.phase.finished then cfg.world.state?.filter (·.status.isTerminal) else none

theorem settled_of_settled? {cfg : system.Config} {state : RunState}
    (h : settled? cfg = some state) :
    cfg.world.state? = some state ∧ state.status.isTerminal ∧ cfg.world.phase.finished := by
  unfold settled? at h
  split at h
  · rename_i hphase
    obtain ⟨hstate, hterminal⟩ := Option.filter_eq_some_iff.mp h
    exact ⟨hstate, hterminal, hphase⟩
  · cases h

/-- What the client was told. -/
def told? (cfg : system.Config) : Option (Except AppError WaitResult) :=
  match (cfg.thread (.client 0)).result? with
  | some (.waited r) => some r
  | _ => none

theorem thread_of_told {cfg : system.Config} {r : Except AppError WaitResult}
    (h : told? cfg = some r) : cfg.thread (.client 0) = .ret (.waited r) := by
  unfold told? at h
  split at h
  · rename_i r' hr'
    cases h
    exact Prog.eq_ret_of_result? hr'
  · cases h

/-- The exit code of the command. -/
def exitCode : Except AppError WaitResult → Nat
  | .ok _ => 0
  | .error e => e.code

def testsLock : (t : Thread) → {β : Type} → t.Cmd β → Bool
  | .client _, _, .tryLock => true
  | _, _, _ => false

/-- A move that does not fail, and finds the lock free if it tests it. -/
def undisturbed (cfg : system.Config) (m : system.Move) : Bool :=
  m.2.fault.isNone &&
    match cfg.thread m.1 with
    | .exec c _ => !testsLock m.1 c || cfg.world.lock.isNone
    | _ => true

theorem meets_waitUndisturbed {condition : WaitCondition} (cfg : system.Config) (m : system.Move)
    (h : undisturbed cfg m) : Machine.Meets (M := system) (waitUndisturbed 0 condition) cfg m := by
  intro β c k hc
  simp only [undisturbed, hc, Bool.and_eq_true, Option.isNone_iff_eq_none] at h
  obtain ⟨hfault, hlock⟩ := h
  obtain ⟨i, a⟩ := m
  cases i with
  | client index =>
    cases c with
    | tryLock => exact fun _ => ⟨hfault, fun _ => Option.isNone_iff_eq_none.mp hlock⟩
    | _ => exact fun _ => hfault
  | _ => trivial

/-- A run, and then the observation of a client that waits for `condition`. -/
def observe (condition : WaitCondition) (run observation : List system.Move) :
    Option (system.Config × system.Config) :=
  (Machine.run (setup (waiting condition)).initial run).bind fun cfg =>
    (Machine.runChecked undisturbed cfg observation).map fun cfg' => (cfg, cfg')

theorem reach_of_observe {condition : WaitCondition} {run observation : List system.Move}
    {cfg cfg' : system.Config} (h : observe condition run observation = some (cfg, cfg'))
    (hrun : run.all fun m => m.1 ≠ .client 0) :
    Machine.Reach system.always (setup (waiting condition)).initial cfg ∧
      cfg.thread (.client 0) = waiting condition ∧
      Machine.Reach (waitUndisturbed 0 condition) cfg cfg' := by
  obtain ⟨found, hfound, h⟩ := Option.bind_eq_some_iff.mp h
  obtain ⟨found', hfound', heq⟩ := Option.map_eq_some_iff.mp h
  cases heq
  refine ⟨.of_run hfound, ?_, .of_runChecked meets_waitUndisturbed hfound'⟩
  exact Machine.thread_of_run (M := system) (fun m hm => of_decide_eq_true
    (List.all_eq_true.mp hrun m hm)) hfound

/-- A run that exited. -/
theorem wait_decides_exited : ∃ (state : RunState) (r : Except AppError WaitResult),
    state.status = .exited ∧ r.isOk ∧ Decided .exit state r := by
  have hrun : (observe .exit (startUp ++ finish) (steps (.client 0) 5 {})).map
      (fun c => ((settled? c.1).map (·.status), (told? c.2).map (·.isOk))) =
      some (some .exited, some true) := by decide +kernel
  obtain ⟨⟨cfg, cfg'⟩, hobserve, hresult⟩ := Option.map_eq_some_iff.mp hrun
  obtain ⟨hsettled, htold⟩ := Prod.mk.inj hresult
  obtain ⟨state, hstate, hstatus⟩ := Option.map_eq_some_iff.mp hsettled
  obtain ⟨r, hr, hok⟩ := Option.map_eq_some_iff.mp htold
  obtain ⟨hreach, hwait, hreach'⟩ := reach_of_observe hobserve rfl
  obtain ⟨hdocument, hterminal, hphase⟩ := settled_of_settled? hstate
  exact ⟨state, r, hstatus, hok, ((wait_decides (setup (waiting .exit)) hreach hdocument hterminal
    hphase 0 .exit 1000 (by decide) hwait hreach').1 r (thread_of_told hr)).mpr
      ⟨fun h => (nomatch h), readable state⟩⟩

/-- The supervisor could not be launched. -/
theorem wait_decides_unlaunched : ∃ (cfg cfg' : system.Config) (state : RunState)
    (r : Except AppError WaitResult),
      Machine.Reach system.always (setup (waiting .running)).initial cfg ∧
      cfg.world.state? = some state ∧ state.status.isTerminal ∧ cfg.world.phase.finished ∧
      cfg.thread (.client 0) = waiting .running ∧
      Machine.Reach (waitUndisturbed 0 .running) cfg cfg' ∧
      cfg'.thread (.client 0) = .ret (.waited r) ∧ ∃ e, r = .error e ∧ e.code = 3 := by
  have hrun : (observe .running
      (steps .start 7 {} ++ steps .start 1 { fault := some (.io .missing) } ++ steps .start 3 {})
      (steps (.client 0) 5 {} ++ steps (.client 0) 1 { time := 5000 })).map
      (fun c => ((settled? c.1).isSome, (told? c.2).map exitCode)) = some (true, some 3) := by
    decide +kernel
  obtain ⟨⟨cfg, cfg'⟩, hobserve, hresult⟩ := Option.map_eq_some_iff.mp hrun
  obtain ⟨hsettled, htold⟩ := Prod.mk.inj hresult
  obtain ⟨state, hstate⟩ := Option.isSome_iff_exists.mp hsettled
  obtain ⟨r, hr, herror⟩ := Option.map_eq_some_iff.mp htold
  obtain ⟨hreach, hwait, hreach'⟩ := reach_of_observe hobserve rfl
  obtain ⟨hdocument, hterminal, hphase⟩ := settled_of_settled? hstate
  refine ⟨cfg, cfg', state, r, hreach, hdocument, hterminal, hphase, hwait, hreach',
    thread_of_told hr, ?_⟩
  cases r with
  | ok result => cases herror
  | error e => exact ⟨e, rfl, herror⟩

end Procherd.Reference
