-- SUMMARY: The observers of a lock: what a client may conclude from a lock that it finds held, where the other observers do not hold it.
import Procherd.Collection

/-!
# Interference

To test whether a supervisor is active, a client takes its lock for a moment. A
client that comes in this moment finds the lock held, although no supervisor is
active. Apart from such races, a held lock means an active supervisor, `start`
gives up only on a supervisor that has been active, and `gc` refuses only a run
whose supervisor it found active.
-/

namespace Procherd

open Interaction

variable [Toolchain]

/-! ## The holder of the lock -/

/-- The supervisor holds its lock exactly while it is active. -/
def LockHeld (w : World) : Prop := w.phase = .active ↔ w.lock = some .supervisor

theorem exec_lockHeld {β : Type} {t : Thread} {c : t.Cmd β} {a : Answer} {w w' : World} {b : β}
    (h : exec t c a w = some (b, w')) (hw : LockHeld w) : LockHeld w' := by
  have hkeep (hphase : w'.phase = w.phase)
      (hlock : w'.lock = some .supervisor ↔ w.lock = some .supervisor) : LockHeld w' := by
    unfold LockHeld
    rw [hphase, hlock]
    exact hw
  cases t with
  | start =>
    cases c with
    | inl c =>
      have hlock : w'.lock = w.lock := by rw [execCreate_frame (show execCreate c a w = _ from h)]
      obtain hphase | ⟨hphase, hphase'⟩ := execCreate_phase h
      · exact hkeep hphase (by rw [hlock])
      · have hnot : w.lock ≠ some .supervisor := fun hheld => by
          rw [hw.mpr hheld] at hphase
          cases hphase
        refine ⟨fun hactive => ?_, fun hheld => absurd (hlock.symm.trans hheld) hnot⟩
        rw [hactive] at hphase'
        rcases hphase' with hphase' | hphase' <;> cases hphase'
    | inr c => exact hkeep (execClient_phase h) (execClient_lock (by decide) h)
  | supervisor =>
    cases c with
    | inl c =>
      cases c with
      | acquire =>
        simp only [exec, execEither, execLock] at h
        repeat' split at h
        all_goals cases h
        · exact hw
        · exact ⟨fun _ => rfl, fun _ => rfl⟩
      | release =>
        simp only [exec, execEither, execLock] at h
        split at h <;> cases h
        · exact ⟨(fun h => by cases h), (fun h => by cases h)⟩
        · exact hw
    | inr c =>
      refine hkeep (execBody_phase h) ?_
      rw [execBody_frame (show execBody c a w = _ from h)]
  | reader stream =>
    refine hkeep (execReader_phase h) ?_
    rw [execReader_frame (show execReader stream c a w = _ from h)]
  | client n => exact hkeep (execClient_phase h) (execClient_lock (by simp) h)

theorem lockHeld_step {i : StoreThread} {β : Type} {c : i.Cmd β} {a : StoreAnswer}
    {w w' : StoreWorld} {b : β} (h : i.exec c a w = some (b, w'))
    (hw : ∀ id, LockHeld (w.run id)) (id : String) : LockHeld (w'.run id) := by
  have hstep := StoreThread.exec_runStep onRuns_always h id
  have hid := hw id
  generalize w'.run id = run at hstep
  cases hstep with
  | command ht hok hexec => exact exec_lockHeld hexec hid
  | unlink hr entry => cases entry <;> exact hid
  | _ => exact hid

/-! ## Tests of the lock -/

/-- Nobody but the supervisor holds the lock. -/
def ObserverFree (w : World) : Prop := w.lock = none ∨ w.lock = some .supervisor

instance (w : World) : Decidable (ObserverFree w) := inferInstanceAs (Decidable (_ ∨ _))

/-- No observer tests the lock while another one holds it. -/
def noLockRace : system.Condition
  | .start, _, .inr .tryLock, _, w => ObserverFree w
  | .client _, _, .tryLock, _, w => ObserverFree w
  | _, _, _, _, _ => True

omit [Toolchain] in
theorem active_of_held {w : World} (hw : LockHeld w) (hfree : ObserverFree w)
    (hheld : w.lock.isSome) : w.phase = .active := by
  obtain hnone | hsupervisor := hfree
  · rw [hnone] at hheld
    cases hheld
  · exact hw.mpr hsupervisor

/-! ## start -/

section Start

variable {setup : Setup} {cfg : system.Config}

omit [Toolchain] in
theorem stable_late : Stable .start fun w => w.phase.early = false :=
  fun _ _ hrely hw => Phase.late_mayBecome hw hrely.later.phase

theorem startConclusions_late : StartConclusions .start
    (fun {_} c a w => observed setup noLockRace .start (.inr c) a w)
    (fun p => p.early = false) (fun _ => True) (fun w => w.phase.early = false) where
  stable _ _ h hp := Phase.late_mayBecome hp h
  seen p state w h := by
    cases h with
    | @held a w₁ _ hsince htry htest =>
      have hactive : w₁.phase = .active :=
        active_of_held htry.2.2.1.lock htry.1 (by rw [← htest.result])
      exact Phase.late_mayBecome (by rw [hactive]; rfl) htest.phase
  returned _ _ _ _ _ := trivial
  givenUp p state w hsupervised h hlive hcase := by
    cases h with
    | terminal _ _ hterminal => rw [hlive] at hterminal; cases hterminal
    | @fresh a₁ a₂ w₁ w₂ _ hsince htry htest hfound hread hstate hlater =>
      obtain ⟨hcreated, -⟩ | hseen := hcase
      · -- While the phase is early, the state is `created`.
        refine Phase.late_mayBecome ?_ hlater.phase
        cases hearly : w₂.phase.early with
        | false => rfl
        | true => exact absurd (hread.2.2.1.early hearly state hstate) hcreated
      · exact Phase.late_mayBecome hseen (Phase.mayBecome_trans
          (Phase.mayBecome_trans hsince htest.phase) hlater.phase)

theorem supervisor_exit_late (h : Machine.Reach noLockRace setup.initial cfg) {e : AppError}
    (he : cfg.thread .start = .ret (.error e)) (hkind : e.kind = "supervisor_exit") :
    cfg.world.phase.early = false :=
  (start_result (P := fun _ => True) (fun _ _ _ _ => trivial) stable_late startConclusions_late
    h he).2 e rfl hkind

end Start

/-! ## Removed runs

Nobody writes the state of a run that is being removed: its supervisor is
finished, and `start` writes a state only before any terminal one. -/

/-- When the threads of a run write its state. -/
def writesLive : system.Condition
  | .start, _, .inl (.writeNewState _), _, w => w.history = []
  | .start, _, .inl (.replaceState _), _, w =>
    ∃ state, w.history = [state] ∧ state.status.isTerminal = false
  | .supervisor, _, .inr _, _, w => w.phase = .active
  | _, _, _, _, _ => True

section Writes

variable {setup : StoreSetup} {ok : storeSystem.Condition} {cfg : storeSystem.Config}

/-- A step of another thread of the store, seen from one run. -/
theorem runStep_of_ne {t : Thread} {id : String} {i : StoreThread} (hi : i ≠ .run id t)
    (ht : t.isClient = false) {ok : system.Condition} {β : Type} {c : i.Cmd β} {a : StoreAnswer}
    {w w' : StoreWorld} {b : β} (hok : onRuns ok i c a w) (h : i.exec c a w = some (b, w'))
    {R : World → World → Prop} (hrefl : ∀ w, R w w)
    (hcommand : ∀ {β : Type} (t' : Thread) (c : t'.Cmd β) a w b w', t' ≠ t → ok t' c a w →
      exec t' c a w = some (b, w') → R w w')
    (hregistry : ∀ w registry, R w { w with registry := some registry })
    (hunlink : ∀ w entry, R w (w.unlink entry)) (hdir : ∀ w, R w { w with dir := false }) :
    R (w.run id) (w'.run id) := by
  have hstep := StoreThread.exec_runStep hok h id
  generalize w'.run id = run at hstep
  cases hstep with
  | idle => exact hrefl _
  | @command t' _ _ _ _ ht' hok hexec =>
    refine hcommand t' _ _ _ _ _ ?_ hok hexec
    rintro rfl
    cases i with
    | run j t'' =>
      simp only [StoreThread.as] at ht'
      split at ht' <;> cases ht'
      rename_i hj
      exact hi (by rw [hj])
    | client n =>
      cases ht'
      cases ht
  | registry registry => exact hregistry _ registry
  | unlink hr entry => exact hunlink _ entry
  | removeDir hr => exact hdir _

theorem exec_run_own {id : String} {t : Thread} {β : Type} {c : t.Cmd β} {a : StoreAnswer}
    {w w' : StoreWorld} {b : β} (h : StoreThread.exec (.run id t) c a w = some (b, w')) :
    exec t c a.toAnswer (w.run id) = some (b, w'.run id) := by
  have hexec : (exec t c a.toAnswer (w.run id)).map (fun r => (r.1, w.setRun id r.2)) =
      some (b, w') := by
    cases t with
    | client n => cases h
    | _ => exact h
  obtain ⟨⟨b', run⟩, hrun, hw⟩ := Option.map_eq_some_iff.mp hexec
  obtain ⟨rfl, hworld⟩ := Prod.mk.inj hw
  rw [← hworld, StoreWorld.run_setRun]
  exact hrun

theorem describes_supervisor (id : String) :
    Machine.Describes ok (.run id .supervisor) (·.run id) SupervisorPhase.interface where
  self _ a _ _ _ _ h := ⟨a.toAnswer, exec_run_own (t := .supervisor) h⟩
  other i hi c a w b w' _ h := by
    refine runStep_of_ne hi rfl onRuns_always h (fun _ h => h) ?_ (fun _ _ h => h) ?_ fun _ h => h
    · exact fun t' c a w b w' ht' _ h => active_of_other ht' h
    · exact fun w entry hw => by cases entry <;> exact hw

/-- The supervisors of a store work only while they hold their locks. -/
theorem reach_supervisors (h : Machine.Reach ok setup.initial cfg) :
    Machine.Reach (fun i _ c a w => ok i c a w ∧ onRuns supervisorProtocol i c a w)
      setup.initial cfg := by
  refine Machine.Reach.strengthen (M := storeSystem)
    (t := fun id : String => StoreThread.run id .supervisor) (V := fun id w => w.run id)
    (L := fun _ => SupervisorPhase.interface) (Q := fun _ _ _ => True) describes_supervisor
    (fun _ _ _ _ _ _ => trivial)
    (fun _ => Prog.wp_bind (Prog.wp_mono ?_ (SupervisorPhase.wp_supervise _ _)))
    (fun id _ c a w _ _ hok _ hguar => ⟨hok, hguar a.toAnswer⟩) (fun i hi _ c a w hok => ⟨hok, ?_⟩) h
  · exact fun _ _ _ => Prog.wp_ret trivial
  · cases i with
    | client n => cases c <;> trivial
    | run id t =>
      cases t with
      | supervisor => exact absurd rfl (hi id)
      | _ => trivial

end Writes

/-! ### start -/

namespace StartWrites

/-- Only `start` moves a run that is not launched. -/
def rely (w w' : World) : Prop :=
  w.phase = .unlaunched ∨ w.phase = .launchFailed → w'.phase = w.phase ∧ w'.history = w.history

def interface : Interface (Either CreateCmd ClientCmd) World where
  step c w b w' := ∃ a, execEither execCreate (execClient .start) c a w = some (b, w')
  rely := rely
  guar c w _ _ := ∀ a, writesLive .start c a w
  rely_refl _ := fun _ => ⟨rfl, rfl⟩
  rely_trans h h' := fun hp =>
    have ⟨hphase, hhistory⟩ := h hp
    have ⟨hphase', hhistory'⟩ := h' (hphase ▸ hp)
    ⟨hphase'.trans hphase, hhistory'.trans hhistory⟩

theorem describes {ok : storeSystem.Condition} (id : String) :
    Machine.Describes (fun i _ c a w => ok i c a w ∧ onRuns supervisorProtocol i c a w)
      (.run id .start) (·.run id) interface where
  self _ a _ _ _ _ h := ⟨a.toAnswer, exec_run_own (t := .start) h⟩
  other i hi c a w b w' hok h := by
    refine runStep_of_ne hi rfl hok.2 h (fun _ _ => ⟨rfl, rfl⟩) ?_ (fun _ _ _ => ⟨rfl, rfl⟩) ?_
      fun _ _ => ⟨rfl, rfl⟩
    · intro β t c a w b w' ht hok h hp
      cases t with
      | start => exact absurd rfl ht
      | supervisor =>
        cases c with
        | inl c =>
          obtain rfl | ⟨hphase, -⟩ | ⟨hphase, -⟩ := execLock_phase h
          · exact ⟨rfl, rfl⟩
          · rw [hphase] at hp; rcases hp with hp | hp <;> cases hp
          · rw [hphase] at hp; rcases hp with hp | hp <;> cases hp
        | inr c =>
          rw [show w.phase = .active from hok] at hp
          rcases hp with hp | hp <;> cases hp
      | reader stream =>
        rw [execReader_frame (show execReader stream c a w = _ from h)]
        exact ⟨rfl, rfl⟩
      | client n =>
        rw [execClient_frame (show execClient _ c a w = _ from h)]
        exact ⟨rfl, rfl⟩
    · exact fun w entry _ => by cases entry <;> exact ⟨rfl, rfl⟩

variable {options : StartOptions} {s : Unit} {w : World}

/-- The run is in a phase in which only `start` moves it, with this history. -/
def Owns (phase : Phase) (history : List RunState) (w : World) : Prop :=
  w.phase = phase ∧ w.history = history

omit [Toolchain] in
theorem Owns.rely {phase : Phase} {history : List RunState} {w w' : World}
    (h : Owns phase history w) (hphase : phase = .unlaunched ∨ phase = .launchFailed)
    (hrely : StartWrites.rely w w') : Owns phase history w' := by
  have ⟨hp, hh⟩ := hrely (h.1.symm ▸ hphase)
  exact ⟨hp.trans h.1, hh.trans h.2⟩

/-- A command of the creation, with the history before and after it. -/
theorem wp_create {history history' : List RunState} {c : CreateCmd (Except AppError Unit)}
    (hguar : ∀ w a, w.history = history → writesLive .start (.inl c) a w)
    (hexec : ∀ w a w', Owns .unlaunched history w → execCreate c a w = some (.ok (), w') →
      Owns .unlaunched history' w')
    (hw : Owns .unlaunched history w) :
    Proc.wp interface (Proc.attempt (.inl c)) (fun _ _ => Owns .unlaunched history')
      (fun _ _ _ => True) s w := by
  apply Proc.wp_attempt
  rintro w₁ hrely r w₂ ⟨a, h⟩
  have hw₁ := hw.rely (.inl rfl) hrely
  refine ⟨fun a => hguar w₁ a hw₁.2, ?_⟩
  cases r with
  | ok u => exact hexec w₁ a w₂ hw₁ h
  | error e => trivial

theorem wp_now {phase : Phase} {history : List RunState}
    (hphase : phase = .unlaunched ∨ phase = .launchFailed) (hw : Owns phase history w) :
    Proc.wp interface (Proc.call (.inl .now) : Starter Nat) (fun _ _ => Owns phase history)
      (fun _ _ _ => True) s w := by
  apply Proc.wp_call
  rintro w₁ hrely now w₂ ⟨a, h⟩
  cases h
  exact ⟨fun _ => trivial, hw.rely hphase hrely⟩

/-- A command of the creation that leaves the history alone. -/
theorem wp_create_other {history : List RunState} {c : CreateCmd (Except AppError Unit)}
    (hguar : ∀ w a, writesLive .start (.inl c) a w)
    (hexec : ∀ w a w', execCreate c a w = some (.ok (), w') →
      w'.phase = w.phase ∧ w'.history = w.history) (hw : Owns .unlaunched history w) :
    Proc.wp interface (Proc.attempt (.inl c)) (fun _ _ => Owns .unlaunched history)
      (fun _ _ _ => True) s w :=
  wp_create (fun w a _ => hguar w a) (fun w a w' hw h =>
    have ⟨hphase, hhistory⟩ := hexec w a w' h
    ⟨hphase.trans hw.1, hhistory.trans hw.2⟩) hw

theorem wp_createRun {state : RunState} {spec : SupervisorSpec} {ownerToken : String}
    (hw : Owns .unlaunched [] w) :
    Proc.wp interface (createRun state spec ownerToken) (fun _ _ => Owns .unlaunched [state])
      (fun _ _ _ => True) s w := by
  have hfallible {w w' success : World} {a : Answer}
      (h : fallible a w (some (.ok (), success)) = some (.ok (), w'))
      (hsuccess : success.phase = w.phase ∧ success.history = w.history) :
      w'.phase = w.phase ∧ w'.history = w.history := by
    obtain ⟨_, -, hr, -⟩ | ⟨-, h⟩ := fallible_cases h
    · cases hr
    · cases h; exact hsuccess
  refine Proc.wp_bind (Proc.wp_ofExcept (fun _ _ => ?_) fun _ _ => trivial)
  refine Proc.wp_seq _ (wp_create_other (fun _ _ => trivial) ?_ hw) fun _ s w hw => ?_
  · intro w a w' h
    obtain ⟨_, hr, -⟩ | ⟨-, rfl⟩ := createDir_cases h
    · cases hr
    · exact ⟨rfl, rfl⟩
  refine Proc.wp_seq _ (wp_create_other (fun _ _ => trivial)
    (fun w a w' h => hfallible h ⟨rfl, rfl⟩) hw) fun _ s w hw => ?_
  refine Proc.wp_seq _ (wp_create_other (fun _ _ => trivial)
    (fun w a w' h => hfallible h ⟨rfl, rfl⟩) hw) fun _ s w hw => ?_
  refine Proc.wp_seq (fun _ _ => Owns .unlaunched [state])
    (wp_create (fun _ _ h => h) (fun w a w' hw h => ?_) hw) fun _ s w hw => ?_
  · obtain ⟨_, -, hr, -⟩ | ⟨-, -, rfl⟩ := committed_cases h
    · cases hr
    · exact ⟨hw.1, by simp only [World.setState, hw.2]⟩
  refine Proc.wp_seq _ (wp_create_other (fun _ _ => trivial)
    (fun w a w' h => hfallible h ⟨rfl, rfl⟩) hw) fun _ s w hw => ?_
  exact wp_create_other (fun _ _ => trivial) (fun w a w' h => hfallible h ⟨rfl, rfl⟩) hw

theorem wp_failLaunch {state : RunState} {error : AppError} {runId : String}
    (hlive : state.status.isTerminal = false) (hw : Owns .launchFailed [state] w) :
    Proc.wp interface (failLaunch runId state error) (fun _ _ _ => True) (fun _ _ _ => True) s w := by
  refine Proc.wp_seq _ (wp_now (.inr rfl) hw) fun _ s w hw => ?_
  refine Proc.wp_seq _ (wp_now (.inr rfl) hw) fun _ s w hw => ?_
  refine Proc.wp_seq (fun _ _ _ => True) (Proc.wp_call ?_) fun _ s w _ => Proc.wp_throw trivial
  intro w₁ hrely _ _ _
  exact ⟨fun _ => ⟨state, (hw.rely (.inr rfl) hrely).2, hlive⟩, trivial⟩

theorem wp_start (hw : Owns .unlaunched [] w) :
    Proc.wp interface (start options) (fun _ _ _ => True) (fun _ _ _ => True) s w := by
  refine Proc.wp_bind (Proc.wp_ofExcept (fun requests _ => ?_) fun _ _ => trivial)
  refine Proc.wp_seq _ (wp_now (.inl rfl) hw) fun createdAtMs s w hw => ?_
  refine Proc.wp_seq _ (wp_createRun hw) fun _ s w hw => ?_
  refine Proc.wp_seq (fun r _ w => ∀ e, r = .error e → Owns .launchFailed
    [options.initialState requests createdAtMs] w) (Proc.wp_call ?_) fun r s w hw => ?_
  · rintro w₁ hrely r w₂ ⟨a, h⟩
    have hw₁ := hw.rely (.inl rfl) hrely
    refine ⟨fun _ => trivial, fun e he => ?_⟩
    simp only [execEither, execCreate, hw₁.1, ne_eq, not_true_eq_false, if_false] at h
    split at h
    · cases h
      exact ⟨rfl, hw₁.2⟩
    · cases h
      cases he
  · cases r with
    | error e => exact wp_failLaunch rfl (hw e rfl)
    | ok u =>
      apply Proc.wp_hoist
      refine Proc.wp_mono (Proc.wp_of_invariant (I := fun _ => True)
        (fun c _ _ _ _ _ => ⟨fun _ => trivial, trivial⟩) (fun _ _ _ _ => trivial) _ trivial) ?_ ?_
      · exact fun _ _ _ _ => trivial
      · exact fun _ _ _ _ => trivial

end StartWrites

variable {setup : StoreSetup} {ok : storeSystem.Condition} {cfg : storeSystem.Config}

/-- The threads of every run write its state only while it is live. -/
theorem reach_writesLive (h : Machine.Reach ok setup.initial cfg) :
    Machine.Reach (fun i _ c a w => ok i c a w ∧ onRuns writesLive i c a w) setup.initial cfg := by
  refine Machine.Reach.strengthen (M := storeSystem) (t := fun id : String => StoreThread.run id .start)
    (V := fun id w => w.run id) (L := fun _ => StartWrites.interface) (Q := fun _ _ _ => True)
    StartWrites.describes (fun _ _ _ _ _ _ => trivial)
    (fun _ => Prog.wp_bind (Prog.wp_mono ?_ (StartWrites.wp_start ⟨rfl, rfl⟩)))
    (fun id _ c a w _ _ hok _ hguar => ⟨hok.1, hguar a.toAnswer⟩)
    (fun i hi _ c a w hok => ⟨hok.1, ?_⟩) (reach_supervisors h)
  · exact fun _ _ _ => Prog.wp_ret trivial
  · have hsupervisor := hok.2
    cases i with
    | client n => cases c <;> trivial
    | run id t =>
      cases t with
      | start => exact absurd rfl (hi id)
      | supervisor =>
        cases c with
        | inl c => trivial
        | inr c => exact hsupervisor
      | _ => trivial

/-- `state` is the last state of the run, and what `state.json` has, if anything. -/
def Frozen (state : RunState) (w : World) : Prop :=
  w.history.head? = some state ∧ ∀ found, w.state? = some found → found = state

theorem frozen_command {state : RunState} (hterminal : state.status.isTerminal) {t : Thread}
    {β : Type} {c : t.Cmd β} {a : Answer} {w w' : World} {b : β} (hok : writesLive t c a w)
    (h : exec t c a w = some (b, w')) (hfinished : w.phase.finished) (hw : Frozen state w) :
    Frozen state w' := by
  cases t with
  | start =>
    cases c with
    | inl c =>
      cases c with
      | writeNewState new =>
        have hempty : w.history = [] := hok
        exact nomatch (hempty ▸ hw.1 : ([] : List RunState).head? = some state)
      | replaceState new =>
        obtain ⟨old, hhistory, hlive⟩ := hok
        have hhead := hw.1
        rw [hhistory] at hhead
        cases hhead
        rw [hterminal] at hlive
        cases hlive
      | createState =>
        obtain ⟨_, -, -, rfl⟩ | ⟨-, h⟩ := fallible_cases h
        · exact hw
        · cases h
          exact ⟨hw.1, fun _ hfound => nomatch hfound⟩
      | _ =>
        simp only [exec, execEither, execCreate, fallible] at h
        repeat' split at h
        all_goals cases h <;> exact hw
    | inr c =>
      rw [execClient_frame (show execClient _ c a w = _ from h)]
      exact hw
  | supervisor =>
    cases c with
    | inl c =>
      rw [execLock_frame (show execLock c a w = _ from h)]
      exact hw
    | inr c =>
      rw [show w.phase = .active from hok] at hfinished
      cases hfinished
  | reader stream =>
    rw [execReader_frame (show execReader stream c a w = _ from h)]
    exact hw
  | client n =>
    rw [execClient_frame (show execClient _ c a w = _ from h)]
    exact hw

/-- The runs that are being removed have a last state, which is terminal. -/
def FrozenRemovals (w : StoreWorld) : Prop :=
  ∀ id r, w.removal id = some r → ∃ state, state.status.isTerminal ∧ Frozen state (w.run id)

/-- What is known of a run before a step after which it is being removed. -/
theorem frozen_of_removal {i : StoreThread} {β : Type} {c : i.Cmd β} {a : StoreAnswer}
    {w w' : StoreWorld} {b : β} (hintact : Intact w) (hsettled : SettledRemovals setup w')
    (h : i.exec c a w = some (b, w')) (hremovals : SettledRemovals setup w)
    (hw : FrozenRemovals w) {id : String} {r : Removal} (hr : w'.removal id = some r) :
    ∃ state, state.status.isTerminal ∧ (w.run id).phase.finished ∧ Frozen state (w.run id) := by
  obtain hkeep | ⟨n, -, hnone, hsome⟩ := StoreThread.exec_removal h id
  · rw [hkeep] at hr
    obtain ⟨state, hterminal, hfrozen⟩ := hw id r hr
    have ⟨hsettled, hphase⟩ := hremovals id r hr
    exact ⟨state, hterminal, hphase ▸ hsettled.finished, hfrozen⟩
  · obtain ⟨⟨_, _, state, -, -, hstate, hterminal, -⟩, hfinished⟩ := (hsettled id _ hsome).1
    refine ⟨state, hterminal, hfinished, ?_, fun found hfound => ?_⟩
    · refine ((hintact id hnone).2.document fun hunlaunched => ?_).symm.trans hstate
      simp only [hunlaunched] at hfinished
      cases hfinished
    · exact Option.some.inj (hfound.symm.trans hstate)

/-- A finished run keeps its last state. -/
theorem frozen_step {i : StoreThread} {β : Type} {c : i.Cmd β} {a : StoreAnswer}
    {w w' : StoreWorld} {b : β} (hok : onRuns writesLive i c a w) (h : i.exec c a w = some (b, w'))
    {id : String} {state : RunState} (hterminal : state.status.isTerminal)
    (hfinished : (w.run id).phase.finished) (hfrozen : Frozen state (w.run id)) :
    Frozen state (w'.run id) := by
  have hstep := StoreThread.exec_runStep hok h id
  generalize w'.run id = run at hstep
  cases hstep with
  | command ht hok hexec => exact frozen_command hterminal hok hexec hfinished hfrozen
  | unlink hr entry =>
    cases entry with
    | stateJson => exact ⟨hfrozen.1, fun _ hfound => nomatch hfound⟩
    | _ => exact hfrozen
  | _ => exact hfrozen

theorem frozenRemovals_step {i : StoreThread} {β : Type} {c : i.Cmd β} {a : StoreAnswer}
    {w w' : StoreWorld} {b : β} (hintact : Intact w) (hsettled : SettledRemovals setup w')
    (hok : onRuns writesLive i c a w) (h : i.exec c a w = some (b, w'))
    (hremovals : SettledRemovals setup w) (hw : FrozenRemovals w) : FrozenRemovals w' := by
  intro id r hr
  obtain ⟨state, hterminal, hfinished, hfrozen⟩ :=
    frozen_of_removal hintact hsettled h hremovals hw hr
  exact ⟨state, hterminal, frozen_step hok h hterminal hfinished hfrozen⟩

theorem reach_frozenRemovals (h : Machine.Reach ok setup.initial cfg) :
    FrozenRemovals cfg.world := by
  have hreach : Machine.Reach (fun i _ c a w => (onRuns writesLive i c a w) ∧
      (Intact w ∧ SettledRemovals setup w) ∧ ∀ b w', i.exec c a w = some (b, w') →
        Intact w' ∧ SettledRemovals setup w') setup.initial cfg :=
    ((reach_writesLive h).mono fun _ _ _ _ _ hok => hok.2).with_reached
      fun _ h => ⟨reach_intact h, reach_settledRemovals h⟩
  refine hreach.invariant (fun _ _ _ _ _ b w' hok hexec hw => ?_) fun _ _ hr => nomatch hr
  exact frozenRemovals_step hok.2.1.1 (hok.2.2 b w' hexec).2 hok.1 hexec hok.2.1.2 hw

/-! ## Observing does not interfere -/

/-- A test of the lock of run `id` that finds it held. -/
def FindsHeld (id : String) : (i : StoreThread) → {β : Type} → i.Cmd β → β → Prop
  | .run j .start, _, .inr .tryLock, r => j = id ∧ r = .ok false
  | .client _, _, .inr ⟨j, .tryLock⟩, r => j = id ∧ r = .ok false
  | _, _, _, _ => False

/-- The run that the error of a client's `gc` names had an active supervisor when the
    client last tested its lock. -/
def FoundActive (n : Nat) (e : AppError) (w : StoreWorld) : Prop :=
  ∃ id, e = gcLiveRun "active" id ∧ (w.run id).tested (.client n) = some .active

/-- What the tests of locks say in a store, and what `start` and `gc` conclude
    from them. -/
structure NonInterfering (cfg : storeSystem.Config) : Prop where
  /-- A lock that the next command may find held is the lock of an active
      supervisor. -/
  held : ∀ (i : StoreThread) {β : Type} (c : i.Cmd β) (k : β → Prog i.Cmd i.Result) a b w' id,
    cfg.thread i = .exec c k → onRuns noLockRace i c a cfg.world →
    i.exec c a cfg.world = some (b, w') → FindsHeld id i c b → (cfg.world.run id).phase = .active
  /-- `start` gives up only on a supervisor that has acquired its lock. -/
  start : ∀ id e, cfg.thread (.run id .start) = .ret (.error e) → e.kind = "supervisor_exit" →
    (cfg.world.run id).phase.early = false
  /-- `gc` refuses only the run of an active supervisor. -/
  gc : ∀ n e, cfg.thread (.client n) = .ret (.collected (.error e)) → e.kind = "gc_live_run" →
    FoundActive n e cfg.world

theorem held_active {i : StoreThread} {β : Type} {c : i.Cmd β} {a : StoreAnswer} {w w' : StoreWorld}
    {b : β} (hw : ∀ id, LockHeld (w.run id)) (hok : onRuns noLockRace i c a w)
    (h : i.exec c a w = some (b, w')) {id : String} (hheld : FindsHeld id i c b) :
    (w.run id).phase = .active := by
  have hactive {t : Thread} {run : World} (hfree : ObserverFree (w.run id))
      (h : execClient t .tryLock a.toAnswer (w.run id) = some (.ok false, run)) :
      (w.run id).phase = .active := by
    refine active_of_held (hw id) hfree ?_
    have hnone := (tryLock_cases h).2.2
    cases hlock : (w.run id).lock with
    | none => rw [hlock] at hnone; cases hnone
    | some holder => rfl
  cases i with
  | run j t =>
    cases t with
    | start =>
      cases c with
      | inl c => exact hheld.elim
      | inr c =>
        cases c with
        | tryLock =>
          obtain ⟨rfl, rfl⟩ := hheld
          exact hactive hok (exec_run_own (t := .start) h)
        | _ => exact hheld.elim
    | _ => exact hheld.elim
  | client n =>
    cases c with
    | inl c => exact hheld.elim
    | inr c =>
      obtain ⟨j, c⟩ := c
      cases c with
      | tryLock =>
        obtain ⟨rfl, rfl⟩ := hheld
        obtain ⟨⟨r, run⟩, hrun, hw'⟩ := Option.map_eq_some_iff.mp h
        obtain ⟨rfl, -⟩ := Prod.mk.inj hw'
        exact hactive hok hrun
      | _ => exact hheld.elim

/-- The condition of every run without a race for a lock. -/
def raceFree : storeSystem.Condition := fun i _ c a w =>
  onRuns noLockRace i c a w ∧ (∀ id, LockHeld (w.run id)) ∧ FrozenRemovals w

theorem reach_lockHeld (h : Machine.Reach ok setup.initial cfg) (id : String) :
    LockHeld (cfg.world.run id) :=
  h.invariant (J := fun w : StoreWorld => ∀ id, LockHeld (w.run id))
    (fun _ _ _ _ _ _ _ _ hexec hw => lockHeld_step hexec hw) (fun _ => ⟨nofun, nofun⟩) id

theorem reach_raceFree (h : Machine.Reach (onRuns noLockRace) setup.initial cfg) :
    Machine.Reach raceFree setup.initial cfg :=
  (h.with_reached (J := fun w : StoreWorld => (∀ id, LockHeld (w.run id)) ∧ FrozenRemovals w)
    fun _ h => ⟨reach_lockHeld h, reach_frozenRemovals h⟩).mono fun _ _ _ _ _ hok => ⟨hok.1, hok.2.1⟩

theorem refusals_foundActive (n : Nat) : Refusals raceFree n (FoundActive n) where
  stable e w w' h := fun ⟨id, he, hid⟩ => ⟨id, he, (h.tested id).trans hid⟩
  held id a w run hok h := by
    have hactive : (w.run id).phase = .active :=
      held_active (i := .client n) (c := .inr { id, cmd := .tryLock }) hok.1.2.1 hok.1.1
        (Option.map_eq_some_iff.mpr ⟨_, h, rfl⟩) ⟨rfl, rfl⟩
    refine ⟨id, rfl, ?_⟩
    rw [StoreWorld.run_setRun, (tryLock_cases h).1, hactive]
  reread id a w run state hok hremoval h hlive := by
    obtain ⟨r, hr⟩ := Option.ne_none_iff_exists'.mp hremoval
    obtain ⟨last, hterminal, -, hlast⟩ := hok.1.2.2 id r hr
    rw [hlast state ((execClient_readState h).2.2.1 state rfl), hterminal] at hlive
    cases hlive

/-- In a run without a race for a lock. -/
theorem non_interfering (setup : StoreSetup) {cfg : storeSystem.Config}
    (h : Machine.Reach (onRuns noLockRace) setup.initial cfg) : NonInterfering cfg where
  held i _ c k a b w' id _ hok hexec hheld := held_active (reach_lockHeld h) hok hexec hheld
  start id e he hkind := by
    cases hremoval : cfg.world.removal id with
    | none =>
      obtain ⟨setup', cfg', -, hreach, hworld, hthread⟩ :=
        reach_run (fun _ _ _ _ => trivial) h hremoval
      rw [← hworld]
      exact supervisor_exit_late hreach ((hthread .start rfl).trans he) hkind
    | some r =>
      have ⟨hsettled, hphase⟩ := reach_settledRemovals h id r hremoval
      have hfinished := hsettled.finished
      rw [hphase]
      revert hfinished
      cases r.run.phase <;> decide
  gc n e he hkind := by
    have hresult := (describes_client n _ _).result (refused_stable (refusals_foundActive n).stable)
      (wp_client (refusals_foundActive n) (setup.clients n)) (reach_reached (reach_raceFree h)) he
    exact hresult hkind

end Procherd

namespace Procherd.Reference

open Interaction

/-- A client that observes the run once. -/
def observers : StoreSetup :=
  storeSetup fun _ => .use ((observeStateAndActivity.program .observed).hoist
    fun c => { id := options.runId, cmd := c })

def isTryLock {β : Type} : ClientCmd β → Bool
  | .tryLock => true
  | _ => false

/-- A move that does not test a lock that another observer holds. -/
def avoidsLockRace (cfg : storeSystem.Config) (m : storeSystem.Move) : Bool :=
  match m.1 with
  | .run id .start =>
    match cfg.thread (.run id .start) with
    | .exec (.inr c) _ => !isTryLock c || decide (ObserverFree (cfg.world.run id))
    | _ => true
  | .run _ (.client _) => false
  | .client n =>
    match cfg.thread (.client n) with
    | .exec (.inr c) _ => !isTryLock c.cmd || decide (ObserverFree (cfg.world.run c.id))
    | _ => true
  | _ => true

theorem meets_noLockRace (cfg : storeSystem.Config) (m : storeSystem.Move)
    (h : avoidsLockRace cfg m) : Machine.Meets (M := storeSystem) (onRuns noLockRace) cfg m := by
  have hfree {w : World} (h : (!true || decide (ObserverFree w)) = true) : ObserverFree w := by
    simpa using h
  intro β c k hc
  obtain ⟨i, a⟩ := m
  cases i with
  | run id t =>
    cases t with
    | start =>
      cases c with
      | inl c => trivial
      | inr c =>
        have hc : cfg.thread (.run id .start) = .exec (.inr c) k := hc
        simp only [avoidsLockRace, hc] at h
        cases c <;> first | exact hfree h | trivial
    | client n => cases h
    | _ => trivial
  | client n =>
    cases c with
    | inl c => trivial
    | inr c =>
      have hc : cfg.thread (.client n) = .exec (.inr c) k := hc
      simp only [avoidsLockRace, hc] at h
      obtain ⟨id, c⟩ := c
      cases c <;> first | exact hfree h | trivial

/-- The error kind of the `start` of the run. -/
def startFailedOn? (cfg : storeSystem.Config) : Option String :=
  match (cfg.thread (.run options.runId .start)).result? with
  | some (.error e) => some e.kind
  | _ => none

theorem thread_of_startFailedOn {cfg : storeSystem.Config} {kind : String}
    (h : startFailedOn? cfg = some kind) :
    ∃ e, cfg.thread (.run options.runId .start) = .ret (.error e) ∧ e.kind = kind := by
  unfold startFailedOn? at h
  split at h
  · rename_i e he
    exact ⟨e, Prog.eq_ret_of_result? he, Option.some.inj h⟩
  · cases h

/-- `start` finds the supervisor active, and then gone. -/
theorem non_interfering_gone : ∃ cfg : storeSystem.Config,
    startFailedOn? cfg = some "supervisor_exit" ∧
    (cfg.world.run options.runId).phase.early = false := by
  have hrun : (Machine.runChecked avoidsLockRace observers.initial
      (onStore options.runId (steps .start 9 {} ++ steps .supervisor 1 {} ++ steps .start 3 {} ++
        steps .supervisor 3 { fault := some (.document "unreadable") } ++ steps .start 6 {}))).map
      startFailedOn? = some (some "supervisor_exit") := by decide +kernel
  obtain ⟨cfg, hcfg, hfailed⟩ := Option.map_eq_some_iff.mp hrun
  obtain ⟨e, he, hkind⟩ := thread_of_startFailedOn hfailed
  exact ⟨cfg, hfailed, (non_interfering observers
    (.of_runChecked meets_noLockRace hcfg)).start _ e he hkind⟩

/-- A client tests the lock before the supervisor acquires it; `start` finds the
    lock held, and after the client has released it gives up on a supervisor
    that is still to come. -/
theorem non_interfering_race : ∃ cfg : storeSystem.Config,
    Machine.Reach storeSystem.always observers.initial cfg ∧ ¬ NonInterfering cfg := by
  have hrun : (Machine.run observers.initial
      (onStore options.runId (steps .start 10 {}) ++ clientSteps 0 2 {} ++
        onStore options.runId (steps .start 2 {}) ++ clientSteps 0 1 {} ++
        onStore options.runId (steps .start 6 {}))).map
      (fun cfg => (startFailedOn? cfg, (cfg.world.run options.runId).phase)) =
      some (some "supervisor_exit", .launched) := by decide +kernel
  obtain ⟨cfg, hcfg, h⟩ := Option.map_eq_some_iff.mp hrun
  obtain ⟨hfailed, hphase⟩ := Prod.mk.inj h
  obtain ⟨e, he, hkind⟩ := thread_of_startFailedOn hfailed
  refine ⟨cfg, .of_run hcfg, fun hnon => ?_⟩
  have hlate := hnon.start _ e he hkind
  rw [hphase] at hlate
  cases hlate

end Procherd.Reference
