-- SUMMARY: The launch protocol: what `start` writes before and after the launch, when the supervisor works, and how its verification yields facts about every run.
import Procherd.System

/-!
# Launch protocol

`start` creates the run before it launches the supervisor, and writes the state
again only if the launch failed. The supervisor works only between the
acquisition and the release of its lock. Every run therefore meets the condition
`launchProtocol` on its steps, under which `state.json` has one writer at a time
and the phase says who holds the lock.
-/

namespace Procherd

open Interaction

variable [Toolchain]

/-! ## The conditions -/

/-- What `start` has written when it launches the supervisor. -/
structure Created (options : StartOptions) (w : World) : Prop where
  documents : ∃ requests createdAtMs, options.check = .ok requests ∧ createdAtMs ≤ u64Max ∧
    w.stateJson = .document (options.initialState requests createdAtMs) ∧
    w.history = [options.initialState requests createdAtMs] ∧
    w.specJson = some (options.spec requests createdAtMs)
  ownerToken : w.ownerToken = some options.ownerToken

/-- `start` creates the run while it is unlaunched, writes the state again only
    after a failed launch, and is a client from then on. -/
def startProtocol (options : StartOptions) : system.Condition
  | .start, _, .inl .now, _, _ => True
  | .start, _, .inl (.writeNewState state), _, w =>
    w.phase = .unlaunched ∧ w.history = [] ∧ ∃ requests createdAtMs,
      options.check = .ok requests ∧ createdAtMs ≤ u64Max ∧
      state = options.initialState requests createdAtMs
  | .start, _, .inl .launch, _, w => w.phase = .unlaunched ∧ Created options w
  | .start, _, .inl (.replaceState state), _, w =>
    w.phase = .launchFailed ∧ Created options w ∧ ∃ old error updatedAtMs finishedAtMs,
      w.stateJson = .document old ∧
      state = launchFailedState error updatedAtMs finishedAtMs old
  | .start, _, .inl _, _, w => w.phase = .unlaunched
  | .start, _, .inr _, _, w => w.phase ≠ .unlaunched
  | _, _, _, _, _ => True

/-- The supervisor works only while it holds its lock. -/
def supervisorProtocol : system.Condition
  | .supervisor, _, .inl .acquire, _, _ => True
  | .supervisor, _, .inl .release, _, w => w.phase = .active
  | .supervisor, _, .inr _, _, w => w.phase = .active
  | _, _, _, _, _ => True

def launchProtocol (options : StartOptions) : system.Condition := fun i _ c a w =>
  startProtocol options i c a w ∧ supervisorProtocol i c a w

/-! ## The phase -/

section Phases

variable {β : Type} {a : Answer} {w w' : World} {b : β}

theorem execClient_phase {t : Thread} {c : ClientCmd β} (h : execClient t c a w = some (b, w')) :
    w'.phase = w.phase := by
  rw [execClient_frame h]

omit [Toolchain] in
theorem execReader_phase {stream : LogStream} {c : ReaderCmd β}
    (h : execReader stream c a w = some (b, w')) : w'.phase = w.phase := by
  rw [execReader_frame h]

theorem execBody_phase {c : BodyCmd β} (h : execBody c a w = some (b, w')) :
    w'.phase = w.phase := by
  rw [execBody_frame h]

omit [Toolchain] in
theorem execCreate_phase {c : CreateCmd β} (h : execCreate c a w = some (b, w')) :
    w'.phase = w.phase ∨ (w.phase = .unlaunched ∧ (w'.phase = .launched ∨ w'.phase = .launchFailed)) := by
  cases c with
  | launch =>
    simp only [execCreate] at h
    split at h
    · cases h
    · rename_i hphase
      split at h <;> cases h
      · exact .inr ⟨not_not.mp hphase, .inr rfl⟩
      · exact .inr ⟨not_not.mp hphase, .inl rfl⟩
  | _ =>
    simp only [execCreate, fallible, committed] at h
    repeat' split at h
    all_goals (cases h; exact .inl rfl)

omit [Toolchain] in
/-- The supervisor moves from `launched` to `active` to `released`. -/
theorem execLock_phase {c : LockCmd β} (h : execLock c a w = some (b, w')) :
    w' = w ∨ (w.phase = .launched ∧ w'.phase = .active) ∨
      (w.phase = .active ∧ w'.phase = .released) := by
  cases c with
  | acquire =>
    simp only [execLock] at h
    split at h
    · cases h
    · rename_i hphase
      split at h
      · cases h; exact .inl rfl
      · split at h
        · cases h; exact .inr (.inl ⟨not_not.mp hphase, rfl⟩)
        · cases h
  | release =>
    simp only [execLock] at h
    split at h
    · rename_i hphase
      cases h; exact .inr (.inr ⟨hphase, rfl⟩)
    · cases h; exact .inl rfl

end Phases

/-- A launch is not undone. -/
theorem launched_of_exec {i : Thread} {β : Type} {c : i.Cmd β} {a : Answer} {w w' : World} {b : β}
    (h : exec i c a w = some (b, w')) (hw : w.phase ≠ .unlaunched) : w'.phase ≠ .unlaunched := by
  cases i with
  | start =>
    cases c with
    | inl c =>
      obtain hp | ⟨hp, -⟩ := execCreate_phase (show execCreate c a w = some (b, w') from h)
      · rwa [hp]
      · exact absurd hp hw
    | inr c => rwa [execClient_phase (show execClient .start c a w = some (b, w') from h)]
  | supervisor =>
    cases c with
    | inl c =>
      obtain rfl | ⟨-, hp⟩ | ⟨-, hp⟩ := execLock_phase (show execLock c a w = some (b, w') from h)
      · exact hw
      · rw [hp]
        decide
      · rw [hp]
        decide
    | inr c => rwa [execBody_phase (show execBody c a w = some (b, w') from h)]
  | reader stream => rwa [execReader_phase (show execReader stream c a w = some (b, w') from h)]
  | client index => rwa [execClient_phase (show execClient (.client index) c a w = some (b, w') from h)]

/-- Only the supervisor itself gives up its lock. -/
theorem active_of_other {β : Type} {j : Thread} (hj : j ≠ .supervisor) {c : j.Cmd β} {a : Answer}
    {w w' : World} {b : β} (h : exec j c a w = some (b, w')) (hw : w.phase = .active) :
    w'.phase = .active := by
  cases j with
  | start =>
    cases c with
    | inl c =>
      obtain hp | ⟨hp, -⟩ := execCreate_phase h
      · exact hp.trans hw
      · rw [hw] at hp; cases hp
    | inr c => exact (execClient_phase h).trans hw
  | supervisor => exact absurd rfl hj
  | reader stream => exact (execReader_phase h).trans hw
  | client index => exact (execClient_phase h).trans hw

/-- What no command of a run takes back. -/
structure World.Keeps (w w' : World) : Prop where
  runId : w'.runId = w.runId
  dir : w.dir = true → w'.dir = true
  lockFile : w.lockFile = true → w'.lockFile = true

theorem exec_keeps {i : Thread} {β : Type} {c : i.Cmd β} {a : Answer} {w w' : World} {b : β}
    (h : exec i c a w = some (b, w')) : w.Keeps w' := by
  cases i with
  | start =>
    cases c with
    | inl c =>
      cases c <;> simp only [exec, execEither, execCreate, fallible, committed] at h <;>
        repeat' split at h
      all_goals cases h <;> refine ⟨rfl, ?_, ?_⟩ <;> first | exact id | exact fun _ => rfl
    | inr c =>
      rw [execClient_frame (show execClient .start c a w = some (b, w') from h)]
      exact ⟨rfl, id, id⟩
  | supervisor =>
    cases c with
    | inl c =>
      rw [execLock_frame (show execLock c a w = some (b, w') from h)]
      exact ⟨rfl, id, id⟩
    | inr c =>
      rw [execBody_frame (show execBody c a w = some (b, w') from h)]
      exact ⟨rfl, id, id⟩
  | reader stream =>
    rw [execReader_frame (show execReader stream c a w = some (b, w') from h)]
    exact ⟨rfl, id, id⟩
  | client index =>
    rw [execClient_frame (show execClient (.client index) c a w = some (b, w') from h)]
    exact ⟨rfl, id, id⟩

/-! ## The supervisor -/

namespace SupervisorPhase

def interface : Interface (Either LockCmd BodyCmd) World where
  step c w b w' := ∃ a, execEither execLock execBody c a w = some (b, w')
  rely w w' := w.phase = .active → w'.phase = .active
  guar c w _ _ := ∀ a, supervisorProtocol .supervisor c a w
  rely_refl _ := id
  rely_trans h h' := h' ∘ h

theorem describes : Machine.Describes system.always .supervisor id interface where
  self _ a _ _ _ _ h := ⟨a, h⟩
  other _ hj _ _ _ _ _ _ h := active_of_other hj h

theorem wp_supervise (path : PathBuf) (w : World) :
    Proc.wp interface (supervise path) (fun _ _ _ => True) (fun _ _ _ => True) () w := by
  refine Proc.wp_seq (fun _ _ w => w.phase = .active) (Proc.wp_attempt ?_) fun _ s w hw => ?_
  · rintro w _ r w' ⟨a, h⟩
    refine ⟨fun _ => trivial, ?_⟩
    cases r with
    | error e => trivial
    | ok u =>
      simp only [execEither, execLock] at h
      split at h
      · cases h
      · split at h
        · cases h
        · split at h
          · cases h; rfl
          · cases h
  have hbody : Proc.wp interface ((superviseAndMark path).hoist .inr)
      (fun _ _ w => w.phase = .active) (fun _ _ w => w.phase = .active) s w := by
    apply Proc.wp_hoist
    refine Proc.wp_of_invariant (I := fun w : World => w.phase = .active) ?_ ?_ _ hw
    · rintro β c w b w' hw ⟨a, h⟩
      exact ⟨fun _ => hw, (execBody_phase h).trans hw⟩
    · exact fun w w' hw hrely => hrely hw
  refine Proc.wp_seq (fun _ _ w => w.phase = .active) (Proc.wp_outcome hbody) fun result s w hw => ?_
  refine Proc.wp_seq (fun _ _ _ => True) (Proc.wp_call ?_) fun _ s w _ =>
    Proc.wp_ofExcept (fun _ _ => trivial) fun _ _ => trivial
  exact fun w' hrely _ _ _ => ⟨fun _ => hrely hw, trivial⟩

end SupervisorPhase

variable {setup : Setup} {ok : system.Condition} {cfg : system.Config}

theorem reach_supervisorProtocol (h : Machine.Reach ok setup.initial cfg) :
    Machine.Reach (fun i _ c a w => ok i c a w ∧ supervisorProtocol i c a w) setup.initial cfg := by
  refine Machine.Reach.strengthen (M := system) (t := fun _ : Unit => Thread.supervisor)
    (L := fun _ => SupervisorPhase.interface) (Q := fun _ _ _ => True)
    (fun _ => SupervisorPhase.describes.mono fun _ _ _ _ _ _ => trivial) (fun _ _ _ _ _ _ => trivial)
    (fun _ => Prog.wp_bind (Prog.wp_mono ?_ (SupervisorPhase.wp_supervise _ _)))
    (fun _ β c a w b w' hok _ hguar => ⟨hok, hguar a⟩) (fun j hj β c a w hok => ⟨hok, ?_⟩) h
  · exact fun _ _ _ => Prog.wp_ret trivial
  · cases j with
    | supervisor => exact absurd rfl (hj ())
    | _ => trivial

/-! ## start -/

/-- The documents that `start` writes are the same in two worlds. -/
structure SameRun (w w' : World) : Prop where
  phase : w'.phase = w.phase
  stateJson : w'.stateJson = w.stateJson
  history : w'.history = w.history
  specJson : w'.specJson = w.specJson
  ownerToken : w'.ownerToken = w.ownerToken

omit [Toolchain] in
theorem SameRun.refl (w : World) : SameRun w w := ⟨rfl, rfl, rfl, rfl, rfl⟩

omit [Toolchain] in
theorem SameRun.trans {w₁ w₂ w₃ : World} (h : SameRun w₁ w₂) (h' : SameRun w₂ w₃) :
    SameRun w₁ w₃ :=
  ⟨h'.phase.trans h.phase, h'.stateJson.trans h.stateJson, h'.history.trans h.history,
    h'.specJson.trans h.specJson, h'.ownerToken.trans h.ownerToken⟩

theorem execClient_sameRun {β : Type} {a : Answer} {w w' : World} {b : β} {t : Thread}
    {c : ClientCmd β} (h : execClient t c a w = some (b, w')) : SameRun w w' := by
  rw [execClient_frame h]
  exact ⟨rfl, rfl, rfl, rfl, rfl⟩

theorem Created.of_sameRun {options : StartOptions} {w w' : World} (h : Created options w)
    (hw : SameRun w w') : Created options w' where
  documents := by rw [hw.stateJson, hw.history, hw.specJson]; exact h.documents
  ownerToken := hw.ownerToken.trans h.ownerToken

namespace StartPhase

/-- Until it is launched, the supervisor does not move. -/
def rely (w w' : World) : Prop :=
  (w.phase = .unlaunched ∨ w.phase = .launchFailed → SameRun w w') ∧
    (w.phase ≠ .unlaunched → w'.phase ≠ .unlaunched)

def interface (options : StartOptions) : Interface (Either CreateCmd ClientCmd) World where
  step c w b w' := ∃ a, execEither execCreate (execClient .start) c a w = some (b, w')
  rely := rely
  guar c w _ _ := ∀ a, startProtocol options .start c a w
  rely_refl w := ⟨fun _ => .refl w, id⟩
  rely_trans h h' := ⟨fun hp => (h.1 hp).trans (h'.1 ((h.1 hp).phase ▸ hp)), fun hp => h'.2 (h.2 hp)⟩

theorem describes (options : StartOptions) :
    Machine.Describes supervisorProtocol .start id (interface options) where
  self _ a _ _ _ _ h := ⟨a, h⟩
  other j hj c a w b w' hok h := by
    have hkeep (hp : SameRun w w') : rely w w' := ⟨fun _ => hp, fun h => by rw [hp.phase]; exact h⟩
    cases j with
    | start => exact absurd rfl hj
    | supervisor =>
      cases c with
      | inl c =>
        obtain rfl | ⟨hp, hp'⟩ | ⟨hp, hp'⟩ := execLock_phase h
        · exact hkeep (.refl _)
        · exact ⟨by simp [hp], by simp [hp']⟩
        · exact ⟨by simp [hp], by simp [hp']⟩
      | inr c =>
        have hactive : w.phase = .active := hok
        exact ⟨by simp [hactive], by simp [execBody_phase h, hactive]⟩
    | reader stream =>
      apply hkeep
      rw [execReader_frame h]
      exact ⟨rfl, rfl, rfl, rfl, rfl⟩
    | client index => exact hkeep (execClient_sameRun h)

/-! ### The weakest precondition of `start` -/

variable {options : StartOptions} {s : Unit} {w : World}

omit [Toolchain] in
/-- What holds of the documents of an unlaunched run stays true. -/
theorem unlaunched_stable {P : World → Prop} (hP : ∀ w w', SameRun w w' → P w → P w') {w w' : World}
    (hw : w.phase = .unlaunched ∧ P w) (h : rely w w') : w'.phase = .unlaunched ∧ P w' := by
  have hsame := h.1 (.inl hw.1)
  exact ⟨hsame.phase.trans hw.1, hP w w' hsame hw.2⟩

/-- One command of the creation, with what holds before and after it. -/
theorem wp_create (P P' : World → Prop) {c : CreateCmd (Except AppError Unit)}
    (hP : ∀ w w', SameRun w w' → P w → P w')
    (hguar : ∀ w a, w.phase = .unlaunched → P w → startProtocol options .start (.inl c) a w)
    (hexec : ∀ w a w', w.phase = .unlaunched → P w → execCreate c a w = some (.ok (), w') →
      w'.phase = .unlaunched ∧ P' w')
    (hw : w.phase = .unlaunched ∧ P w) :
    Proc.wp (interface options) (Proc.attempt (.inl c))
      (fun _ _ w' => w'.phase = .unlaunched ∧ P' w') (fun _ _ _ => True) s w := by
  apply Proc.wp_attempt
  rintro w₁ hrely r w₂ ⟨a, h⟩
  have ⟨hphase, hP₁⟩ := unlaunched_stable hP hw hrely
  refine ⟨fun a => hguar w₁ a hphase hP₁, ?_⟩
  cases r with
  | ok u => exact hexec w₁ a w₂ hphase hP₁ h
  | error e => trivial

/-- The state of a run that is being created, after `writeNewState`. -/
def StateWritten (state : RunState) (w : World) : Prop :=
  w.stateJson = .document state ∧ w.history = [state]

def SpecWritten (state : RunState) (spec : SupervisorSpec) (w : World) : Prop :=
  StateWritten state w ∧ w.specJson = some spec

theorem wp_createRun {requests : LeaseRequests} {createdAtMs : Nat}
    (hcheck : options.check = .ok requests) (htime : createdAtMs ≤ u64Max)
    (hw : w.phase = .unlaunched ∧ w.history = []) :
    Proc.wp (interface options)
      (createRun (options.initialState requests createdAtMs) (options.spec requests createdAtMs)
        options.ownerToken)
      (fun _ _ w' => w'.phase = .unlaunched ∧ Created options w' ∧
        w'.stateJson = .document (options.initialState requests createdAtMs))
      (fun _ _ _ => True) s w := by
  have hfresh (w w' : World) (h : SameRun w w') (hw : w.history = []) : w'.history = [] :=
    h.history.trans hw
  refine Proc.wp_seq (fun _ _ w => w.phase = .unlaunched ∧ w.history = [])
    (Proc.wp_ofExcept (fun _ _ => hw) fun _ _ => trivial) fun _ s w hw => ?_
  refine Proc.wp_seq _ (wp_create _ (·.history = []) hfresh (fun _ _ hp _ => hp) ?_ hw)
    fun _ s w hw => ?_
  · intro w a w' hp hw h
    obtain ⟨_, hr, -⟩ | ⟨-, rfl⟩ := createDir_cases h
    · cases hr
    · exact ⟨hp, hw⟩
  refine Proc.wp_seq _ (wp_create _ (·.history = []) hfresh (fun _ _ hp _ => hp) ?_ hw)
    fun _ s w hw => ?_
  · intro w a w' hp hw h
    obtain ⟨_, _, hr, -⟩ | ⟨_, h⟩ := fallible_cases h
    · cases hr
    · cases h; exact ⟨hp, hw⟩
  refine Proc.wp_seq _ (wp_create _ (·.history = []) hfresh (fun _ _ hp _ => hp) ?_ hw)
    fun _ s w hw => ?_
  · intro w a w' hp hw h
    obtain ⟨_, _, hr, -⟩ | ⟨_, h⟩ := fallible_cases h
    · cases hr
    · cases h; exact ⟨hp, hw⟩
  refine Proc.wp_seq _ (wp_create _ (StateWritten (options.initialState requests createdAtMs))
    hfresh (fun _ _ hp hw => ⟨hp, hw, _, _, hcheck, htime, rfl⟩) ?_ hw) fun _ s w hw => ?_
  · intro w a w' hp hw h
    obtain ⟨_, _, hr, -⟩ | ⟨_, h⟩ := fallible_cases h
    · cases hr
    · cases h; exact ⟨hp, rfl, by simp only [World.setState, hw]⟩
  have hstate (w w' : World) (h : SameRun w w')
      (hw : StateWritten (options.initialState requests createdAtMs) w) :
      StateWritten (options.initialState requests createdAtMs) w' :=
    ⟨h.stateJson.trans hw.1, h.history.trans hw.2⟩
  refine Proc.wp_seq _ (wp_create _ (SpecWritten (options.initialState requests createdAtMs)
    (options.spec requests createdAtMs)) hstate (fun _ _ hp _ => hp) ?_ hw) fun _ s w hw => ?_
  · intro w a w' hp hw h
    obtain ⟨_, _, hr, -⟩ | ⟨_, h⟩ := fallible_cases h
    · cases hr
    · cases h; exact ⟨hp, hw, rfl⟩
  refine wp_create _ (fun w => Created options w ∧
    w.stateJson = .document (options.initialState requests createdAtMs)) ?_ (fun _ _ hp _ => hp) ?_ hw
  · exact fun w w' h hw => ⟨hstate w w' h hw.1, h.specJson.trans hw.2⟩
  · intro w a w' hp hw h
    obtain ⟨_, _, hr, -⟩ | ⟨_, h⟩ := fallible_cases h
    · cases hr
    · cases h
      exact ⟨hp, ⟨⟨_, _, hcheck, htime, hw.1.1, hw.1.2, hw.2⟩, rfl⟩, hw.1.1⟩

/-- A reading of the clock keeps what is stable. -/
theorem wp_now {P : World → Prop} (hP : ∀ w', rely w w' → P w') :
    Proc.wp (interface options) (Proc.call (.inl .now) : Starter Nat)
      (fun now _ w' => now ≤ u64Max ∧ P w') (fun _ _ _ => True) s w := by
  apply Proc.wp_call
  rintro w₁ hrely now w₂ ⟨a, h⟩
  cases h
  exact ⟨fun _ => trivial, Nat.min_le_right _ _, hP _ hrely⟩

theorem wp_failLaunch (runId : String) {state : RunState} (error : AppError)
    (hw : w.phase = .launchFailed ∧ Created options w ∧ w.stateJson = .document state) :
    Proc.wp (interface options) (failLaunch runId state error) (fun _ _ _ => True)
      (fun _ _ _ => True) s w := by
  have hstay (w : World)
      (hw : w.phase = .launchFailed ∧ Created options w ∧ w.stateJson = .document state) (w' : World)
      (h : rely w w') :
      w'.phase = .launchFailed ∧ Created options w' ∧ w'.stateJson = .document state := by
    have hsame := h.1 (.inr hw.1)
    exact ⟨hsame.phase.trans hw.1, hw.2.1.of_sameRun hsame, hsame.stateJson.trans hw.2.2⟩
  refine Proc.wp_seq _ (wp_now (hstay w hw)) fun updatedAtMs s w hw => ?_
  refine Proc.wp_seq _ (wp_now (hstay w hw.2)) fun finishedAtMs s w hw => ?_
  refine Proc.wp_seq (fun _ _ _ => True) (Proc.wp_call ?_) fun _ s w _ => Proc.wp_throw trivial
  intro w₁ hrely _ _ _
  have ⟨hphase, hcreated, hdoc⟩ := hstay w hw.2 w₁ hrely
  exact ⟨fun _ => ⟨hphase, hcreated, _, _, _, _, hdoc, rfl⟩, trivial⟩

/-- After the launch, `start` only uses the commands of a client. -/
theorem wp_awaitStart (hw : w.phase ≠ .unlaunched) :
    Proc.wp (interface options) ((awaitStart options).hoist .inr) (fun _ _ _ => True)
      (fun _ _ _ => True) s w := by
  apply Proc.wp_hoist
  refine Proc.wp_mono (Proc.wp_of_invariant (I := fun w : World => w.phase ≠ .unlaunched) ?_ ?_ _
    hw) (fun _ _ _ _ => trivial) (fun _ _ _ _ => trivial)
  · rintro β c w b w' hw ⟨a, h⟩
    exact ⟨fun _ => hw, by rw [execClient_phase h]; exact hw⟩
  · exact fun w w' hw hrely => hrely.2 hw

theorem wp_start (hw : w.phase = .unlaunched ∧ w.history = []) :
    Proc.wp (interface options) (start options) (fun _ _ _ => True) (fun _ _ _ => True) s w := by
  have hfresh {w : World} (hw : w.phase = .unlaunched ∧ w.history = []) (w' : World)
      (h : rely w w') : w'.phase = .unlaunched ∧ w'.history = [] :=
    unlaunched_stable (fun w w' h hw => h.history.trans hw) hw h
  refine Proc.wp_seq (fun requests _ w => options.check = .ok requests ∧
      w.phase = .unlaunched ∧ w.history = [])
    (Proc.wp_ofExcept (fun _ h => ⟨h, hw⟩) fun _ _ => trivial) fun requests s w hw => ?_
  obtain ⟨hcheck, hw⟩ := hw
  refine Proc.wp_seq _ (wp_now (hfresh hw)) fun createdAtMs s w hw => ?_
  obtain ⟨htime, hw⟩ := hw
  refine Proc.wp_seq _ (wp_createRun hcheck htime hw) fun _ s w hw => ?_
  refine Proc.wp_seq (fun r _ w => (r = .ok () → w.phase = .launched) ∧
      ∀ e, r = .error e → w.phase = .launchFailed ∧ Created options w ∧
        w.stateJson = .document (options.initialState requests createdAtMs))
    (Proc.wp_call ?_) fun r s w hw => ?_
  · rintro w₁ hrely r w₂ ⟨a, h⟩
    have hsame := hrely.1 (.inl hw.1)
    have hcreated := hw.2.1.of_sameRun hsame
    have hphase := hsame.phase.trans hw.1
    refine ⟨fun a => ⟨hphase, hcreated⟩, ?_⟩
    simp only [execEither, execCreate, hphase, ne_eq, not_true_eq_false, if_false] at h
    split at h
    · cases h
      refine ⟨(fun hok => by cases hok), fun e _ => ?_⟩
      exact ⟨rfl, ⟨hcreated.documents, hcreated.ownerToken⟩, hsame.stateJson.trans hw.2.2⟩
    · cases h
      exact ⟨fun _ => rfl, fun e he => by cases he⟩
  · cases r with
    | ok u => exact wp_awaitStart (by rw [hw.1 rfl]; decide)
    | error e => exact wp_failLaunch _ e (hw.2 e rfl)

end StartPhase

/-! ## Every run meets the protocol -/

/-- Every run meets the launch protocol, whatever else its steps meet. -/
theorem reach_launchProtocol (h : Machine.Reach ok setup.initial cfg) :
    Machine.Reach (fun i _ c a w => ok i c a w ∧ launchProtocol setup.options i c a w)
      setup.initial cfg := by
  refine Machine.Reach.strengthen (M := system) (t := fun _ : Unit => Thread.start)
    (L := fun _ => StartPhase.interface setup.options) (Q := fun _ _ _ => True)
    (fun _ => (StartPhase.describes setup.options).mono fun _ _ _ _ _ h => h.2)
    (fun _ _ _ _ _ _ => trivial)
    (fun _ => Prog.wp_bind (Prog.wp_mono ?_ (StartPhase.wp_start ⟨rfl, rfl⟩)))
    (fun _ β c a w b w' hok _ hguar => ⟨hok.1, hguar a, hok.2⟩)
    (fun j hj β c a w hok => ⟨hok.1, ?_, hok.2⟩) (reach_supervisorProtocol h)
  · exact fun _ _ _ => Prog.wp_ret trivial
  · cases j with
    | start => exact absurd rfl (hj ())
    | _ => trivial

/-! ## The lock and the launched run -/

/-- The supervisor holds the lock exactly while it is active, and finds the run
    as `start` created it. -/
structure Launched (options : StartOptions) (w : World) : Prop where
  lock : w.phase = .active ↔ w.lock = some .supervisor
  created : w.phase = .launched → Created options w

theorem execClient_lock {β : Type} {a : Answer} {w w' : World} {b : β} {t : Thread}
    (ht : t ≠ .supervisor) {c : ClientCmd β} (h : execClient t c a w = some (b, w')) :
    w'.lock = some .supervisor ↔ w.lock = some .supervisor := by
  cases c with
  | tryLock =>
    obtain ⟨_, _, _, rfl⟩ | ⟨_, h⟩ := fallible_cases h
    · exact .rfl
    · simp only at h
      repeat' split at h
      all_goals cases h
      any_goals exact .rfl
      rename_i hnone
      simp only [hnone, Option.some.injEq, reduceCtorEq, iff_false]
      exact ht
  | unlock =>
    have hw' : w'.lock = if w.lock = some t then none else w.lock := by
      simp only [execClient] at h
      obtain ⟨_, _, _, rfl⟩ | ⟨_, h⟩ := fallible_cases h
      · split <;> rfl
      · cases h
        split <;> rfl
    rw [hw']
    split
    · rename_i hlock
      simp only [hlock, Option.some.injEq, reduceCtorEq, false_iff]
      exact ht
    · exact .rfl
  | _ =>
    simp only [execClient, fallible, committed, fallibleIo] at h
    repeat' split at h
    all_goals cases h <;> exact .rfl

/-- While the supervisor is active, no other thread touches the documents that
    `start` created. -/
theorem sameRun_of_active {options : StartOptions} {β : Type} {j : Thread} (hj : j ≠ .supervisor)
    {c : j.Cmd β} {a : Answer} {w w' : World} {b : β} (hok : launchProtocol options j c a w)
    (h : exec j c a w = some (b, w')) (hw : w.phase = .active) : SameRun w w' := by
  cases j with
  | start =>
    cases c with
    | inl c =>
      cases c with
      | now => cases h; exact .refl w
      | replaceState state => exact absurd (hok.1.1.symm.trans hw) (by decide)
      | writeNewState state => exact absurd (hok.1.1.symm.trans hw) (by decide)
      | launch => exact absurd (hok.1.1.symm.trans hw) (by decide)
      | _ => exact absurd ((show w.phase = .unlaunched from hok.1).symm.trans hw) (by decide)
    | inr c => exact execClient_sameRun h
  | supervisor => exact absurd rfl hj
  | reader stream =>
    rw [execReader_frame (show execReader stream c a w = some (b, w') from h)]
    exact ⟨rfl, rfl, rfl, rfl, rfl⟩
  | client index => exact execClient_sameRun h

namespace Launched

variable {options : StartOptions} {w w' : World}

/-- A step that leaves the lock, the phase and the documents alone. -/
theorem of_sameRun (h : Launched options w) (hrun : SameRun w w')
    (hlock : w'.lock = some .supervisor ↔ w.lock = some .supervisor) : Launched options w' where
  lock := by rw [hrun.phase, hlock]; exact h.lock
  created hp := (h.created (hrun.phase.symm.trans hp)).of_sameRun hrun

/-- A step that leaves the lock alone, in a phase in which nobody waits for it. -/
theorem of_phase (h : Launched options w) (hlock : w'.lock = w.lock) (hphase : w'.phase = w.phase)
    (hw : w.phase ≠ .launched) : Launched options w' where
  lock := by rw [hphase, hlock]; exact h.lock
  created hp := absurd (hphase.symm.trans hp) hw

theorem step {β : Type} {i : Thread} {c : i.Cmd β} {a : Answer} {b : β}
    (hok : launchProtocol options i c a w) (hexec : exec i c a w = some (b, w'))
    (h : Launched options w) : Launched options w' := by
  cases i with
  | start =>
    cases c with
    | inl c =>
      have hlock : w'.lock = w.lock := by
        rw [execCreate_frame (show execCreate c a w = some (b, w') from hexec)]
      have hkeep (hp : w.phase ≠ .launched) (hp' : w'.phase = w.phase) : Launched options w' :=
        h.of_phase hlock hp' hp
      obtain hphase | ⟨hp, hp'⟩ := execCreate_phase hexec
      · cases c with
        | now => cases hexec; exact h
        | replaceState state => exact hkeep (by rw [hok.1.1]; decide) hphase
        | writeNewState state => exact hkeep (by rw [hok.1.1]; decide) hphase
        | launch => exact hkeep (by rw [hok.1.1]; decide) hphase
        | _ => exact hkeep (by rw [show w.phase = .unlaunched from hok.1]; decide) hphase
      · have hnot : w.lock ≠ some .supervisor := by
          intro hheld
          rw [h.lock.mpr hheld] at hp
          cases hp
        refine ⟨⟨fun hactive => ?_, fun hheld => absurd (hlock.symm.trans hheld) hnot⟩, fun _ => ?_⟩
        · rw [hactive] at hp'
          rcases hp' with hp' | hp' <;> cases hp'
        · cases c with
          | launch =>
            have hcreated := hok.1.2
            simp only [exec, execEither, execCreate] at hexec
            repeat' split at hexec
            all_goals cases hexec
            all_goals exact ⟨hcreated.documents, hcreated.ownerToken⟩
          | _ =>
            simp only [exec, execEither, execCreate, fallible, committed] at hexec
            repeat' split at hexec
            all_goals cases hexec
            all_goals simp [World.setState, hp] at hp'
    | inr c => exact h.of_sameRun (execClient_sameRun hexec) (execClient_lock (by decide) hexec)
  | supervisor =>
    cases c with
    | inl c =>
      cases c with
      | acquire =>
        simp only [exec, execEither, execLock] at hexec
        repeat' split at hexec
        all_goals cases hexec
        · exact h
        · exact ⟨⟨fun _ => rfl, fun _ => rfl⟩, fun h => by cases h⟩
      | release =>
        have hphase : w.phase = .active := hok.2
        simp only [exec, execEither, execLock, hphase, if_true] at hexec
        cases hexec
        exact ⟨⟨(fun h => by cases h), (fun h => by cases h)⟩, fun h => by cases h⟩
    | inr c =>
      have hphase : w.phase = .active := hok.2
      refine h.of_phase ?_ (execBody_phase hexec) (by rw [hphase]; decide)
      rw [execBody_frame (show execBody c a w = some (b, w') from hexec)]
  | reader stream =>
    rw [execReader_frame (show execReader stream c a w = some (b, w') from hexec)]
    exact h.of_sameRun ⟨rfl, rfl, rfl, rfl, rfl⟩ .rfl
  | client index =>
    exact h.of_sameRun (execClient_sameRun hexec) (execClient_lock (by simp) hexec)

end Launched

/-- Every run keeps the launch protocol and what follows from it. -/
theorem reach_launched (h : Machine.Reach ok setup.initial cfg) :
    Machine.Reach (fun i _ c a w => ok i c a w ∧ launchProtocol setup.options i c a w ∧
      Launched setup.options w) setup.initial cfg := by
  refine ((reach_launchProtocol h).with_invariant (J := Launched setup.options) ?_ ?_).mono ?_
  · exact fun i _ c a w b w' hok hexec => Launched.step hok.2 hexec
  · exact ⟨⟨nofun, nofun⟩, nofun⟩
  · exact fun i _ c a w h => ⟨h.1.1, h.1.2, h.2⟩

/-! ## The verification of the supervisor

To verify the supervisor is to verify what it does under its lock, from what it
finds when it acquires the lock. -/

/-- What the supervisor's commands guarantee about a view of the world. -/
def bodyGuarantee {O : Type} (V : World → O) (L : Interface BodyCmd O) : system.Condition
  | .supervisor, _, .inr c, a, w => ∀ b w', execBody c a w = some (b, w') → L.guar c (V w) b (V w')
  | _, _, _, _, _ => True

namespace SupervisorPhase

variable {O : Type} {V : World → O} {L : Interface BodyCmd O}

/-- The supervisor's interface over a view that it has to itself, up to the rely
    of `L`, while it is active. -/
def viewInterface (ok : system.Condition) (V : World → O) (L : Interface BodyCmd O) :
    Interface (Either LockCmd BodyCmd) World where
  step c w b w' := ∃ a, ok .supervisor c a w ∧ execEither execLock execBody c a w = some (b, w')
  rely w w' := w.phase = .active → w'.phase = .active ∧ L.rely (V w) (V w')
  guar c w b w' := match c with
    | .inl _ => True
    | .inr c => L.guar c (V w) b (V w')
  rely_refl _ := fun hw => ⟨hw, L.rely_refl _⟩
  rely_trans h h' := fun hw => ⟨(h' (h hw).1).1, L.rely_trans (h hw).2 (h' (h hw).1).2⟩

theorem wp_supervise_view {path : PathBuf} (pre : O → Prop)
    (hself : ∀ {β : Type} (c : BodyCmd β) a w b w', ok .supervisor (.inr c) a w →
      execBody c a w = some (b, w') → L.step c (V w) b (V w'))
    (hpre : ∀ a w w', ok .supervisor (.inl .acquire) a w →
      execLock .acquire a w = some (.ok (), w') → pre (V w'))
    (hwp : ∀ o, pre o → Proc.wp L (superviseAndMark path) (fun _ _ _ => True)
      (fun _ _ _ => True) () o) (w : World) :
    Proc.wp (viewInterface ok V L) (supervise path) (fun _ _ _ => True) (fun _ _ _ => True) () w := by
  refine Proc.wp_seq (fun _ _ w => w.phase = .active ∧ pre (V w)) (Proc.wp_attempt ?_)
    fun _ s w hw => ?_
  · rintro w _ r w' ⟨a, hok, h⟩
    refine ⟨trivial, ?_⟩
    cases r with
    | error e => trivial
    | ok u =>
      refine ⟨?_, hpre a w w' hok h⟩
      simp only [execEither, execLock] at h
      repeat' split at h
      all_goals cases h
      rfl
  have hbody : Proc.wp (viewInterface ok V L) ((superviseAndMark path).hoist .inr)
      (fun _ _ _ => True) (fun _ _ _ => True) s w := by
    apply Proc.wp_hoist
    refine Prog.wp_mono ?_ (Prog.wp_refine (I := fun w : World => w.phase = .active)
      ?_ ?_ ?_ (hwp (V w) hw.2) hw.1)
    · rintro ⟨_ | _, _⟩ _ _ <;> trivial
    · exact fun w w' hw hrely => hrely hw
    · rintro β c w b w' hw ⟨a, hok, h⟩
      exact ⟨(execBody_phase h).trans hw, hself c a w b w' hok h⟩
    · exact fun _ _ _ _ _ h => h
  refine Proc.wp_seq (fun _ _ _ => True)
    (Proc.wp_outcome (Proc.wp_mono hbody (fun _ _ _ => id) fun _ _ _ => id)) fun result s w _ => ?_
  exact Proc.wp_seq (fun _ _ _ => True) (Proc.wp_call fun _ _ _ _ _ => ⟨trivial, trivial⟩)
    fun _ s w _ => Proc.wp_ofExcept (fun _ _ => trivial) fun _ _ => trivial

end SupervisorPhase

section Verification

variable {O : Type} {V : World → O} {L : Interface BodyCmd O}

/-- The view of the supervisor describes it, where the others meet the rely of `L`
    while it is active. -/
theorem SupervisorPhase.describes_view
    (hother : ∀ {β : Type} j, j ≠ .supervisor → ∀ (c : system.Cmd j β) a w b w', ok j c a w →
      exec j c a w = some (b, w') → w.phase = .active → L.rely (V w) (V w')) :
    Machine.Describes (M := system) ok .supervisor id (SupervisorPhase.viewInterface ok V L) where
  self _ a _ _ _ hok h := ⟨a, hok, h⟩
  other j hj c a w b w' hok hexec hw :=
    ⟨active_of_other hj hexec hw, hother j hj c a w b w' hok hexec hw⟩

theorem SupervisorPhase.wp_initial (pre : O → Prop)
    (hself : ∀ {β : Type} (c : BodyCmd β) a w b w', ok .supervisor (.inr c) a w →
      execBody c a w = some (b, w') → L.step c (V w) b (V w'))
    (hpre : ∀ a w w', ok .supervisor (.inl .acquire) a w →
      execLock .acquire a w = some (.ok (), w') → pre (V w'))
    (hwp : ∀ path o, pre o →
      Proc.wp L (superviseAndMark path) (fun _ _ _ => True) (fun _ _ _ => True) () o) (w : World) :
    (setup.initial.thread .supervisor).wp (SupervisorPhase.viewInterface ok V L)
      (fun _ _ => True) w :=
  Prog.wp_bind (Prog.wp_mono (fun _ _ _ => Prog.wp_ret trivial)
    (SupervisorPhase.wp_supervise_view pre hself hpre (hwp _) w))

/-- The rule of the supervisor: from the weakest precondition of what it does
    under its lock, over a view `V` and from the assertion `pre`, follows what
    its steps guarantee in every run. -/
theorem reach_bodyGuarantee (pre : O → Prop)
    (hself : ∀ {β : Type} (c : BodyCmd β) a w b w', ok .supervisor (.inr c) a w →
      execBody c a w = some (b, w') → L.step c (V w) b (V w'))
    (hother : ∀ {β : Type} j, j ≠ .supervisor → ∀ (c : system.Cmd j β) a w b w', ok j c a w →
      exec j c a w = some (b, w') → w.phase = .active → L.rely (V w) (V w'))
    (hpre : ∀ a w w', ok .supervisor (.inl .acquire) a w →
      execLock .acquire a w = some (.ok (), w') → pre (V w'))
    (hwp : ∀ path o, pre o →
      Proc.wp L (superviseAndMark path) (fun _ _ _ => True) (fun _ _ _ => True) () o)
    (h : Machine.Reach ok setup.initial cfg) :
    Machine.Reach (fun i _ c a w => ok i c a w ∧ bodyGuarantee V L i c a w) setup.initial cfg := by
  refine Machine.Reach.strengthen (M := system) (t := fun _ : Unit => Thread.supervisor)
    (V := fun _ => id) (L := fun _ => SupervisorPhase.viewInterface ok V L)
    (Q := fun _ _ _ => True) (fun _ => SupervisorPhase.describes_view hother)
    (fun _ _ _ _ _ _ => trivial) (fun _ => SupervisorPhase.wp_initial pre hself hpre hwp _)
    (fun _ β c a w b w' hok hexec hguar => ⟨hok, ?_⟩) (fun j hj β c a w hok => ⟨hok, ?_⟩) h
  · cases c with
    | inl c => trivial
    | inr c =>
      intro b' w'' h
      have heq : some (b, w') = some (b', w'') := hexec.symm.trans h
      cases heq
      exact hguar
  · cases j with
    | supervisor => exact absurd rfl (hj ())
    | _ => trivial

/-- What the next command of the supervisor guarantees. -/
theorem nextGuarantee (pre : O → Prop)
    (hself : ∀ {β : Type} (c : BodyCmd β) a w b w', ok .supervisor (.inr c) a w →
      execBody c a w = some (b, w') → L.step c (V w) b (V w'))
    (hother : ∀ {β : Type} j, j ≠ .supervisor → ∀ (c : system.Cmd j β) a w b w', ok j c a w →
      exec j c a w = some (b, w') → w.phase = .active → L.rely (V w) (V w'))
    (hpre : ∀ a w w', ok .supervisor (.inl .acquire) a w →
      execLock .acquire a w = some (.ok (), w') → pre (V w'))
    (hwp : ∀ path o, pre o →
      Proc.wp L (superviseAndMark path) (fun _ _ _ => True) (fun _ _ _ => True) () o)
    (h : Machine.Reach ok setup.initial cfg) {β : Type} {c : BodyCmd β}
    {k : β → Prog (system.Cmd .supervisor) (Except AppError Unit)} {a : Answer} {b : β} {w : World}
    (hc : cfg.thread .supervisor = .exec (.inr c) k) (hok : ok .supervisor (.inr c) a cfg.world)
    (hexec : execBody c a cfg.world = some (b, w)) : L.guar c (V cfg.world) b (V w) :=
  (SupervisorPhase.describes_view (V := V) (L := L) hother).guar (fun _ _ _ _ _ => trivial)
    (SupervisorPhase.wp_initial pre hself hpre hwp _) h hc hok hexec

end Verification

end Procherd
