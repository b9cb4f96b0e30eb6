-- SUMMARY: What an observer of a run may conclude from `state.json` and a test of the lock: the terminal boundary, and when a run is reported orphaned or given up.
import Procherd.Lifecycle

/-!
# Observation

An observer reads `state.json`, tests the lock, and reads `state.json` again if
it found the lock free and the state live. The reads and the test belong to
different moments of the supervisor's life. What the observation says about the
present follows from the order of these moments, because the phase only moves
forward.
-/

namespace Procherd

open Interaction

/-! ## The order of the phases -/

/-- The phases that may come after a phase, itself included. -/
def Phase.mayBecome : Phase → Phase → Bool
  | .unlaunched, _ => true
  | .launchFailed, .launchFailed => true
  | .launched, .launched | .launched, .active | .launched, .released => true
  | .active, .active | .active, .released => true
  | .released, .released => true
  | _, _ => false

namespace Phase

/-- The supervisor has released its lock, or was never launched. -/
def finished : Phase → Bool
  | .released | .launchFailed => true
  | _ => false

/-- The supervisor has been launched. -/
def supervised : Phase → Bool
  | .launched | .active | .released => true
  | _ => false

theorem mayBecome_refl (p : Phase) : p.mayBecome p := by cases p <;> rfl

theorem mayBecome_trans {p q r : Phase} (h : p.mayBecome q) (h' : q.mayBecome r) :
    p.mayBecome r := by
  revert h h'
  cases p <;> cases q <;> cases r <;> decide

theorem finished_mayBecome {p q : Phase} (hp : p.finished) (h : p.mayBecome q) : q.finished := by
  revert hp h
  cases p <;> cases q <;> decide

theorem supervised_mayBecome {p q : Phase} (hp : p.supervised) (h : p.mayBecome q) :
    q.supervised := by
  revert hp h
  cases p <;> cases q <;> decide

/-- Once the supervisor has been active, it is finished when it is not. -/
theorem finished_of_late {p q : Phase} (hp : p.early = false) (h : p.mayBecome q)
    (hq : q ≠ .active) : q.finished := by
  revert hp h hq
  cases p <;> cases q <;> decide

theorem released_mayBecome {p : Phase} (h : Phase.released.mayBecome p) : p = .released := by
  revert h
  cases p <;> decide

end Phase

variable [Toolchain]

theorem exec_mayBecome {β : Type} {i : Thread} {c : i.Cmd β} {a : Answer} {w w' : World} {b : β}
    (h : exec i c a w = some (b, w')) : w.phase.mayBecome w'.phase := by
  have hkeep (hp : w'.phase = w.phase) : w.phase.mayBecome w'.phase := by
    rw [hp]; exact Phase.mayBecome_refl _
  cases i with
  | start =>
    cases c with
    | inl c =>
      obtain hp | ⟨hp, -⟩ := execCreate_phase h
      · exact hkeep hp
      · rw [hp]; rfl
    | inr c => exact hkeep (execClient_phase h)
  | supervisor =>
    cases c with
    | inl c =>
      obtain rfl | ⟨hp, hp'⟩ | ⟨hp, hp'⟩ := execLock_phase h
      · exact hkeep rfl
      · rw [hp, hp']; rfl
      · rw [hp, hp']; rfl
    | inr c => exact hkeep (execBody_phase h)
  | reader stream => exact hkeep (execReader_phase h)
  | client index => exact hkeep (execClient_phase h)

/-! ## What an observer relies on -/

/-- The lock says when the supervisor is active, and before that the run is as
    it was created. -/
structure Observable (w : World) : Prop where
  lock : w.phase = .active ↔ w.lock = some .supervisor
  early : w.phase.early → ∀ state, w.state? = some state → state.status = .created

namespace Observable

variable {w w' : World}

omit [Toolchain] in
/-- A terminal state is only there once the supervisor has been active. -/
theorem late (h : Observable w) {state : RunState} (hstate : w.state? = some state)
    (hterminal : state.status.isTerminal) : w.phase.early = false := by
  cases hearly : w.phase.early with
  | false => rfl
  | true =>
    rw [h.early hearly state hstate] at hterminal
    cases hterminal

omit [Toolchain] in
theorem not_active_of_free (h : Observable w) (hfree : w.lock = none) : w.phase ≠ .active := by
  intro hactive
  rw [h.lock.mp hactive] at hfree
  cases hfree

end Observable

/-- The part of `Observable` about the documents. -/
def CreatedEarly (w : World) : Prop :=
  w.phase.early → ∀ state, w.state? = some state → state.status = .created

namespace CreatedEarly

variable {w w' : World}

omit [Toolchain] in
theorem of_sameRun (h : CreatedEarly w) (hrun : SameRun w w') : CreatedEarly w' := by
  intro hearly state hstate
  rw [hrun.phase] at hearly
  rw [World.state?, hrun.stateJson] at hstate
  exact h hearly state hstate

theorem step {options : StartOptions} {β : Type} {i : Thread} {c : i.Cmd β} {a : Answer} {b : β}
    (hok : launchProtocol options i c a w) (hexec : exec i c a w = some (b, w'))
    (h : CreatedEarly w) : CreatedEarly w' := by
  -- A step of the supervisor leads to a phase that is not early.
  have hlate (hphase : w'.phase.early = false) : CreatedEarly w' := by
    intro hearly
    rw [hphase] at hearly
    cases hearly
  cases i with
  | start =>
    cases c with
    | inl c =>
      cases c with
      | now => cases hexec; exact h
      | writeNewState state =>
        obtain ⟨-, -, requests, createdAtMs, -, -, rfl⟩ := hok.1
        have hset : CreatedEarly (w.setState (options.initialState requests createdAtMs)) := by
          intro _ state hstate
          cases hstate
          rfl
        obtain ⟨_, _, _, rfl | rfl⟩ | ⟨_, _, rfl⟩ := committed_cases hexec
        · exact h
        · exact hset
        · exact hset
      | createState =>
        obtain ⟨_, _, _, rfl⟩ | ⟨_, hexec⟩ := fallible_cases hexec
        · exact h
        · cases hexec
          exact fun _ state hstate => nomatch hstate
      | launch =>
        have hphase : w.phase = .unlaunched := hok.1.1
        simp only [exec, execEither, execCreate] at hexec
        repeat' split at hexec
        all_goals cases hexec
        · exact hlate rfl
        · exact fun _ => h (by rw [hphase]; rfl)
      | replaceState state =>
        have hphase : w.phase = .launchFailed := hok.1.1
        refine hlate ?_
        have hsame := execCreate_phase
          (show execCreate (.replaceState state) a w = some (b, w') from hexec)
        rw [hphase] at hsame
        obtain hsame | ⟨hsame, -⟩ := hsame
        · rw [hsame]; rfl
        · cases hsame
      | createDir =>
        obtain ⟨_, -, rfl⟩ | ⟨-, rfl⟩ := createDir_cases hexec <;> exact h
      | _ =>
        obtain ⟨_, _, _, rfl⟩ | ⟨_, hexec⟩ := fallible_cases hexec
        · exact h
        · cases hexec; exact h
    | inr c => exact h.of_sameRun (execClient_sameRun hexec)
  | supervisor =>
    cases c with
    | inl c =>
      obtain rfl | ⟨-, hphase⟩ | ⟨-, hphase⟩ := execLock_phase hexec
      · exact h
      · exact hlate (by rw [hphase]; rfl)
      · exact hlate (by rw [hphase]; rfl)
    | inr c =>
      have hphase : w.phase = .active := hok.2
      exact hlate (by rw [execBody_phase hexec, hphase]; rfl)
  | reader stream =>
    rw [execReader_frame (show execReader stream c a w = some (b, w') from hexec)]
    exact h.of_sameRun ⟨rfl, rfl, rfl, rfl, rfl⟩
  | client index => exact h.of_sameRun (execClient_sameRun hexec)

end CreatedEarly

variable {setup : Setup} {ok : system.Condition} {cfg : system.Config}

/-- Every run is observable, and records its lifecycle. -/
theorem reach_observable (h : Machine.Reach ok setup.initial cfg) :
    Machine.Reach (fun i _ c a w => ok i c a w ∧ launchProtocol setup.options i c a w ∧
      Observable w ∧ Recorded w) setup.initial cfg := by
  refine ((reach_persist h).with_invariant (J := fun w => CreatedEarly w ∧ Recorded w) ?_ ?_).mono ?_
  · exact fun i _ c a w b w' hok hexec hw => ⟨hw.1.step hok.1.2.1 hexec,
      hw.2.step hok.1.2.1 hok.2 hexec⟩
  · exact ⟨(fun _ state hstate => nomatch hstate), .nil, fun h => absurd rfl h⟩
  · exact fun i _ c a w h => ⟨h.1.1.1, h.1.1.2.1, ⟨h.1.1.2.2.lock, h.2.1⟩, h.2.2⟩

/-- What the observers rely on holds of every world that a run leads to. -/
theorem reach_world (h : Machine.Reach ok setup.initial cfg) :
    Observable cfg.world ∧ Recorded cfg.world := by
  have hlaunched : Launched setup.options cfg.world :=
    (reach_launchProtocol h).invariant (fun i _ c a w b w' hok => Launched.step hok.2)
      ⟨⟨nofun, nofun⟩, nofun⟩
  have ⟨hearly, hrecorded⟩ : CreatedEarly cfg.world ∧ Recorded cfg.world :=
    (reach_persist h).invariant (J := fun w => CreatedEarly w ∧ Recorded w)
      (fun i _ c a w b w' hok hexec hw => ⟨hw.1.step hok.1.2.1 hexec,
        hw.2.step hok.1.2.1 hok.2 hexec⟩)
      ⟨(fun _ state hstate => nomatch hstate), .nil, fun h => absurd rfl h⟩
  exact ⟨⟨hlaunched.lock, hearly⟩, hrecorded⟩

/-- A later world, with the last test of the lock by `t` unchanged. -/
structure Later (t : Thread) (w w' : World) : Prop where
  phase : w.phase.mayBecome w'.phase
  tested : w'.tested t = w.tested t
  final : w.phase = .released → w'.state? = w.state? ∧ w'.history = w.history

namespace Later

variable {t : Thread} {w w' w₁ w₂ w₃ : World}

omit [Toolchain] in
theorem refl (t : Thread) (w : World) : Later t w w :=
  ⟨Phase.mayBecome_refl _, rfl, fun _ => ⟨rfl, rfl⟩⟩

omit [Toolchain] in
theorem trans (h : Later t w₁ w₂) (h' : Later t w₂ w₃) : Later t w₁ w₃ where
  phase := Phase.mayBecome_trans h.phase h'.phase
  tested := h'.tested.trans h.tested
  final hphase := by
    have hnext := h'.final (Phase.released_mayBecome (hphase ▸ h.phase))
    exact ⟨hnext.1.trans (h.final hphase).1, hnext.2.trans (h.final hphase).2⟩

end Later

/-- After its release, nobody writes the documents. -/
theorem final_of_released {options : StartOptions} {β : Type} {i : Thread} {c : i.Cmd β}
    {a : Answer} {w w' : World} {b : β} (hok : launchProtocol options i c a w)
    (hexec : exec i c a w = some (b, w')) (hphase : w.phase = .released) :
    w'.state? = w.state? ∧ w'.history = w.history := by
  have hsame {w w' : World} (h : SameRun w w') : w'.state? = w.state? ∧ w'.history = w.history :=
    ⟨by rw [World.state?, h.stateJson]; rfl, h.history⟩
  cases i with
  | start =>
    cases c with
    | inl c =>
      cases c with
      | now => cases hexec; exact ⟨rfl, rfl⟩
      | replaceState state => exact absurd (hok.1.1.symm.trans hphase) (by decide)
      | writeNewState state => exact absurd (hok.1.1.symm.trans hphase) (by decide)
      | launch => exact absurd (hok.1.1.symm.trans hphase) (by decide)
      | _ => exact absurd ((show w.phase = .unlaunched from hok.1).symm.trans hphase) (by decide)
    | inr c => exact hsame (execClient_sameRun hexec)
  | supervisor =>
    cases c with
    | inl c =>
      rw [execLock_frame (show execLock c a w = some (b, w') from hexec)]
      exact ⟨rfl, rfl⟩
    | inr c => exact absurd ((show w.phase = .active from hok.2).symm.trans hphase) (by decide)
  | reader stream =>
    rw [execReader_frame (show execReader stream c a w = some (b, w') from hexec)]
    exact ⟨rfl, rfl⟩
  | client index => exact hsame (execClient_sameRun hexec)

/-- What the steps of the other threads leave an observer. -/
structure ObserverRely (t : Thread) (w w' : World) : Prop where
  later : Later t w w'
  foundFree : w'.foundFree t = w.foundFree t
  lock : w.lock ≠ some t → w'.lock ≠ some t

omit [Toolchain] in
theorem ObserverRely.refl (t : Thread) (w : World) : ObserverRely t w w :=
  ⟨.refl t w, rfl, id⟩

omit [Toolchain] in
theorem ObserverRely.trans {t : Thread} {w₁ w₂ w₃ : World} (h : ObserverRely t w₁ w₂)
    (h' : ObserverRely t w₂ w₃) : ObserverRely t w₁ w₃ :=
  ⟨h.later.trans h'.later, h'.foundFree.trans h.foundFree, h'.lock ∘ h.lock⟩

/-- The fields of the world that only concern the test of the lock. -/
theorem execClient_tested {t t' : Thread} (ht : t' ≠ t) {β : Type} {c : ClientCmd β} {a : Answer}
    {w w' : World} {b : β} (h : execClient t' c a w = some (b, w')) :
    w'.tested t = w.tested t ∧ w'.foundFree t = w.foundFree t ∧
      (w.lock ≠ some t → w'.lock ≠ some t) := by
  cases c with
  | readState =>
    obtain ⟨_, _, _, rfl⟩ | ⟨_, h⟩ := fallible_cases h
    · exact ⟨rfl, rfl, id⟩
    · cases h
      exact ⟨rfl, Function.update_of_ne ht.symm _ _, id⟩
  | tryLock =>
    obtain ⟨_, _, _, rfl⟩ | ⟨_, h⟩ := fallible_cases h
    · exact ⟨rfl, rfl, id⟩
    · simp only at h
      repeat' split at h
      all_goals cases h
      · exact ⟨rfl, rfl, id⟩
      · exact ⟨rfl, rfl, id⟩
      · exact ⟨Function.update_of_ne ht.symm _ _, rfl, id⟩
      · refine ⟨Function.update_of_ne ht.symm _ _, Function.update_of_ne ht.symm _ _, fun _ hlock => ?_⟩
        exact ht (Option.some.inj hlock)
  | unlock =>
    have hw' : w' = if w.lock = some t' then { w with lock := none } else w := by
      obtain ⟨_, _, _, hw'⟩ | ⟨_, h⟩ := fallible_cases h
      · exact hw'
      · exact (congrArg Prod.snd (Option.some.inj h)).symm
    rw [hw']
    split
    · exact ⟨rfl, rfl, fun _ => nofun⟩
    · exact ⟨rfl, rfl, id⟩
  | _ =>
    simp only [execClient, fallible, committed, fallibleIo] at h
    repeat' split at h
    all_goals cases h <;> exact ⟨rfl, rfl, id⟩

omit [Toolchain] in
/-- Who holds the lock after a command of its owner. -/
theorem execLock_lock {β : Type} {c : LockCmd β} {a : Answer} {w w' : World} {b : β}
    (h : execLock c a w = some (b, w')) :
    w'.lock = w.lock ∨ w'.lock = none ∨ w'.lock = some .supervisor := by
  cases c <;> simp only [execLock] at h <;> repeat' split at h
  all_goals cases h
  all_goals first | exact .inl rfl | exact .inr (.inl rfl) | exact .inr (.inr rfl)

/-- The other threads leave alone what concerns a thread's tests of the lock. -/
theorem exec_tested {t : Thread} (ht : t ≠ .supervisor) {β : Type} {j : Thread} (hj : j ≠ t)
    {c : j.Cmd β} {a : Answer} {w w' : World} {b : β} (hexec : exec j c a w = some (b, w')) :
    w'.tested t = w.tested t ∧ w'.foundFree t = w.foundFree t ∧
      (w.lock ≠ some t → w'.lock ≠ some t) := by
  cases j with
  | start =>
    cases c with
    | inl c =>
      rw [execCreate_frame (show execCreate c a w = some (b, w') from hexec)]
      exact ⟨rfl, rfl, id⟩
    | inr c => exact execClient_tested hj hexec
  | supervisor =>
    cases c with
    | inl c =>
      have hlock := execLock_lock (show execLock c a w = some (b, w') from hexec)
      rw [execLock_frame (show execLock c a w = some (b, w') from hexec)]
      refine ⟨rfl, rfl, fun hne => ?_⟩
      obtain hlock | hlock | hlock := hlock
      · rw [hlock]; exact hne
      · rw [hlock]; nofun
      · rw [hlock]; exact fun h => ht (Option.some.inj h).symm
    | inr c =>
      rw [execBody_frame (show execBody c a w = some (b, w') from hexec)]
      exact ⟨rfl, rfl, id⟩
  | reader stream =>
    rw [execReader_frame (show execReader stream c a w = some (b, w') from hexec)]
    exact ⟨rfl, rfl, id⟩
  | client index => exact execClient_tested hj hexec

theorem observerRely_of_other {options : StartOptions} {t : Thread} (ht : t ≠ .supervisor)
    {β : Type} {j : Thread} (hj : j ≠ t) {c : j.Cmd β} {a : Answer} {w w' : World} {b : β}
    (hok : launchProtocol options j c a w) (hexec : exec j c a w = some (b, w')) :
    ObserverRely t w w' := by
  have ⟨htested, hfound, hlock⟩ := exec_tested ht hj hexec
  exact ⟨⟨exec_mayBecome hexec, htested, final_of_released hok hexec⟩, hfound, hlock⟩

/-! ## The commands of an observer -/

/-- An error other than the one with which `start` gives up on its run. -/
def NotSupervisorExit {σ : Type} (e : AppError) (_ : σ) (_ : World) : Prop :=
  e.kind ≠ "supervisor_exit"

omit [Toolchain] in
theorem Fault.error_kind (fault : Fault) : fault.error.kind ≠ "supervisor_exit" := by
  cases fault with
  | io error => change "io" ≠ "supervisor_exit"; decide
  | document message => change "integrity" ≠ "supervisor_exit"; decide

omit [Toolchain] in
theorem missingRun_kind (w : World) : (missingRun w).kind ≠ "supervisor_exit" := by
  change "not_found" ≠ "supervisor_exit"
  decide

/-- The parts of the world that a step of the observer itself keeps. -/
structure SameMoment (t : Thread) (w w' : World) : Prop where
  phase : w'.phase = w.phase
  tested : w'.tested t = w.tested t
  state : w'.state? = w.state?
  history : w'.history = w.history

namespace SameMoment

variable {t : Thread} {w w' : World}

omit [Toolchain] in
theorem later (h : SameMoment t w w') : Later t w w' where
  phase := h.phase ▸ Phase.mayBecome_refl _
  tested := h.tested
  final _ := ⟨h.state, h.history⟩

end SameMoment

section Commands

variable {t : Thread} {a : Answer} {w w' : World}

theorem execClient_readState {r : Except AppError RunState}
    (h : execClient t .readState a w = some (r, w')) :
    SameMoment t w w' ∧ w'.lock = w.lock ∧ (∀ state, r = .ok state → w.state? = some state) ∧
      ∀ e, r = .error e → e.kind ≠ "supervisor_exit" := by
  obtain ⟨fault, -, rfl, rfl⟩ | ⟨-, h⟩ := fallible_cases h
  · refine ⟨⟨rfl, rfl, rfl, rfl⟩, rfl, (fun _ h => nomatch h), fun e h => ?_⟩
    cases h
    exact fault.error_kind
  have hr := congrArg Prod.fst (Option.some.inj h)
  have hw := congrArg Prod.snd (Option.some.inj h)
  simp only at hr hw
  subst hw
  refine ⟨⟨rfl, rfl, rfl, rfl⟩, rfl, fun state hstate => ?_, fun e he => ?_⟩
  · rw [hstate] at hr
    split at hr
    · cases hfile : w.stateJson.read w.statePath with
      | error e => rw [hfile] at hr; cases hr
      | ok found =>
        rw [hfile] at hr
        rw [checkState_eq hr]
        exact StateFile.read_ok hfile
    · cases hr
  · rw [he] at hr
    split at hr
    · cases hfile : w.stateJson.read w.statePath with
      | error e' =>
        rw [hfile] at hr
        cases hr
        obtain hkind | hkind := StateFile.read_error hfile <;> rw [hkind] <;> decide
      | ok found =>
        rw [hfile] at hr
        have hkind : e.kind = "integrity" := checkState_error hr
        rw [hkind]
        decide
    · cases hr
      exact missingRun_kind w

/-- What a test of the lock at `w₁` that found it held, or free, leaves at `w`. -/
structure LockTest (t : Thread) (active : Bool) (w₁ w : World) : Prop where
  own : w₁.lock ≠ some t
  result : active = w₁.lock.isSome
  phase : w₁.phase.mayBecome w.phase
  tested : w.tested t = some w₁.phase

theorem execClient_tryLock {r : Except AppError Bool}
    (h : execClient t .tryLock a w = some (r, w')) (hown : w.lock ≠ some t) :
    (∀ e, r = .error e → e.kind ≠ "supervisor_exit") ∧ ∀ free, r = .ok free →
      LockTest t (!free) w w' ∧ w'.foundFree t = (free || w.foundFree t) ∧
        (free = false → w'.lock ≠ some t) := by
  obtain ⟨fault, -, rfl, rfl⟩ | ⟨-, h⟩ := fallible_cases h
  · exact ⟨fun e h => by cases h; exact fault.error_kind, nofun⟩
  simp only at h
  split at h
  · cases h
    exact ⟨fun e h => by cases h; exact missingRun_kind w, nofun⟩
  split at h
  · cases h
    exact ⟨fun e h => by cases h; decide, nofun⟩
  split at h
  · rename_i held hheld
    cases h
    refine ⟨nofun, fun free hfree => ?_⟩
    cases hfree
    refine ⟨⟨hown, by rw [hheld]; rfl, Phase.mayBecome_refl _, Function.update_self _ _ _⟩, rfl,
      fun _ => hown⟩
  · rename_i hfree
    cases h
    refine ⟨nofun, fun free hr => ?_⟩
    cases hr
    exact ⟨⟨hown, by rw [hfree]; rfl, Phase.mayBecome_refl _, Function.update_self _ _ _⟩,
      Function.update_self _ _ _, nofun⟩

theorem execClient_unlock {r : Except AppError Unit}
    (h : execClient t .unlock a w = some (r, w')) :
    SameMoment t w w' ∧ w'.foundFree t = w.foundFree t ∧ w'.lock ≠ some t ∧
      ∀ e, r = .error e → e.kind ≠ "supervisor_exit" := by
  have hw' : w' = (if w.lock = some t then { w with lock := none } else w) ∧
      ∀ e, r = .error e → e.kind ≠ "supervisor_exit" := by
    obtain ⟨fault, -, rfl, hw'⟩ | ⟨_, h⟩ := fallible_cases h
    · exact ⟨hw', fun e h => by cases h; exact fault.error_kind⟩
    · cases h
      exact ⟨rfl, nofun⟩
  obtain ⟨rfl, herr⟩ := hw'
  split
  · exact ⟨⟨rfl, rfl, rfl, rfl⟩, rfl, nofun, herr⟩
  · rename_i hne
    exact ⟨⟨rfl, rfl, rfl, rfl⟩, rfl, hne, herr⟩

end Commands

/-! ## The observation -/

section Observer

variable (t : Thread) (C : {β : Type} → ClientCmd β → Answer → World → Prop)

/-- The interface of an observer, each step of which meets `C`. -/
@[reducible] def observer : Interface ClientCmd World where
  step c w b w' := ∃ a, C c a w ∧ execClient t c a w = some (b, w')
  rely := ObserverRely t
  guar _ _ _ _ := True
  rely_refl := .refl t
  rely_trans := .trans

/-- The moments that an observation was made at, all of them after phase `p`. -/
inductive Observed (p : Phase) : RunState → Bool → World → Prop where
  /-- The lock was found held. -/
  | held {state : RunState} {a : Answer} {w₁ w : World} (hsince : p.mayBecome w₁.phase)
      (htry : C .tryLock a w₁) (htest : LockTest t true w₁ w) : Observed p state true w
  /-- The lock was found free after a terminal state was read. -/
  | terminal {state : RunState} {a a₁ : Answer} {w₀ w₁ w : World} (hread : C .readState a w₀)
      (hstate : w₀.state? = some state) (hterminal : state.status.isTerminal)
      (hphase : w₀.phase.mayBecome w₁.phase) (htry : C .tryLock a₁ w₁)
      (htest : LockTest t false w₁ w) : Observed p state false w
  /-- The lock was found free, and the state read after it. -/
  | fresh {state : RunState} {a₁ a₂ : Answer} {w₁ w₂ w : World} (hsince : p.mayBecome w₁.phase)
      (htry : C .tryLock a₁ w₁) (htest : LockTest t false w₁ w₂) (hfound : w₂.foundFree t = true)
      (hread : C .readState a₂ w₂) (hstate : w₂.state? = some state) (hlater : Later t w₂ w) :
      Observed p state false w

variable {t C} {w : World} {s : Unit}

omit [Toolchain] in
theorem LockTest.later {active : Bool} {w₁ w w' : World} (h : LockTest t active w₁ w)
    (hlater : Later t w w') : LockTest t active w₁ w' where
  own := h.own
  result := h.result
  phase := Phase.mayBecome_trans h.phase hlater.phase
  tested := hlater.tested.trans h.tested

theorem wp_supervisorActive (hlock : w.lock ≠ some t) :
    Proc.wp (observer t C) supervisorActive
      (fun active _ w' => w'.lock ≠ some t ∧ ∃ a w₁, C .tryLock a w₁ ∧
        w.phase.mayBecome w₁.phase ∧ LockTest t active w₁ w' ∧
        (active = false → w'.foundFree t = true)) NotSupervisorExit s w := by
  refine Proc.wp_bind (Proc.wp_attempt ?_)
  rintro w₁ hrely r w₂ ⟨a, htry, hexec⟩
  refine ⟨trivial, ?_⟩
  have ⟨herr, hok⟩ := execClient_tryLock hexec (hrely.lock hlock)
  cases r with
  | error e => exact herr e rfl
  | ok free =>
    obtain ⟨htest, hfound, hown⟩ := hok free rfl
    cases free with
    | false => exact Proc.wp_pure ⟨hown rfl, a, w₁, htry, hrely.later.phase, htest, nofun⟩
    | true =>
      refine Proc.wp_bind (Proc.wp_attempt ?_)
      rintro w₃ hrely' r w₄ ⟨_, -, hexec'⟩
      refine ⟨trivial, ?_⟩
      obtain ⟨hsame, hfound', hown', herr'⟩ := execClient_unlock hexec'
      cases r with
      | error e => exact herr' e rfl
      | ok u =>
        refine Proc.wp_pure ⟨hown', a, w₁, htry, hrely.later.phase,
          (htest.later hrely'.later).later hsame.later, fun _ => ?_⟩
        rw [hfound', hrely'.foundFree, hfound]
        rfl

omit [Toolchain] in
theorem checkRunSchema_error {state : RunState} {e : AppError}
    (h : checkRunSchema state = .error e) : e.kind ≠ "supervisor_exit" := by
  unfold checkRunSchema at h
  split at h
  · cases h
    change "integrity" ≠ "supervisor_exit"
    decide
  · cases h

/-- One read of the state, which a verified state came from. -/
theorem wp_readState (hlock : w.lock ≠ some t) {Q : RunState → Unit → World → Prop}
    (h : ∀ state a w₁ w', ObserverRely t w w₁ → C .readState a w₁ → w₁.state? = some state →
      Later t w₁ w' → w'.lock ≠ some t → Q state s w') :
    Proc.wp (observer t C) (Proc.attempt .readState) Q NotSupervisorExit s w := by
  apply Proc.wp_attempt
  rintro w₁ hrely r w₂ ⟨a, hread, hexec⟩
  refine ⟨trivial, ?_⟩
  obtain ⟨hsame, hkeep, hok, herr⟩ := execClient_readState hexec
  cases r with
  | error e => exact herr e rfl
  | ok state =>
    exact h state a w₁ w₂ hrely hread (hok state rfl) hsame.later (hkeep ▸ hrely.lock hlock)

theorem wp_observeStateAndActivity (hlock : w.lock ≠ some t) :
    Proc.wp (observer t C) observeStateAndActivity
      (fun r _ w' => w'.lock ≠ some t ∧ w.phase.mayBecome w'.phase ∧
        Observed t C w.phase r.1 r.2 w')
      NotSupervisorExit s w := by
  refine Proc.wp_bind (wp_readState hlock fun state a w₀ w' hrely hread hstate hlater hlock => ?_)
  refine Proc.wp_bind (Proc.wp_ofExcept (fun _ _ => ?_) fun _ => checkRunSchema_error)
  refine Proc.wp_seq _ (wp_supervisorActive hlock) fun active s w₂ h => ?_
  obtain ⟨hlock, a₁, w₁, htry, hphase, htest, hfound⟩ := h
  have hsince : w.phase.mayBecome w₁.phase := Phase.mayBecome_trans
    (Phase.mayBecome_trans hrely.later.phase hlater.phase) hphase
  have hphase₂ := Phase.mayBecome_trans hsince htest.phase
  cases active with
  | true => exact Proc.wp_pure ⟨hlock, hphase₂, .held hsince htry htest⟩
  | false =>
    cases hlive : state.status.isLive with
    | false =>
      have hterminal : state.status.isTerminal := by
        rw [RunStatus.isLive_eq, Bool.not_eq_false'] at hlive
        exact hlive
      exact Proc.wp_pure ⟨hlock, hphase₂, .terminal hread hstate hterminal
        (Phase.mayBecome_trans hlater.phase hphase) htry htest⟩
    | true =>
      refine Proc.wp_bind (wp_readState hlock fun state a w₃ w₄ hrely₃ hread hstate hlater₄ hlock => ?_)
      refine Proc.wp_bind (Proc.wp_ofExcept (fun _ _ => ?_) fun _ => checkRunSchema_error)
      refine Proc.wp_pure ⟨hlock, Phase.mayBecome_trans hphase₂
        (Phase.mayBecome_trans hrely₃.later.phase hlater₄.phase), ?_⟩
      exact .fresh hsince htry (htest.later hrely₃.later) (hrely₃.foundFree.trans (hfound rfl)) hread hstate
        hlater₄

/-! ## The other commands -/

/-- The commands that neither read the state nor touch the lock. -/
def ClientCmd.quiet {β : Type} : ClientCmd β → Bool
  | .readState | .tryLock | .unlock => false
  | _ => true

theorem execClient_quiet {β : Type} {c : ClientCmd β} (hc : c.quiet) {a : Answer} {w w' : World}
    {b : β} (h : execClient t c a w = some (b, w')) : ObserverRely t w w' := by
  cases c with
  | readState => cases hc
  | tryLock => cases hc
  | unlock => cases hc
  | _ =>
    simp only [execClient, fallible, committed, fallibleIo] at h
    repeat' split at h
    all_goals cases h <;> exact ⟨⟨Phase.mayBecome_refl _, rfl, fun _ => ⟨rfl, rfl⟩⟩, rfl, id⟩

theorem wp_quiet {α σ : Type} {s : σ} {c : ClientCmd α} (hc : c.quiet) {Q : α → σ → World → Prop}
    {E : AppError → σ → World → Prop} (h : ∀ a w', ObserverRely t w w' → Q a s w') :
    Proc.wp (observer t C) (Proc.call c) Q E s w := by
  apply Proc.wp_call
  rintro w₁ hrely r w₂ ⟨a, -, hexec⟩
  exact ⟨trivial, h r w₂ (hrely.trans (execClient_quiet hc hexec))⟩

theorem wp_quiet_attempt {α σ : Type} {s : σ} {c : ClientCmd (Except AppError α)} (hc : c.quiet)
    {Q : α → σ → World → Prop} {E : AppError → σ → World → Prop}
    (h : ∀ a w', ObserverRely t w w' → Q a s w') (hE : ∀ e w', E e s w') :
    Proc.wp (observer t C) (Proc.attempt c) Q E s w := by
  apply Proc.wp_attempt
  rintro w₁ hrely r w₂ ⟨a, -, hexec⟩
  refine ⟨trivial, ?_⟩
  cases r with
  | ok x => exact h x w₂ (hrely.trans (execClient_quiet hc hexec))
  | error e => exact hE e w₂

/-! ### wait and stop -/

/-- What a view says about the supervisor where `P` is what a terminal state
    with a free lock says. -/
def Boundary (P : World → Prop) (view : RunView) (w : World) : Prop :=
  view.supervisorActive = false → view.state.status.isTerminal → P w

/-- `P` is kept by the steps of the other threads. -/
def Stable (t : Thread) (P : World → Prop) : Prop := ∀ w w', ObserverRely t w w' → P w → P w'

section Commands

variable {P : World → Prop} (hP : Stable t P)
  (hobserved : ∀ p state w, Observed t C p state false w → state.status.isTerminal → P w)

include hobserved in
theorem wp_loadView (hlock : w.lock ≠ some t) :
    Proc.wp (observer t C) loadView (fun view _ w' => w'.lock ≠ some t ∧ Boundary P view w')
      (fun _ _ _ => True) s w := by
  refine Proc.wp_seq _ (Proc.wp_mono (wp_observeStateAndActivity hlock) (fun _ _ _ => id)
    fun _ _ _ _ => trivial) fun r s w h => ?_
  obtain ⟨hlock, -, hr⟩ := h
  refine Proc.wp_pure ⟨hlock, fun hactive hterminal => ?_⟩
  change r.2 = false at hactive
  rw [hactive] at hr
  exact hobserved _ _ _ hr hterminal

include hobserved in
theorem wp_wait (runId : String) (timeoutMs : Nat) (hlock : w.lock ≠ some t) :
    Proc.wp (observer t C) (wait runId .exit timeoutMs) (fun _ _ => P) (fun _ _ _ => True) s w := by
  refine Proc.wp_bind (Proc.wp_throwIf (fun _ => trivial) fun _ => ?_)
  refine Proc.wp_bind (wp_quiet rfl fun now w' hrely => ?_)
  refine Proc.wp_repeatUntil (fun _ w => w.lock ≠ some t) (fun s w hlock => ?_) (hrely.lock hlock)
  refine Proc.wp_seq _ (wp_loadView hobserved hlock) fun view s w h => ?_
  obtain ⟨hlock, hview⟩ := h
  refine Proc.wp_bind (Proc.wp_throwIf (fun _ => trivial) fun _ => ?_)
  refine Proc.wp_bind (Proc.wp_ofExcept (fun satisfied hcheck => ?_) fun _ _ => trivial)
  have hsatisfied : satisfied = (view.state.status.isTerminal && !view.supervisorActive) :=
    (Except.ok.inj hcheck).symm
  cases satisfied with
  | true =>
    have ⟨hterminal, hactive⟩ := (Bool.and_eq_true_iff ..).mp hsatisfied.symm
    exact Proc.wp_pure (hview (by simpa using hactive) hterminal)
  | false =>
    refine Proc.wp_bind (wp_quiet rfl fun now w' hrely => ?_)
    split
    · exact Proc.wp_throw trivial
    · exact Proc.wp_pure (hrely.lock hlock)

include hobserved in
theorem wp_settle (runId : String) (deadline : Nat) (view : RunView) (hlock : w.lock ≠ some t)
    (hview : Boundary P view w) :
    Proc.wp (observer t C) (settle runId deadline view)
      (fun view _ w' => view.state.status.isTerminal → P w') (fun _ _ _ => True) s w := by
  refine Proc.wp_seq (fun r _ w' => ∀ view, r.1 = .ok view → view.state.status.isTerminal → P w')
    (Proc.wp_withStore ?_) fun r s w h => Proc.wp_ofExcept h fun _ _ => trivial
  refine Proc.wp_repeatUntil (fun view w => w.lock ≠ some t ∧ Boundary P view w)
    (fun view w h => ?_) ⟨hlock, hview⟩
  obtain ⟨hlock, hview⟩ := h
  simp only [settleRound, Proc.wp_get_bind]
  cases hactive : view.supervisorActive with
  | false =>
    refine Proc.wp_pure fun view' hview' hterminal => ?_
    cases hview'
    exact hview hactive hterminal
  | true =>
    refine Proc.wp_bind (wp_quiet rfl fun now w' hrely => ?_)
    split
    · exact Proc.wp_throw (fun _ h => by cases h)
    refine Proc.wp_seq (fun r _ w => ∀ view, r.1 = .ok view → w.lock ≠ some t ∧ Boundary P view w)
      (Proc.wp_withStore ?_) fun r s w h => ?_
    · refine Proc.wp_mono (wp_loadView hobserved (hrely.lock hlock)) ?_ fun _ _ _ _ _ h => by cases h
      rintro view s w h _ hview
      cases hview
      exact h
    · refine Proc.wp_bind (Proc.wp_ofExcept (fun view hr => ?_) fun _ _ _ h => by cases h)
      simp only [Proc.wp_modify_bind, Proc.wp_pure_iff]
      exact h view hr

include hP hobserved in
theorem wp_stop (runId : String) (graceMs : Nat) (hlock : w.lock ≠ some t) :
    Proc.wp (observer t C) (stop runId graceMs)
      (fun r _ w' => r.run.state.status.isTerminal → P w') (fun _ _ _ => True) s w := by
  refine Proc.wp_bind (Proc.wp_throwIf (fun _ => trivial) fun _ => ?_)
  refine Proc.wp_seq _ (wp_loadView hobserved hlock) fun view s w h => ?_
  obtain ⟨hlock, hview⟩ := h
  split
  · refine Proc.wp_bind (wp_quiet rfl fun now w' hrely => ?_)
    refine Proc.wp_seq _ (wp_settle hobserved runId _ view (hrely.lock hlock)
      fun hactive hterminal => hP _ _ hrely (hview hactive hterminal)) fun view s w h => ?_
    exact Proc.wp_pure h
  split
  · exact Proc.wp_throw trivial
  refine Proc.wp_bind (wp_quiet_attempt rfl (fun token w₁ hrely₁ => ?_) fun _ _ => trivial)
  refine Proc.wp_bind (wp_quiet rfl fun now w₂ hrely₂ => ?_)
  refine Proc.wp_bind (wp_quiet_attempt rfl (fun _ w₃ hrely₃ => ?_) fun _ _ => trivial)
  refine Proc.wp_bind (wp_quiet rfl fun now w₄ hrely₄ => ?_)
  refine Proc.wp_repeatUntil (fun _ w => w.lock ≠ some t) (fun s w hlock => ?_)
    (hrely₄.lock (hrely₃.lock (hrely₂.lock (hrely₁.lock hlock))))
  refine Proc.wp_seq _ (wp_loadView hobserved hlock) fun view s w h => ?_
  obtain ⟨hlock, hview⟩ := h
  split
  · rename_i hdone
    have ⟨_, hactive⟩ := (Bool.and_eq_true_iff ..).mp hdone
    exact Proc.wp_pure fun hterminal => hview (by simpa using hactive) hterminal
  split
  · exact Proc.wp_throw trivial
  refine Proc.wp_bind (wp_quiet rfl fun now w' hrely => ?_)
  split
  · exact Proc.wp_throw trivial
  · exact Proc.wp_pure (hrely.lock hlock)

end Commands

/-! ### start -/

variable (t C) in
/-- What the polling loop of `start` concludes: `Seen` of the phase once it found
    the supervisor active, `P` of a terminal result, and `G` of a run that it
    gives up. -/
structure StartConclusions (Seen : Phase → Prop) (P G : World → Prop) : Prop where
  stable : ∀ p q : Phase, p.mayBecome q → Seen p → Seen q
  seen : ∀ p state w, Observed t C p state true w → Seen w.phase
  returned : ∀ p state w, Observed t C p state false w → state.status.isTerminal → P w
  givenUp : ∀ p state w, p.supervised → Observed t C p state false w →
    state.status.isTerminal = false →
    (state.status ≠ .created ∧ state.status ≠ .starting ∨ Seen p) → G w

/-- The errors of `start`. -/
def GivesUp {σ : Type} (G : World → Prop) (e : AppError) (_ : σ) (w : World) : Prop :=
  e.kind = "supervisor_exit" → G w

omit [Toolchain] in
theorem givesUp_of_kind {σ : Type} {G : World → Prop} {e : AppError} {s : σ}
    (h : e.kind ≠ "supervisor_exit") : GivesUp G e s w :=
  fun hkind => absurd hkind h

/-- The polling loop between two rounds. -/
structure Polling (t : Thread) (Seen : Phase → Prop) (activeSeen : Bool) (w : World) : Prop where
  lock : w.lock ≠ some t
  supervised : w.phase.supervised
  seen : activeSeen → Seen w.phase

section Start

variable {Seen : Phase → Prop} {P G : World → Prop} {options : StartOptions} {activeSeen : Bool}
  {deadline : Nat}

omit [Toolchain] in
theorem Polling.rely (hC : StartConclusions t C Seen P G) {w w' : World}
    (h : Polling t Seen activeSeen w) (hrely : ObserverRely t w w') : Polling t Seen activeSeen w' where
  lock := hrely.lock h.lock
  supervised := Phase.supervised_mayBecome h.supervised hrely.later.phase
  seen hactive := hC.stable _ _ hrely.later.phase (h.seen hactive)

theorem wp_concludeStart (hC : StartConclusions t C Seen P G) {runId : String}
    {state : RunState} {active : Bool} {w₀ : World} (h : Polling t Seen activeSeen w)
    (hsupervised : w₀.phase.supervised) (hobserved : Observed t C w₀.phase state active w)
    (hstatus : state.status ≠ .created ∧ state.status ≠ .starting) :
    Proc.wp (observer t C) (concludeStart runId deadline state active)
      (fun r activeSeen w => r.elim (Polling t Seen activeSeen w)
        fun result => result.run.state.status.isTerminal → P w)
      (GivesUp G) activeSeen w := by
  unfold concludeStart
  split
  · refine Proc.wp_bind (wp_quiet rfl fun now w' hrely => ?_)
    split
    · refine Proc.wp_throw (givesUp_of_kind ?_)
      change "timeout" ≠ "supervisor_exit"
      decide
    · exact Proc.wp_pure (h.rely hC hrely)
  rename_i hsettled
  have hfree (hterminal : state.status.isTerminal) : active = false := by
    simpa [hterminal] using hsettled
  split
  · refine Proc.wp_throw (givesUp_of_kind ?_)
    change "start_failed" ≠ "supervisor_exit"
    decide
  split
  · rename_i hgone
    obtain ⟨hactive, hlive⟩ := (Bool.and_eq_true_iff ..).mp hgone
    have hactive : active = false := by simpa using hactive
    subst hactive
    exact Proc.wp_throw fun _ => hC.givenUp _ state w hsupervised hobserved (by simpa using hlive)
      (.inl hstatus)
  · refine Proc.wp_pure fun hterminal => ?_
    have hactive := hfree hterminal
    subst hactive
    exact hC.returned _ _ _ hobserved hterminal

theorem wp_startRound (hC : StartConclusions t C Seen P G)
    (h : Polling t Seen activeSeen w) :
    Proc.wp (observer t C) (startRound options deadline)
      (fun r activeSeen w => r.elim (Polling t Seen activeSeen w)
        fun result => result.run.state.status.isTerminal → P w)
      (GivesUp G) activeSeen w := by
  refine Proc.wp_seq (fun r seen w' => seen = activeSeen ∧ match r.1 with
      | .ok (state, active) => w'.lock ≠ some t ∧ w.phase.mayBecome w'.phase ∧
          Observed t C w.phase state active w'
      | .error e => e.kind ≠ "supervisor_exit")
    (Proc.wp_withStore (Proc.wp_mono (wp_observeStateAndActivity h.lock)
      (fun _ _ _ h => ⟨rfl, h⟩) fun _ _ _ h => ⟨rfl, h⟩)) ?_
  rintro ⟨r, _⟩ seen w' ⟨rfl, hr⟩
  refine Proc.wp_bind (Proc.wp_ofExcept ?_ ?_)
  swap
  · rintro e rfl
    exact givesUp_of_kind hr
  rintro ⟨state, active⟩ rfl
  obtain ⟨hlock, hphase, hobserved⟩ := hr
  have hpolling : Polling t Seen (seen || active) w' := by
    refine ⟨hlock, Phase.supervised_mayBecome h.supervised hphase, fun hseen => ?_⟩
    cases active with
    | true => exact hC.seen _ _ _ hobserved
    | false => exact hC.stable _ _ hphase (h.seen (by simpa using hseen))
  simp only [Proc.wp_modify_bind]
  split
  · rename_i hstatus
    exact wp_concludeStart hC hpolling h.supervised hobserved hstatus
  rename_i hstatus
  simp only [Proc.wp_get_bind]
  split
  · rename_i hgone
    obtain ⟨hseen, hactive⟩ := (Bool.and_eq_true_iff ..).mp hgone
    have hactive : active = false := by simpa using hactive
    subst hactive
    refine Proc.wp_throw fun _ => hC.givenUp _ state w' h.supervised hobserved ?_
      (.inr (h.seen (by simpa using hseen)))
    revert hstatus
    cases state.status <;> decide
  · refine Proc.wp_bind (wp_quiet rfl fun now w₁ hrely => ?_)
    have hpolling := hpolling.rely hC hrely
    split
    · refine Proc.wp_bind (wp_quiet rfl fun now w₂ _ => ?_)
      refine Proc.wp_bind (wp_quiet rfl fun _ w₃ _ => ?_)
      refine Proc.wp_throw (givesUp_of_kind ?_)
      change "timeout" ≠ "supervisor_exit"
      decide
    · exact Proc.wp_pure hpolling

theorem wp_awaitStart (hC : StartConclusions t C Seen P G) (hlock : w.lock ≠ some t)
    (hsupervised : w.phase.supervised) :
    Proc.wp (observer t C) (awaitStart options)
      (fun result _ w => result.run.state.status.isTerminal → P w) (GivesUp G) s w := by
  refine Proc.wp_bind (wp_quiet rfl fun now w' hrely => ?_)
  refine Proc.wp_seq (fun r _ w => match r.1 with
      | .ok result => result.run.state.status.isTerminal → P w
      | .error e => GivesUp G e () w) (Proc.wp_withStore ?_) fun r s w h => ?_
  · refine Proc.wp_repeatUntil (Polling t Seen) (fun activeSeen w h => wp_startRound hC h) ?_
    exact ⟨hrely.lock hlock, Phase.supervised_mayBecome hsupervised hrely.later.phase, nofun⟩
  · obtain ⟨r, _⟩ := r
    refine Proc.wp_ofExcept ?_ ?_
    · rintro result rfl
      exact h
    · rintro e rfl
      exact h

end Start

end Observer

/-! ### The whole of start -/

section Start

variable {Seen : Phase → Prop} {P G : World → Prop} {options : StartOptions} {s : Unit} {w : World}

/-- The interface of `start`. -/
@[reducible] def starter (ok : system.Condition) : Interface (Either CreateCmd ClientCmd) World :=
  Machine.relying (M := system) ok .start (ObserverRely .start) (.refl .start) .trans

/-- One command of the creation, which fails only with a fault. -/
theorem wp_create {c : CreateCmd (Except AppError Unit)}
    (hc : ∀ {a w e w'}, execCreate c a w = some (.error e, w') → ∃ fault : Fault, e = fault.error)
    (hlock : w.lock ≠ some .start) :
    Proc.wp (starter ok) (Proc.attempt (.inl c)) (fun _ _ w' => w'.lock ≠ some .start) (GivesUp G)
      s w := by
  apply Proc.wp_attempt
  rintro w₁ hrely r w₂ ⟨a, -, h⟩
  have h : execCreate c a w₁ = some (r, w₂) := h
  have hkeep : w₂.lock ≠ some .start := by
    rw [execCreate_frame h]
    exact hrely.lock hlock
  refine ⟨trivial, ?_⟩
  cases r with
  | ok u => exact hkeep
  | error e =>
    obtain ⟨fault, rfl⟩ := hc h
    exact fun hkind => absurd hkind fault.error_kind

theorem wp_createRun {state : RunState} {spec : SupervisorSpec} {ownerToken : String}
    (hlock : w.lock ≠ some .start) :
    Proc.wp (starter ok) (createRun state spec ownerToken) (fun _ _ w' => w'.lock ≠ some .start)
      (GivesUp G) s w := by
  refine Proc.wp_bind (Proc.wp_ofExcept (fun _ _ => ?_) fun e h => givesUp_of_kind ?_)
  · refine Proc.wp_seq _ (wp_create (fun h => ?_) hlock) fun _ s w hlock => ?_
    · obtain ⟨fault, hr, -⟩ | ⟨hr, -⟩ := createDir_cases h
      · exact ⟨fault, Except.error.inj hr⟩
      · cases hr
    refine Proc.wp_seq _ (wp_create fallible_error hlock) fun _ s w hlock => ?_
    refine Proc.wp_seq _ (wp_create fallible_error hlock) fun _ s w hlock => ?_
    refine Proc.wp_seq _ (wp_create committed_error hlock) fun _ s w hlock => ?_
    refine Proc.wp_seq _ (wp_create fallible_error hlock) fun _ s w hlock => ?_
    exact wp_create fallible_error hlock
  · rw [canonicalRunId_error h]
    decide

theorem wp_start_observed
    (hC : StartConclusions .start (fun {_} c a w => ok .start (.inr c) a w) Seen P G)
    (hlock : w.lock ≠ some .start) :
    Proc.wp (starter ok) (start options)
      (fun result _ w => result.run.state.status.isTerminal → P w) (GivesUp G) s w := by
  have hnow {w : World} (hlock : w.lock ≠ some .start) :
      Proc.wp (starter ok) (Proc.call (.inl .now) : Starter Nat)
        (fun _ _ w' => w'.lock ≠ some .start) (GivesUp G) s w := by
    apply Proc.wp_call
    rintro w₁ hrely now w₂ ⟨a, -, h⟩
    cases h
    exact ⟨trivial, hrely.lock hlock⟩
  refine Proc.wp_bind (Proc.wp_ofExcept (fun requests _ => ?_) fun e h => givesUp_of_kind ?_)
  swap
  · rw [StartOptions.check_error h]
    decide
  refine Proc.wp_seq _ (hnow hlock) fun createdAtMs s w hlock => ?_
  refine Proc.wp_seq _ (wp_createRun hlock) fun _ s w hlock => ?_
  refine Proc.wp_seq (fun r _ w => w.lock ≠ some .start ∧ (r = .ok () → w.phase.supervised))
    (Proc.wp_call ?_) fun r s w h => ?_
  · rintro w₁ hrely r w₂ ⟨a, -, h⟩
    refine ⟨trivial, ?_, ?_⟩
    · rw [execCreate_frame (show execCreate .launch a w₁ = some (r, w₂) from h)]
      exact hrely.lock hlock
    · rintro rfl
      simp only [exec, execEither, execCreate] at h
      repeat' split at h
      all_goals cases h
      rfl
  obtain ⟨hlock, hsupervised⟩ := h
  cases r with
  | ok u => exact Proc.wp_hoist (wp_awaitStart hC hlock (hsupervised rfl))
  | error e =>
    refine Proc.wp_seq (fun _ _ _ => True) (Proc.wp_call fun _ _ _ _ _ => ⟨trivial, trivial⟩)
      fun _ s w _ => ?_
    refine Proc.wp_seq (fun _ _ _ => True) (Proc.wp_call fun _ _ _ _ _ => ⟨trivial, trivial⟩)
      fun _ s w _ => ?_
    refine Proc.wp_seq (fun _ _ _ => True) (Proc.wp_call fun _ _ _ _ _ => ⟨trivial, trivial⟩)
      fun _ s w _ => Proc.wp_throw (givesUp_of_kind ?_)
    change "supervisor_launch" ≠ "supervisor_exit"
    decide

end Start

/-! ## Results -/

/-- The condition of every run next to `ok`. -/
def observed (setup : Setup) (ok : system.Condition) : system.Condition := fun i _ c a w =>
  ok i c a w ∧ launchProtocol setup.options i c a w ∧ Observable w ∧ Recorded w

/-- What a weakest precondition of a client says about its result in every run. -/
theorem client_result {α : Type} (ok : system.Condition) {n : Nat} {m : Client α} {f : Except AppError α → ClientResult}
    {Q : ClientResult → World → Prop} (hclient : setup.clients n = m.program f)
    (hQ : ∀ r, Stable (.client n) (Q r))
    (hwp : setup.world.lock ≠ some (.client n) →
      Proc.wp (observer (.client n) fun {_} c a w => observed setup ok (.client n) c a w) m
      (fun a _ => Q (f (.ok a))) (fun e _ => Q (f (.error e))) () setup.world)
    (h : Machine.Reach ok setup.initial cfg) {r : ClientResult}
    (hr : cfg.thread (.client n) = .ret r) : Q r cfg.world := by
  refine Machine.Describes.result (M := system) (i := .client n) (V := id)
    (L := Machine.relying (observed setup ok) (.client n) (ObserverRely (.client n))
      (.refl _) .trans) (Machine.describes_relying ?_) (fun r _ _ hrely => hQ r _ _ hrely) ?_
    (reach_observable h) hr
  · exact fun j hj c a w b w' hok hexec => observerRely_of_other (by simp) hj hok.2.1 hexec
  · change Prog.wp _ (setup.clients n) Q setup.world
    rw [hclient]
    refine Prog.wp_bind (Prog.wp_mono ?_ (hwp nofun))
    rintro ⟨e | a, _⟩ w hw <;> exact Prog.wp_ret hw

/-- What the conclusions of the polling loop say about the result of `start`. -/
theorem start_result {Seen : Phase → Prop} {P G : World → Prop} (hP : Stable .start P)
    (hG : Stable .start G)
    (hC : StartConclusions .start (fun {_} c a w => observed setup ok .start (.inr c) a w) Seen P G)
    (h : Machine.Reach ok setup.initial cfg) {r : Except AppError StartResult}
    (hr : cfg.thread .start = .ret r) :
    (∀ result, r = .ok result → result.run.state.status.isTerminal → P cfg.world) ∧
      ∀ e, r = .error e → e.kind = "supervisor_exit" → G cfg.world := by
  refine Machine.Describes.result (M := system) (i := .start) (V := id)
    (L := starter (observed setup ok))
    (Q := fun r w => (∀ result, r = .ok result → result.run.state.status.isTerminal → P w) ∧
      ∀ e, r = .error e → e.kind = "supervisor_exit" → G w)
    (Machine.describes_relying ?_) ?_ ?_ (reach_observable h) hr
  · exact fun j hj c a w b w' hok hexec => observerRely_of_other (by decide) hj hok.2.1 hexec
  · exact fun r w w' hrely hQ => ⟨fun result hr hterminal => hP _ _ hrely (hQ.1 result hr hterminal),
      fun e hr hkind => hG _ _ hrely (hQ.2 e hr hkind)⟩
  · refine Prog.wp_bind (Prog.wp_mono ?_ (wp_start_observed hC nofun))
    rintro ⟨e | result, _⟩ w hw
    · refine Prog.wp_ret ⟨(fun _ h => nomatch h), fun e' h hkind => ?_⟩
      cases h
      exact hw hkind
    · refine Prog.wp_ret ⟨fun result' h hterminal => ?_, fun _ h => nomatch h⟩
      cases h
      exact hw hterminal

/-! ## The terminal boundary -/

/-- Thread `t` found the lock free before the supervisor acquired it, and by now
    the supervisor has persisted a terminal state that it has not released the
    lock after. -/
def TerminalRace (t : Thread) (w : World) : Prop :=
  w.foundFree t = true ∧ (w.tested t).any Phase.early = true ∧ w.phase = .active ∧
    w.state?.any (·.status.isTerminal) = true

instance (t : Thread) (w : World) : Decidable (TerminalRace t w) :=
  inferInstanceAs (Decidable (_ ∧ _ ∧ _ ∧ _))

/-- No observer reads the state in a terminal race. -/
def noTerminalRace : system.Condition
  | .start, _, .inr .readState, _, w => ¬ TerminalRace .start w
  | .client index, _, .readState, _, w => ¬ TerminalRace (.client index) w
  | _, _, _, _, _ => True

omit [Toolchain] in
theorem stable_finished (t : Thread) : Stable t fun w => w.phase.finished :=
  fun _ _ hrely h => Phase.finished_mayBecome h hrely.later.phase

omit [Toolchain] in
theorem Observed.finished {t : Thread} {C : {β : Type} → ClientCmd β → Answer → World → Prop}
    (hobservable : ∀ {β : Type} (c : ClientCmd β) a w, C c a w → Observable w)
    (hrace : ∀ a w, C .readState a w → ¬ TerminalRace t w) {p : Phase} {state : RunState} {w : World}
    (h : Observed t C p state false w) (hterminal : state.status.isTerminal) : w.phase.finished := by
  have hfree {w₁ w : World} (htest : LockTest t false w₁ w) : w₁.lock = none :=
    Option.not_isSome_iff_eq_none.mp (by rw [← htest.result]; decide)
  cases h with
  | terminal hread hstate hterm hphase htry htest =>
    have hlate := (hobservable _ _ _ hread).late hstate hterm
    have hactive := (hobservable _ _ _ htry).not_active_of_free (hfree htest)
    exact Phase.finished_mayBecome (Phase.finished_of_late hlate hphase hactive) htest.phase
  | @fresh a₁ a₂ w₁ w₂ _ hsince htry htest hfound hread hstate hlater =>
    have hlate := (hobservable _ _ _ hread).late hstate hterminal
    have hnot := (hobservable _ _ _ htry).not_active_of_free (hfree htest)
    refine Phase.finished_mayBecome (Phase.finished_of_late hlate (Phase.mayBecome_refl _) ?_)
      hlater.phase
    intro hactive
    refine hrace a₂ w₂ hread ⟨hfound, ?_, hactive, by rw [hstate]; exact hterminal⟩
    rw [htest.tested, Option.any_some]
    have hphase := htest.phase
    rw [hactive] at hphase
    revert hphase hnot
    cases w₁.phase <;> decide

theorem startConclusions_finished : StartConclusions .start
    (fun {_} c a w => observed setup noTerminalRace .start (.inr c) a w) (fun _ => True)
    (fun w => w.phase.finished) fun _ => True where
  stable _ _ _ _ := trivial
  seen _ _ _ _ := trivial
  returned _ _ _ h hterminal := h.finished (fun _ _ _ hC => hC.2.2.1) (fun _ _ hC => hC.1) hterminal
  givenUp _ _ _ _ _ _ _ := trivial

/-- Every terminal result of `wait --for exit`, `stop` and `start` says that the
    supervisor has released its lock, or was never launched. -/
structure TerminalBoundary (setup : Setup) (cfg : system.Config) : Prop where
  wait : ∀ n runId timeoutMs, setup.clients n = (wait runId .exit timeoutMs).program .waited →
    ∀ r, cfg.thread (.client n) = .ret (.waited (.ok r)) → cfg.world.phase.finished
  stop : ∀ n runId graceMs, setup.clients n = (stop runId graceMs).program .stopped →
    ∀ r, cfg.thread (.client n) = .ret (.stopped (.ok r)) →
      r.run.state.status.isTerminal → cfg.world.phase.finished
  start : ∀ r, cfg.thread .start = .ret (.ok r) →
    r.run.state.status.isTerminal → cfg.world.phase.finished

theorem terminal_boundary (setup : Setup) {cfg : system.Config}
    (h : Machine.Reach noTerminalRace setup.initial cfg) : TerminalBoundary setup cfg := by
  have hobserved {n : Nat} (p : Phase) (state : RunState) (w : World)
      (hw : Observed (.client n)
        (fun {_} c a w => observed setup noTerminalRace (.client n) c a w) p state false w)
      (hterminal : state.status.isTerminal) : w.phase.finished :=
    hw.finished (fun _ _ _ hC => hC.2.2.1) (fun _ _ hC => hC.1) hterminal
  refine ⟨fun n runId timeoutMs hclient r hr => ?_, fun n runId graceMs hclient r hr => ?_,
    fun r hr hterminal => ?_⟩
  · refine client_result noTerminalRace
      (Q := fun r w => ∀ result, r = .waited (.ok result) → w.phase.finished)
      hclient (fun r w w' hrely hw result h => stable_finished _ _ _ hrely (hw result h))
      (fun hlock => Proc.wp_mono (wp_wait hobserved runId timeoutMs hlock)
        (fun _ _ _ hw _ _ => hw) fun _ _ _ _ _ h => nomatch h) h hr r rfl
  · refine client_result noTerminalRace
      (Q := fun r w => ∀ result, r = .stopped (.ok result) →
        result.run.state.status.isTerminal → w.phase.finished)
      hclient (fun r w w' hrely hw result h hterminal =>
        stable_finished _ _ _ hrely (hw result h hterminal))
      (fun hlock => Proc.wp_mono (wp_stop (stable_finished _) hobserved runId graceMs hlock)
        (fun _ _ _ hw _ h => ?_) fun _ _ _ _ _ h => nomatch h) h hr r rfl
    cases h
    exact hw
  · exact (start_result (stable_finished _) (fun _ _ _ _ => trivial) startConclusions_finished h
      hr).1 r rfl hterminal

end Procherd

namespace Procherd.Reference

open Interaction

/-- The client that waits for the exit. -/
def waiter : ClientProgram := (wait options.runId .exit 1000).program .waited

/-- The status of the run that a client waited for. -/
def waited? (cfg : system.Config) : Option RunStatus :=
  match (cfg.thread (.client 0)).result? with
  | some (.waited (.ok r)) => some r.run.state.status
  | _ => none

theorem thread_of_waited {cfg : system.Config} {status : RunStatus} (h : waited? cfg = some status) :
    ∃ r, cfg.thread (.client 0) = .ret (.waited (.ok r)) := by
  unfold waited? at h
  split at h
  · rename_i r hr
    exact ⟨r, Prog.eq_ret_of_result? hr⟩
  · cases h

/-- A move that does not read the state in a terminal race. -/
def avoidsTerminalRace (cfg : system.Config) (m : system.Move) : Bool :=
  decide (¬ TerminalRace m.1 cfg.world)

theorem meets_noTerminalRace (cfg : system.Config) (m : system.Move)
    (h : avoidsTerminalRace cfg m) : Machine.Meets (M := system) noTerminalRace cfg m := by
  intro β c k _
  have hrace := of_decide_eq_true h
  obtain ⟨i, a⟩ := m
  cases i with
  | start =>
    cases c with
    | inl c => trivial
    | inr c => cases c <;> trivial
  | client index => cases c <;> trivial
  | _ => trivial

/-- The client returns after the supervisor has finished. -/
theorem terminal_boundary_finished : ∃ cfg : system.Config,
    waited? cfg = some .exited ∧ cfg.world.phase.finished := by
  have hrun : (Machine.runChecked avoidsTerminalRace (setup waiter).initial
      (startUp ++ finish ++ steps (.client 0) 5 {})).map waited? = some (some .exited) := by
    decide +kernel
  obtain ⟨cfg, hcfg, hwaited⟩ := Option.map_eq_some_iff.mp hrun
  obtain ⟨r, hr⟩ := thread_of_waited hwaited
  exact ⟨cfg, hwaited, (terminal_boundary (setup waiter)
    (.of_runChecked meets_noTerminalRace hcfg)).wait 0 _ _ rfl r hr⟩

/-- The client finds the lock free before the supervisor acquires it, and reads
    the terminal state before the supervisor releases it. -/
theorem terminal_boundary_race : ∃ cfg : system.Config,
    Machine.Reach system.always (setup waiter).initial cfg ∧ ¬ TerminalBoundary (setup waiter) cfg := by
  have hrun : (Machine.run (setup waiter).initial
      (steps .start 9 {} ++ steps (.client 0) 5 {} ++ steps .supervisor 20 {} ++
        finish.take 33 ++ steps (.client 0) 1 {})).map
      (fun cfg => (waited? cfg, cfg.world.phase)) = some (some .exited, .active) := by decide +kernel
  obtain ⟨cfg, hcfg, h⟩ := Option.map_eq_some_iff.mp hrun
  obtain ⟨hwaited, hphase⟩ := Prod.mk.inj h
  obtain ⟨r, hr⟩ := thread_of_waited hwaited
  refine ⟨cfg, .of_run hcfg, fun hboundary => ?_⟩
  have hfinished := hboundary.wait 0 _ _ rfl r hr
  rw [hphase] at hfinished
  cases hfinished

end Procherd.Reference

namespace Procherd

open Interaction

variable [Toolchain] {setup : Setup} {ok : system.Condition} {cfg : system.Config}

/-! ## Orphaned runs -/

/-- The supervisor persists a terminal state before it releases its lock. -/
def finishing : system.Condition
  | .supervisor, _, .inl .release, _, w => ∃ state, w.state? = some state ∧ state.status.isTerminal
  | _, _, _, _, _ => True

/-- A released run has a terminal state. -/
def FinalTerminal (w : World) : Prop :=
  w.phase = .released → ∃ state, w.state? = some state ∧ state.status.isTerminal

theorem FinalTerminal.step {options : StartOptions} {β : Type} {i : Thread} {c : i.Cmd β}
    {a : Answer} {w w' : World} {b : β} (hfinishing : finishing i c a w)
    (hok : launchProtocol options i c a w) (hexec : exec i c a w = some (b, w'))
    (h : FinalTerminal w) : FinalTerminal w' := by
  intro hphase
  by_cases hreleased : w.phase = .released
  · rw [(final_of_released hok hexec hreleased).1]
    exact h hreleased
  · -- Only the release itself leads to the phase.
    have hother (hp : w'.phase = w.phase) : False := hreleased (hp.symm.trans hphase)
    cases i with
    | supervisor =>
      cases c with
      | inl c =>
        cases c with
        | acquire =>
          obtain rfl | ⟨-, hp⟩ | ⟨hp, -⟩ := execLock_phase (c := .acquire) hexec
          · exact (hother rfl).elim
          · rw [hp] at hphase; cases hphase
          · simp only [exec, execEither, execLock, hp] at hexec
            cases hexec
        | release =>
          rw [execLock_frame (show execLock .release a w = some (b, w') from hexec)]
          exact hfinishing
      | inr c => exact (hother (execBody_phase hexec)).elim
    | start =>
      cases c with
      | inl c =>
        obtain hp | ⟨-, hp | hp⟩ := execCreate_phase hexec
        · exact (hother hp).elim
        · rw [hp] at hphase; cases hphase
        · rw [hp] at hphase; cases hphase
      | inr c => exact (hother (execClient_phase hexec)).elim
    | reader stream => exact (hother (execReader_phase hexec)).elim
    | client index => exact (hother (execClient_phase hexec)).elim

theorem reach_finalTerminal (h : Machine.Reach finishing setup.initial cfg) :
    Machine.Reach (fun _ _ _ _ w => FinalTerminal w) setup.initial cfg :=
  ((reach_observable h).with_invariant (J := FinalTerminal)
    (fun _ _ _ _ _ _ _ hok hexec hw => hw.step hok.1 hok.2.1 hexec) nofun).mono
    fun _ _ _ _ _ hok => hok.2

/-- An observer whose test of the lock came after the supervisor acquired it
    never sees a live state together with a free lock, if the supervisor
    persists a terminal state before it releases its lock. -/
theorem observe_finished (setup : Setup) {cfg : system.Config}
    (h : Machine.Reach finishing setup.initial cfg) {n : Nat}
    (hclient : setup.clients n = observeStateAndActivity.program .observed)
    {state : RunState} {active : Bool}
    (hr : cfg.thread (.client n) = .ret (.observed (.ok (state, active))))
    (htested : cfg.world.tested (.client n) = some .active ∨
      cfg.world.tested (.client n) = some .released) :
    ¬ (state.status.isLive ∧ active = false) ∧
      (RunView.new state active).observedStatus = .consistent := by
  suffices hlive : ¬ (state.status.isLive ∧ active = false) by
    refine ⟨hlive, ?_⟩
    simp only [RunView.new]
    rw [if_neg]
    simpa using hlive
  refine client_result (fun _ _ _ _ w => FinalTerminal w)
    (Q := fun r w => ∀ state active, r = .observed (.ok (state, active)) →
      (w.tested (.client n) = some .active ∨ w.tested (.client n) = some .released) →
      ¬ (state.status.isLive ∧ active = false))
    hclient (fun r w w' hrely hw state active hr htested =>
      hw state active hr (by rw [← hrely.later.tested]; exact htested))
    (fun hlock => Proc.wp_mono (wp_observeStateAndActivity hlock) ?_ ?_)
    (reach_finalTerminal h) hr state active rfl htested
  · rintro ⟨state, active⟩ s w ⟨-, -, hobserved⟩ state' active' hr htested ⟨hlive, rfl⟩
    cases hr
    rw [RunStatus.isLive_eq, Bool.not_eq_true'] at hlive
    cases hobserved with
    | terminal _ _ hterminal => rw [hlive] at hterminal; cases hterminal
    | @fresh a₁ a₂ w₁ w₂ _ hsince htry htest hfound hread hstate hlater =>
      have hfree : w₁.lock = none := Option.not_isSome_iff_eq_none.mp (by rw [← htest.result]; decide)
      have hnot := htry.2.2.1.not_active_of_free hfree
      have hreleased : w₁.phase = .released := by
        rw [hlater.tested, htest.tested] at htested
        obtain htested | htested := htested
        · exact absurd (Option.some.inj htested) hnot
        · exact Option.some.inj htested
      obtain ⟨state'', hstate'', hterminal⟩ :=
        hread.1 (Phase.released_mayBecome (hreleased ▸ htest.phase))
      rw [hstate] at hstate''
      cases hstate''
      rw [hlive] at hterminal
      cases hterminal
  · exact fun _ _ _ _ _ _ hr => nomatch hr

end Procherd

namespace Procherd.Reference

open Interaction

def watcher : ClientProgram := observeStateAndActivity.program .observed

/-- What a client observed, and the phase at its test of the lock. -/
def observed? (cfg : system.Config) : Option (RunStatus × Bool × Option Phase) :=
  match (cfg.thread (.client 0)).result? with
  | some (.observed (.ok (state, active))) =>
    some (state.status, active, cfg.world.tested (.client 0))
  | _ => none

/-- The next command of the supervisor is the release. -/
def releasing : Prog (Thread.Cmd .supervisor) (Except AppError Unit) → Bool
  | .exec (.inl .release) _ => true
  | _ => false

/-- A move that releases the lock only after a terminal state. -/
def finishes (cfg : system.Config) (_ : system.Move) : Bool :=
  !releasing (cfg.thread .supervisor) || cfg.world.state?.any (·.status.isTerminal)

theorem meets_finishing (cfg : system.Config) (m : system.Move) (h : finishes cfg m) :
    Machine.Meets (M := system) finishing cfg m := by
  intro β c k hc
  obtain ⟨i, a⟩ := m
  cases i with
  | supervisor =>
    cases c with
    | inl c =>
      cases c with
      | acquire => trivial
      | release =>
        have hreleasing : releasing (cfg.thread .supervisor) = true := by
          rw [show cfg.thread .supervisor = _ from hc]
          rfl
        rw [finishes, hreleasing] at h
        cases hstate : cfg.world.state? with
        | none => rw [hstate] at h; cases h
        | some state => rw [hstate] at h; exact ⟨state, hstate, h⟩
    | inr c => trivial
  | _ => trivial

/-- The observer reads `running`, finds the lock free after the release, and
    reads the terminal state. -/
theorem observe_finished_released : ∃ cfg : system.Config,
    observed? cfg = some (.exited, false, some .released) ∧
    ∀ state active, cfg.thread (.client 0) = .ret (.observed (.ok (state, active))) →
      (RunView.new state active).observedStatus = .consistent := by
  have hrun : (Machine.runChecked finishes (setup watcher).initial
      (startUp ++ steps (.client 0) 1 {} ++ finish ++ steps (.client 0) 3 {})).map
      (fun cfg => (observed? cfg, cfg.world.tested (.client 0))) =
      some (some (.exited, false, some .released), some .released) := by decide +kernel
  obtain ⟨cfg, hcfg, h⟩ := Option.map_eq_some_iff.mp hrun
  obtain ⟨hobserved, htested⟩ := Prod.mk.inj h
  exact ⟨cfg, hobserved, fun state active hr => (observe_finished (setup watcher)
    (.of_runChecked meets_finishing hcfg) rfl hr (.inr htested)).2⟩

end Procherd.Reference

namespace Procherd

open Interaction

variable [Toolchain] {setup : Setup} {ok : system.Condition} {cfg : system.Config}

/-! ## Runs that start gives up -/

/-- `start` found the lock free before the supervisor acquired it, and by now the
    process is running. -/
def RunningRace (w : World) : Prop :=
  w.foundFree .start = true ∧ (w.tested .start).any Phase.early = true ∧
    w.state?.any (fun state => state.status = .running || state.status = .stopping) = true

instance (w : World) : Decidable (RunningRace w) := inferInstanceAs (Decidable (_ ∧ _ ∧ _))

/-- `start` never reads the state in a running race. -/
def noRunningRace : system.Condition
  | .start, _, .inr .readState, _, w => ¬ RunningRace w
  | _, _, _, _, _ => True

/-- Nobody but `start` and the supervisor uses the lock. -/
def SoleObserver (w : World) : Prop :=
  w.lock = none ∨ w.lock = some .start ∨ w.lock = some .supervisor

/-- No client moves. -/
def noClient : system.Condition
  | .client _, _, _, _, _ => False
  | _, _, _, _, _ => True

/-- A client that has returned does not move. -/
theorem reach_noClient (hidle : ∀ n, ∃ r, setup.clients n = .ret r)
    (h : Machine.Reach ok setup.initial cfg) :
    Machine.Reach (fun i _ c a w => ok i c a w ∧ noClient i c a w) setup.initial cfg := by
  refine Machine.Reach.strengthen (M := system) (t := fun n : Nat => Thread.client n)
    (V := fun _ => id)
    (L := fun _ => {
      step := fun _ _ _ _ => True
      rely := fun _ _ => True
      guar := fun _ _ _ _ => False
      rely_refl := fun _ => trivial
      rely_trans := fun _ _ => trivial })
    (Q := fun _ _ _ => True) (fun _ => ⟨fun _ _ _ _ _ _ _ => trivial, fun _ _ _ _ _ _ _ _ _ => trivial⟩)
    (fun _ _ _ _ _ _ => trivial) (fun n => ?_) (fun _ _ _ _ _ _ _ _ _ hguar => hguar.elim)
    (fun j hj _ c a w hok => ⟨hok, ?_⟩) h
  · obtain ⟨r, hr⟩ := hidle n
    change Prog.wp _ (setup.clients n) _ _
    rw [hr]
    exact Prog.wp_ret trivial
  · cases j with
    | client index => exact absurd rfl (hj index)
    | _ => trivial

theorem execClient_lock_cases {t : Thread} {β : Type} {c : ClientCmd β} {a : Answer} {w w' : World}
    {b : β} (h : execClient t c a w = some (b, w')) :
    w'.lock = w.lock ∨ w'.lock = none ∨ w'.lock = some t := by
  cases c with
  | unlock =>
    have hw' : w' = if w.lock = some t then { w with lock := none } else w := by
      obtain ⟨_, _, _, hw'⟩ | ⟨_, h⟩ := fallible_cases h
      · exact hw'
      · exact (congrArg Prod.snd (Option.some.inj h)).symm
    rw [hw']
    split
    · exact .inr (.inl rfl)
    · exact .inl rfl
  | _ =>
    simp only [execClient, fallible, committed, fallibleIo] at h
    repeat' split at h
    all_goals cases h <;> first | exact .inl rfl | exact .inr (.inr rfl)

theorem SoleObserver.step {β : Type} {i : Thread} {c : i.Cmd β} {a : Answer} {w w' : World} {b : β}
    (hno : noClient i c a w) (hexec : exec i c a w = some (b, w')) (h : SoleObserver w) :
    SoleObserver w' := by
  have hcases {t : Thread} (ht : t = .start ∨ t = .supervisor)
      (hlock : w'.lock = w.lock ∨ w'.lock = none ∨ w'.lock = some t) : SoleObserver w' := by
    unfold SoleObserver at h ⊢
    obtain hlock | hlock | hlock := hlock
    · rw [hlock]; exact h
    · exact .inl hlock
    · obtain rfl | rfl := ht
      · exact .inr (.inl hlock)
      · exact .inr (.inr hlock)
  cases i with
  | start =>
    cases c with
    | inl c =>
      refine hcases (.inl rfl) (.inl ?_)
      rw [execCreate_frame (show execCreate c a w = some (b, w') from hexec)]
    | inr c => exact hcases (.inl rfl) (execClient_lock_cases hexec)
  | supervisor =>
    cases c with
    | inl c => exact hcases (.inr rfl) (execLock_lock hexec)
    | inr c =>
      refine hcases (.inl rfl) (.inl ?_)
      rw [execBody_frame (show execBody c a w = some (b, w') from hexec)]
  | reader stream =>
    refine hcases (.inl rfl) (.inl ?_)
    rw [execReader_frame (show execReader stream c a w = some (b, w') from hexec)]
  | client index => exact hno.elim

/-- A run that nobody else observes. -/
def aloneWithSupervisor : system.Condition := fun i _ c a w =>
  noRunningRace i c a w ∧ SoleObserver w

theorem reach_alone (hidle : ∀ n, ∃ r, setup.clients n = .ret r)
    (h : Machine.Reach noRunningRace setup.initial cfg) :
    Machine.Reach aloneWithSupervisor setup.initial cfg :=
  ((reach_noClient hidle h).with_invariant (J := SoleObserver)
    (fun _ _ _ _ _ _ _ hok hexec hw => hw.step hok.2 hexec) (.inl rfl)).mono
    fun _ _ _ _ _ hok => ⟨hok.1.1, hok.2⟩

/-- The supervisor is gone, and left no terminal state. -/
def Abandoned (w : World) : Prop :=
  w.phase = .released ∧ ∀ state ∈ w.history, state.status.isTerminal = false

omit [Toolchain] in
theorem stable_abandoned : Stable .start Abandoned := fun w w' hrely hw => by
  refine ⟨Phase.released_mayBecome (hw.1 ▸ hrely.later.phase), ?_⟩
  rw [(hrely.later.final hw.1).2]
  exact hw.2

omit [Toolchain] in
/-- A released run with a live state has never had a terminal one. -/
theorem abandoned_of_live {w : World} (h : Recorded w) (hphase : w.phase = .released)
    {state : RunState} (hstate : w.state? = some state) (hlive : state.status.isTerminal = false) :
    Abandoned w := by
  refine ⟨hphase, ?_⟩
  have hhead := (h.document (by rw [hphase]; decide)).symm.trans hstate
  obtain ⟨rest, hrest⟩ := List.head?_eq_some_iff.mp hhead
  have hl := h.lifecycle
  rw [hrest] at hl ⊢
  exact List.forall_mem_cons.mpr ⟨hlive, hl.tail_live⟩

theorem startConclusions_abandoned : StartConclusions .start
    (fun {_} c a w => observed setup aloneWithSupervisor .start (.inr c) a w)
    (fun p => p.early = false) (fun _ => True) Abandoned where
  stable p q h hp := by
    revert hp h
    cases p <;> cases q <;> decide
  seen p state w h := by
    cases h with
    | @held a w₁ _ hsince htry htest =>
      have hsupervisor : w₁.lock = some .supervisor := by
        obtain hlock | hlock | hlock := htry.1.2
        · have hresult := htest.result
          rw [hlock] at hresult
          cases hresult
        · exact absurd hlock htest.own
        · exact hlock
      have hphase := htest.phase
      rw [htry.2.2.1.lock.mpr hsupervisor] at hphase
      revert hphase
      cases w.phase <;> decide
  returned _ _ _ _ _ := trivial
  givenUp p state w hsupervised h hlive hcase := by
    cases h with
    | terminal _ _ hterminal => rw [hlive] at hterminal; cases hterminal
    | @fresh a₁ a₂ w₁ w₂ _ hsince htry htest hfound hread hstate hlater =>
      have hfree : w₁.lock = none := Option.not_isSome_iff_eq_none.mp (by rw [← htest.result]; decide)
      have hnot := htry.2.2.1.not_active_of_free hfree
      have hlate : w₁.phase.early = false := by
        obtain ⟨hcreated, hstarting⟩ | hseen := hcase
        · -- A live state past `starting` with an early test would be a running race.
          cases hearly : w₁.phase.early with
          | false => rfl
          | true =>
            refine absurd ⟨hfound, ?_, ?_⟩ hread.1.1
            · rw [htest.tested, Option.any_some]
              exact hearly
            · rw [hstate, Option.any_some]
              revert hcreated hstarting hlive
              cases state.status <;> decide
        · revert hseen hsince
          cases p <;> cases w₁.phase <;> decide
      have hreleased : w₂.phase = .released := by
        have hfinished := Phase.finished_of_late hlate (Phase.mayBecome_refl _) hnot
        have hsup₁ := Phase.supervised_mayBecome hsupervised hsince
        have hphase := htest.phase
        revert hfinished hsup₁ hphase
        cases w₁.phase <;> cases w₂.phase <;> decide
      have habandoned := abandoned_of_live hread.2.2.2 hreleased hstate hlive
      refine ⟨Phase.released_mayBecome (hreleased ▸ hlater.phase), ?_⟩
      rw [(hlater.final hreleased).2]
      exact habandoned.2

/-- `start` gives up only on a supervisor that has released its lock without a
    terminal state. -/
def GivenUpAbandoned (cfg : system.Config) : Prop :=
  ∀ e : AppError, cfg.thread .start = .ret (.error e) → e.kind = "supervisor_exit" →
    cfg.world.phase = .released ∧ ∀ state ∈ cfg.world.history, state.status.isTerminal = false

/-- In a run without a running race, in which no other client moves. -/
theorem supervisor_exit_abandoned (setup : Setup) (hidle : ∀ n, ∃ r, setup.clients n = .ret r)
    {cfg : system.Config} (h : Machine.Reach noRunningRace setup.initial cfg) :
    GivenUpAbandoned cfg :=
  fun e he hkind => (start_result (P := fun _ => True) (fun _ _ _ _ => trivial) stable_abandoned
    startConclusions_abandoned (reach_alone hidle h) he).2 e rfl hkind

end Procherd

namespace Procherd.Reference

open Interaction

/-- The kind of the error of `start`. -/
def startFailed? (cfg : system.Config) : Option String :=
  match (cfg.thread .start).result? with
  | some (.error e) => some e.kind
  | _ => none

theorem thread_of_startFailed {cfg : system.Config} {kind : String}
    (h : startFailed? cfg = some kind) : ∃ e, cfg.thread .start = .ret (.error e) ∧ e.kind = kind := by
  unfold startFailed? at h
  split at h
  · rename_i e he
    exact ⟨e, Prog.eq_ret_of_result? he, Option.some.inj h⟩
  · cases h

/-- A move that is not a read of `start` in a running race. -/
def avoidsRunningRace (cfg : system.Config) (_ : system.Move) : Bool :=
  decide (¬ RunningRace cfg.world)

theorem meets_noRunningRace (cfg : system.Config) (m : system.Move) (h : avoidsRunningRace cfg m) :
    Machine.Meets (M := system) noRunningRace cfg m := by
  intro β c k _
  have hrace := of_decide_eq_true h
  obtain ⟨i, a⟩ := m
  cases i with
  | start =>
    cases c with
    | inl c => trivial
    | inr c => cases c <;> trivial
  | _ => trivial

/-- The supervisor can neither read its spec nor mark its failure. -/
theorem supervisor_exit_abandoned_unreadable : ∃ cfg : system.Config,
    startFailed? cfg = some "supervisor_exit" ∧ cfg.world.phase = .released := by
  have hrun : (Machine.runChecked avoidsRunningRace (setup idle).initial
      (steps .start 9 {} ++ steps .supervisor 1 {} ++ steps .start 3 {} ++
        steps .supervisor 3 { fault := some (.document "unreadable") } ++ steps .start 6 {})).map
      startFailed? = some (some "supervisor_exit") := by decide +kernel
  obtain ⟨cfg, hcfg, hfailed⟩ := Option.map_eq_some_iff.mp hrun
  obtain ⟨e, he, hkind⟩ := thread_of_startFailed hfailed
  exact ⟨cfg, hfailed, (supervisor_exit_abandoned (setup idle) (fun _ => ⟨_, rfl⟩)
    (.of_runChecked meets_noRunningRace hcfg) e he hkind).1⟩

/-- `start` finds the lock free before the supervisor acquires it, and reads the
    state after the supervisor has started the process. -/
theorem supervisor_exit_race : ∃ cfg : system.Config,
    Machine.Reach system.always (setup idle).initial cfg ∧ ¬ GivenUpAbandoned cfg := by
  have hrun : (Machine.run (setup idle).initial
      (steps .start 13 {} ++ steps .supervisor 20 {} ++ steps .start 1 {})).map
      (fun cfg => (startFailed? cfg, cfg.world.phase)) =
      some (some "supervisor_exit", .active) := by decide +kernel
  obtain ⟨cfg, hcfg, h⟩ := Option.map_eq_some_iff.mp hrun
  obtain ⟨hfailed, hphase⟩ := Prod.mk.inj h
  obtain ⟨e, he, hkind⟩ := thread_of_startFailed hfailed
  refine ⟨cfg, .of_run hcfg, fun habandoned => ?_⟩
  have hreleased := (habandoned e he hkind).1
  rw [hphase] at hreleased
  cases hreleased

end Procherd.Reference
