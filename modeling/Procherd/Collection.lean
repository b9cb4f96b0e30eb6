-- SUMMARY: Garbage collection: what `gc` may conclude from its separate reads and tests of a run, and that it only removes settled runs.
import Procherd.Projection
import Procherd.Reference

/-!
# Collection

`gc` reads the state of a run, tests its lock, may read the state again, and
before it removes the directory tests the lock and reads the state once more.
Each of these may see another moment. A terminal state is nevertheless the last
one, and once it is there, a free lock means that the supervisor is finished.
-/

namespace Procherd

open Interaction

variable [Toolchain] {setup : StoreSetup} {ok : storeSystem.Condition} {cfg cfg' : storeSystem.Config}

/-! ## The runs of a store -/

/-- What observers rely on holds of every run that is not being removed. -/
def Intact (w : StoreWorld) : Prop :=
  ∀ id, w.removal id = none → Observable (w.run id) ∧ Recorded (w.run id)

theorem reach_intact (h : Machine.Reach ok setup.initial cfg) : Intact cfg.world := by
  intro id hremoval
  have hruns : Machine.Reach (onRuns system.always) setup.initial cfg :=
    h.mono fun _ _ _ _ _ _ => onRuns_always
  obtain ⟨setup', cfg', -, hreach, hworld, -⟩ := reach_run (fun _ _ _ _ => trivial) hruns hremoval
  rw [← hworld]
  exact reach_world hreach

/-- The contents of `state.json` so far are never forgotten. -/
theorem exec_history {β : Type} {t : Thread} {c : t.Cmd β} {a : Answer} {w w' : World} {b : β}
    (h : exec t c a w = some (b, w')) : w.history <:+ w'.history := by
  have hsame (hhistory : w'.history = w.history) : w.history <:+ w'.history :=
    hhistory ▸ List.suffix_rfl
  have hset {state : RunState} (hw : w' = w ∨ w' = w.setState state) : w.history <:+ w'.history := by
    obtain rfl | rfl := hw
    · exact List.suffix_rfl
    · exact List.suffix_cons ..
  have hcommitted {state : RunState} {r : Except AppError Unit}
      (h : committed a w ((), w.setState state) = some (r, w')) : w.history <:+ w'.history := by
    obtain ⟨_, _, _, hw⟩ | ⟨_, _, hw⟩ := committed_cases h
    · exact hset hw
    · exact hset (.inr hw)
  cases t with
  | start =>
    cases c with
    | inl c =>
      cases c with
      | writeNewState state => exact hcommitted h
      | replaceState state => exact hcommitted h
      | _ =>
        apply hsame
        simp only [exec, execEither, execCreate, fallible] at h
        repeat' split at h
        all_goals cases h <;> rfl
    | inr c => exact hsame (by rw [execClient_frame (show execClient _ c a w = _ from h)])
  | supervisor =>
    cases c with
    | inl c => exact hsame (by rw [execLock_frame (show execLock c a w = _ from h)])
    | inr c =>
      cases hc : c.writesState with
      | false => exact hsame (execBody_state hc h).2
      | true =>
        cases c with
        | persistState state => exact hcommitted h
        | _ => cases hc
  | reader stream => exact hsame (by rw [execReader_frame (show execReader stream c a w = _ from h)])
  | client n => exact hsame (by rw [execClient_frame (show execClient _ c a w = _ from h)])

/-! ## What a client relies on -/

/-- What a step keeps of what a client knows about the runs. -/
structure Keeps (n : Nat) (w w' : StoreWorld) : Prop where
  observedAtMs : w'.observedAtMs n = w.observedAtMs n
  removal : ∀ id r, w.removal id = some r → w'.removal id = some r
  phase : ∀ id, (w.run id).phase.mayBecome (w'.run id).phase
  /-- A terminal state is the last one. -/
  settled : ∀ id state, w'.removal id = none → (w.run id).history.head? = some state →
    state.status.isTerminal → (w'.run id).history.head? = some state

namespace Keeps

variable {n : Nat} {w w' w₁ w₂ w₃ : StoreWorld}

omit [Toolchain] in
theorem refl (n : Nat) (w : StoreWorld) : Keeps n w w :=
  ⟨rfl, fun _ _ => id, fun _ => Phase.mayBecome_refl _, fun _ _ _ h _ => h⟩

omit [Toolchain] in
theorem unremoved (h : Keeps n w w') {id : String} (hremoval : w'.removal id = none) :
    w.removal id = none := by
  cases hw : w.removal id with
  | none => rfl
  | some r => exact nomatch (h.removal id r hw).symm.trans hremoval

omit [Toolchain] in
theorem trans (h : Keeps n w₁ w₂) (h' : Keeps n w₂ w₃) : Keeps n w₁ w₃ where
  observedAtMs := h'.observedAtMs.trans h.observedAtMs
  removal id r hr := h'.removal id r (h.removal id r hr)
  phase id := Phase.mayBecome_trans (h.phase id) (h'.phase id)
  settled id state hremoval hhead hterminal :=
    h'.settled id state hremoval (h.settled id state (h'.unremoved hremoval) hhead hterminal) hterminal

end Keeps

/-- A later world, with the client's own tests of locks unchanged. -/
structure StoreRely (n : Nat) (w w' : StoreWorld) : Prop extends Keeps n w w' where
  tested : ∀ id, (w'.run id).tested (.client n) = (w.run id).tested (.client n)

omit [Toolchain] in
theorem StoreRely.refl (n : Nat) (w : StoreWorld) : StoreRely n w w :=
  ⟨.refl n w, fun _ => rfl⟩

omit [Toolchain] in
theorem StoreRely.trans {n : Nat} {w₁ w₂ w₃ : StoreWorld} (h : StoreRely n w₁ w₂)
    (h' : StoreRely n w₂ w₃) : StoreRely n w₁ w₃ :=
  ⟨h.toKeeps.trans h'.toKeeps, fun id => (h'.tested id).trans (h.tested id)⟩

/-- The step leads to a world in which the other runs are intact. -/
def reached (ok : storeSystem.Condition) : storeSystem.Condition := fun i _ c a w =>
  ok i c a w ∧ Intact w ∧ ∀ b w', i.exec c a w = some (b, w') → Intact w'

theorem reach_reached (h : Machine.Reach ok setup.initial cfg) :
    Machine.Reach (reached ok) setup.initial cfg :=
  h.with_reached fun _ => reach_intact

section Step

variable {i : StoreThread} {β : Type} {c : i.Cmd β} {a : StoreAnswer} {w w' : StoreWorld} {b : β}

omit [Toolchain] in
theorem head_of_suffix {w w' : World} (hrecorded : Recorded w') (h : w.history <:+ w'.history)
    {state : RunState} (hhead : w.history.head? = some state) (hterminal : state.status.isTerminal) :
    w'.history.head? = some state := by
  obtain ⟨rest, hrest⟩ := List.head?_eq_some_iff.mp hhead
  obtain ⟨newer, hnewer⟩ := h
  cases newer with
  | nil => rw [← hnewer]; exact hhead
  | cons newest newer =>
    have hlive := hrecorded.lifecycle
    rw [← hnewer, hrest] at hlive
    have hstate := hlive.tail_live state (List.mem_append_right _ (List.mem_cons_self ..))
    rw [hterminal] at hstate
    cases hstate

/-- Whatever a step does to a run, its phase moves forward and its history
    grows. -/
theorem exec_run (h : i.exec c a w = some (b, w')) (id : String) :
    (w.run id).phase.mayBecome (w'.run id).phase ∧ (w.run id).history <:+ (w'.run id).history := by
  have hstep := StoreThread.exec_runStep onRuns_always h id
  generalize w'.run id = run at hstep
  cases hstep with
  | command ht hok hexec => exact ⟨exec_mayBecome hexec, exec_history hexec⟩
  | unlink hr entry => cases entry <;> exact ⟨Phase.mayBecome_refl _, List.suffix_rfl⟩
  | _ => exact ⟨Phase.mayBecome_refl _, List.suffix_rfl⟩

theorem keeps_of_exec {n : Nat} (hreached : Intact w') (h : i.exec c a w = some (b, w'))
    (hnow : w'.observedAtMs n = w.observedAtMs n) : Keeps n w w' := by
  refine ⟨hnow, fun id r hr => ?_, fun id => (exec_run h id).1, fun id state hremoval hhead hterminal => ?_⟩
  · obtain hkeep | ⟨_, -, hnone, -⟩ := StoreThread.exec_removal h id
    · exact hkeep.trans hr
    · exact nomatch hr.symm.trans hnone
  · exact head_of_suffix (hreached id hremoval).2 (exec_run h id).2 hhead hterminal

/-- Only the client's own `now` changes its reading of the clock. -/
theorem exec_observedAtMs {n : Nat} (hi : i ≠ .client n) (h : i.exec c a w = some (b, w')) :
    w'.observedAtMs n = w.observedAtMs n := by
  cases i with
  | run j t =>
    cases t with
    | client m => cases h
    | _ =>
      obtain ⟨r, -, hw⟩ := Option.map_eq_some_iff.mp h
      cases hw
      rfl
  | client m =>
    cases c with
    | inr c =>
      obtain ⟨r, -, hw⟩ := Option.map_eq_some_iff.mp h
      cases hw
      rfl
    | inl c =>
      cases c with
      | now =>
        cases h
        exact Function.update_of_ne (fun hm => hi (by rw [hm])) _ _
      | unlink j =>
        obtain ⟨-, rfl⟩ | ⟨-, -, rfl⟩ :=
          execRoot_unlink (show execRoot m (.unlink j) a w = some (b, w') from h)
        · rfl
        · rw [(StoreWorld.removal_unlink _ j a.entry).2, StoreWorld.observedAtMs_noteRemoval]
      | _ =>
        obtain ⟨_, -, -, rfl⟩ | ⟨-, h⟩ := storeFallible_cases h
        · rfl
        · cases h; rfl

theorem storeRely_of_exec {n : Nat} (hi : i ≠ .client n) (hok : reached ok i c a w)
    (h : i.exec c a w = some (b, w')) : StoreRely n w w' := by
  refine ⟨keeps_of_exec (hok.2.2 b w' h) h (exec_observedAtMs hi h), fun id => ?_⟩
  have hstep := StoreThread.exec_runStep onRuns_always h id
  generalize w'.run id = run at hstep
  cases hstep with
  | @command t _ _ _ _ ht hok hexec =>
    refine (exec_tested (by simp) (fun hn => hi ?_) hexec).1
    subst hn
    cases i with
    | run j t =>
      -- A client is not a thread of a run.
      simp only [StoreThread.as] at ht
      split at ht <;> cases ht
      cases h
    | client m => cases ht; rfl
  | unlink hr entry => cases entry <;> rfl
  | _ => rfl

end Step

/-! ## The commands of a client -/

section Client

variable (ok : storeSystem.Condition) (n : Nat) (O : Prop) (G : String → StoreWorld → Prop)

/-- The interface of a client that only observes the runs if `O` holds, and
    removes entries of a run directory only where `G` holds. -/
@[reducible] def collector : Interface StoreCmd StoreWorld where
  step c w b w' := ∃ a, reached ok (.client n) c a w ∧
    StoreThread.exec (.client n) c a w = some (b, w')
  rely := StoreRely n
  guar c w _ _ := match c with
    | .inl (.unlink id) => G id w
    | .inl _ => True
    | .inr c => O → c.cmd.quiet = false
  rely_refl := .refl n
  rely_trans := .trans

/-- The interface of its commands on one run. -/
@[reducible] def collectorOn (id : String) : Interface ClientCmd StoreWorld :=
  (collector ok n O G).comap fun c => .inr { id, cmd := c }

variable {ok n O G} {id : String} {w : StoreWorld} {s : Unit} {α : Type}

/-- What the steps of a client and of the others keep. -/
def Kept (n : Nat) (P : StoreWorld → Prop) : Prop := ∀ w w', Keeps n w w' → P w → P w'

theorem wp_on {c : ClientCmd (Except AppError α)} (hc : c.quiet = false) {Q : α → Unit → StoreWorld → Prop}
    {E : AppError → Unit → StoreWorld → Prop}
    (h : ∀ a w₁ r run, StoreRely n w w₁ → reached ok (.client n) (.inr { id, cmd := c }) a w₁ →
      execClient (.client n) c a.toAnswer (w₁.run id) = some (r, run) →
      Keeps n w₁ (w₁.setRun id run) → Proc.Post Q E (r, s) (w₁.setRun id run)) :
    Proc.wp (collectorOn ok n O G id) (Proc.attempt c) Q E s w := by
  apply Proc.wp_attempt
  rintro w₁ hrely r w₂ ⟨a, hok, hexec⟩
  refine ⟨fun _ => hc, ?_⟩
  have hkeeps := keeps_of_exec (n := n) (hok.2.2 r w₂ hexec) hexec
  obtain ⟨⟨r', run⟩, hrun, hw⟩ := Option.map_eq_some_iff.mp hexec
  cases hw
  exact h a w₁ _ run hrely hok hrun (hkeeps rfl)

/-! ### Errors -/

/-- The kinds of the errors of reading a state and testing a lock. -/
def AppError.ordinary (e : AppError) : Prop :=
  e.kind = "io" ∨ e.kind = "integrity" ∨ e.kind = "not_found"

omit [Toolchain] in
theorem Fault.error_ordinary (fault : Fault) : fault.error.ordinary := by
  cases fault with
  | io error => exact .inl rfl
  | document message => exact .inr (.inl rfl)

omit [Toolchain] in
theorem AppError.ordinary.ne {e : AppError} (h : e.ordinary) : e.kind ≠ "gc_live_run" := by
  obtain h | h | h := h <;> rw [h] <;> decide

omit [Toolchain] in
theorem checkRunSchema_ordinary {state : RunState} {e : AppError}
    (h : checkRunSchema state = .error e) : e.ordinary := by
  unfold checkRunSchema at h
  split at h
  · cases h; exact .inr (.inl rfl)
  · cases h

section Commands

variable {t : Thread} {a : Answer} {run run' : World} {e : AppError}

theorem readState_ordinary (h : execClient t .readState a run = some (.error e, run')) :
    e.ordinary := by
  obtain ⟨fault, -, hr, -⟩ | ⟨-, h⟩ := fallible_cases h
  · rw [Except.error.inj hr]
    exact fault.error_ordinary
  have hr := congrArg Prod.fst (Option.some.inj h)
  simp only at hr
  split at hr
  · cases hfile : run.stateJson.read run.statePath with
    | error e' =>
      rw [hfile] at hr
      cases hr
      exact (StateFile.read_error hfile).imp_right .inl
    | ok found =>
      rw [hfile] at hr
      exact .inr (.inl (checkState_error hr))
  · cases hr
    exact .inr (.inr rfl)

theorem tryLock_ordinary (h : execClient t .tryLock a run = some (.error e, run')) :
    e.ordinary := by
  obtain ⟨fault, -, hr, -⟩ | ⟨-, h⟩ := fallible_cases h
  · rw [Except.error.inj hr]
    exact fault.error_ordinary
  simp only at h
  repeat' split at h
  all_goals cases h
  · exact .inr (.inr rfl)
  · exact .inl rfl

theorem unlock_ordinary (h : execClient t .unlock a run = some (.error e, run')) :
    e.ordinary := by
  simp only [execClient] at h
  obtain ⟨fault, -, hr, -⟩ | ⟨-, h⟩ := fallible_cases h
  · rw [Except.error.inj hr]
    exact fault.error_ordinary
  · cases h

/-- The lock is found free, or held by somebody. -/
theorem tryLock_cases {free : Bool} (h : execClient t .tryLock a run = some (.ok free, run')) :
    run'.tested t = some run.phase ∧ run'.phase = run.phase ∧ free = run.lock.isNone := by
  obtain ⟨fault, -, hr, -⟩ | ⟨-, h⟩ := fallible_cases h
  · cases hr
  simp only at h
  repeat' split at h
  all_goals cases h
  · rename_i hheld
    exact ⟨Function.update_self .., rfl, by rw [hheld]; rfl⟩
  · rename_i hfree
    exact ⟨Function.update_self .., rfl, by rw [hfree]; rfl⟩

end Commands

/-! ### Observing a run -/

/-- A terminal state of a run was seen: unless the run is being removed, the
    supervisor has been active, and the state is the last one. -/
def Saw (id : String) (state : RunState) (w : StoreWorld) : Prop :=
  w.removal id = none →
    (w.run id).phase.early = false ∧ (w.run id).history.head? = some state

omit [Toolchain] in
theorem Phase.late_mayBecome {p q : Phase} (hp : p.early = false) (h : p.mayBecome q) :
    q.early = false := by
  revert hp h
  cases p <;> cases q <;> decide

omit [Toolchain] in
theorem kept_saw (id : String) {state : RunState} (hterminal : state.status.isTerminal) :
    Kept n (Saw id state) := by
  intro w w' hkeeps hsaw hremoval
  have ⟨hlate, hhead⟩ := hsaw (hkeeps.unremoved hremoval)
  exact ⟨Phase.late_mayBecome hlate (hkeeps.phase id),
    hkeeps.settled id state hremoval hhead hterminal⟩

omit [Toolchain] in
theorem Kept.and {P Q : StoreWorld → Prop} (hP : Kept n P) (hQ : Kept n Q) :
    Kept n fun w => P w ∧ Q w :=
  fun w w' h hw => ⟨hP w w' h hw.1, hQ w w' h hw.2⟩

/-- The terminal state that a client reads is the last one. -/
theorem saw_of_readState {a : StoreAnswer} {run : World} {state : RunState} (hintact : Intact w)
    (h : execClient (.client n) .readState a.toAnswer (w.run id) = some (.ok state, run))
    (hterminal : state.status.isTerminal) : Saw id state w := by
  intro hremoval
  have ⟨hobservable, hrecorded⟩ := hintact id hremoval
  have hstate := (execClient_readState h).2.2.1 state rfl
  have hlate := hobservable.late hstate hterminal
  refine ⟨hlate, (hrecorded.document ?_).symm.trans hstate⟩
  intro hunlaunched
  rw [hunlaunched] at hlate
  cases hlate

/-- Why `gc` refuses to remove a run: it found the lock held, or a state that is
    not terminal after one that was. -/
structure Refusals (ok : storeSystem.Condition) (n : Nat) (A : AppError → StoreWorld → Prop) :
    Prop where
  stable : ∀ e w w', StoreRely n w w' → A e w → A e w'
  held : ∀ id a w run, reached ok (.client n) (.inr { id, cmd := .tryLock }) a w →
    execClient (.client n) .tryLock a.toAnswer (w.run id) = some (.ok false, run) →
    A (gcLiveRun "active" id) (w.setRun id run)
  reread : ∀ id a w run state, reached ok (.client n) (.inr { id, cmd := .readState }) a w →
    w.removal id ≠ none →
    execClient (.client n) .readState a.toAnswer (w.run id) = some (.ok state, run) →
    state.status.isTerminal = false → A (gcLiveRun "non-terminal" id) (w.setRun id run)

/-- The errors of `gc`. -/
def RefusesLive (A : AppError → StoreWorld → Prop) (e : AppError) (_ : Unit) (w : StoreWorld) :
    Prop :=
  e.kind = "gc_live_run" → A e w

variable {A : AppError → StoreWorld → Prop} {P : StoreWorld → Prop}

omit [Toolchain] in
theorem refusesLive_of_ordinary {e : AppError} (h : e.ordinary) : RefusesLive A e s w :=
  fun hkind => absurd hkind h.ne

/-- A read of the state. -/
theorem wp_readState_on (hP : Kept n P) (hw : P w) {Q : RunState → Unit → StoreWorld → Prop}
    (h : ∀ state a w₁ run, reached ok (.client n) (.inr { id, cmd := .readState }) a w₁ →
      execClient (.client n) .readState a.toAnswer (w₁.run id) = some (.ok state, run) →
      Keeps n w₁ (w₁.setRun id run) → P w₁ → Q state s (w₁.setRun id run)) :
    Proc.wp (collectorOn ok n O G id) (Proc.attempt .readState) Q (RefusesLive A) s w := by
  refine wp_on rfl fun a w₁ r run hrely hok hexec hkeeps => ?_
  cases r with
  | error e => exact refusesLive_of_ordinary (s := s) (readState_ordinary hexec)
  | ok state => exact h state a w₁ run hok hexec hkeeps (hP _ _ hrely.toKeeps hw)

theorem wp_supervisorActive_on (hA : Refusals ok n A) (hP : Kept n P) (hw : P w) :
    Proc.wp (collectorOn ok n O G id) supervisorActive
      (fun active _ w' => P w' ∧ (active = true → A (gcLiveRun "active" id) w') ∧
        (active = false → ∃ w₁, P w₁ ∧
        Intact w₁ ∧ (w₁.run id).lock = none ∧ Keeps n w₁ w')) (RefusesLive A) s w := by
  refine Proc.wp_bind (wp_on rfl fun a w₁ r run hrely hok hexec hkeeps => ?_)
  have hw₁ := hP _ _ hrely.toKeeps hw
  cases r with
  | error e => exact refusesLive_of_ordinary (s := s) (tryLock_ordinary hexec)
  | ok free =>
    cases free with
    | false =>
      exact Proc.wp_pure ⟨hP _ _ hkeeps hw₁, fun _ => hA.held id a w₁ run hok hexec, nofun⟩
    | true =>
      have hfree : (w₁.run id).lock = none :=
        Option.isNone_iff_eq_none.mp (tryLock_cases hexec).2.2.symm
      refine Proc.wp_bind (wp_on rfl fun a₂ w₂ r run₂ hrely₂ hok₂ hexec₂ hkeeps₂ => ?_)
      cases r with
      | error e => exact refusesLive_of_ordinary (s := s) (unlock_ordinary hexec₂)
      | ok u =>
        have hlater := (hkeeps.trans hrely₂.toKeeps).trans hkeeps₂
        exact Proc.wp_pure ⟨hP _ _ hlater hw₁, nofun, fun _ => ⟨w₁, hw₁, hok.2.1, hfree, hlater⟩⟩

/-- A terminal state in a view is the last state of the run. -/
theorem wp_loadView_on (hA : Refusals ok n A) (hP : Kept n P) (hw : P w) :
    Proc.wp (collectorOn ok n O G id) loadView
      (fun view _ w' => P w' ∧ (view.state.status.isTerminal → Saw id view.state w'))
      (RefusesLive A) s w := by
  refine Proc.wp_seq (fun r _ w' => P w' ∧ (r.1.status.isTerminal → Saw id r.1 w')) ?_
    fun r s w hr => Proc.wp_pure hr
  refine Proc.wp_bind (wp_readState_on hP hw fun state a w₁ run hok hexec hkeeps hw₁ => ?_)
  refine Proc.wp_bind (Proc.wp_ofExcept (fun _ _ => ?_) fun _ h =>
    refusesLive_of_ordinary (checkRunSchema_ordinary h))
  have hsaw (hterminal : state.status.isTerminal) : Saw id state (w₁.setRun id run) :=
    kept_saw _ hterminal _ _ hkeeps (saw_of_readState hok.2.1 hexec hterminal)
  have hkept : Kept n fun w => P w ∧ (state.status.isTerminal → Saw id state w) :=
    hP.and fun w w' h hw hterminal => kept_saw _ hterminal w w' h (hw hterminal)
  refine Proc.wp_seq _ (wp_supervisorActive_on hA hkept ⟨hP _ _ hkeeps hw₁, hsaw⟩)
    fun active s w h => ?_
  obtain ⟨hw, -⟩ := h
  split
  · refine Proc.wp_bind (wp_readState_on hP hw.1 fun state a w₁ run hok hexec hkeeps hw₁ => ?_)
    refine Proc.wp_bind (Proc.wp_ofExcept (fun _ _ => ?_) fun _ h =>
      refusesLive_of_ordinary (checkRunSchema_ordinary h))
    exact Proc.wp_pure ⟨hP _ _ hkeeps hw₁, fun hterminal =>
      kept_saw _ hterminal _ _ hkeeps (saw_of_readState hok.2.1 hexec hterminal)⟩
  · exact Proc.wp_pure hw

/-! ### gc -/

/-- The client has read the clock. -/
def Timed (n observedAtMs : Nat) (w : StoreWorld) : Prop :=
  w.observedAtMs n = some observedAtMs

/-- What is known of a run that `gc` removes. -/
structure Removable (n olderThanMs : Nat) (id : String) (w : StoreWorld) : Prop where
  aged : ∃ observedAtMs state, w.observedAtMs n = some observedAtMs ∧
    (w.run id).state? = some state ∧ state.status.isTerminal ∧
    olderThanMs ≤ observedAtMs - state.updatedAtMs
  finished : (w.run id).phase.finished

/-- A terminal run is removed only once its supervisor is finished. -/
@[reducible] def gcInterface (ok : storeSystem.Condition) (n olderThanMs : Nat) :
    Interface StoreCmd StoreWorld :=
  collector ok n True fun id w => w.removal id = none → Removable n olderThanMs id w

omit [Toolchain] in
theorem kept_timed (n observedAtMs : Nat) : Kept n (Timed n observedAtMs) :=
  fun _ _ h hw => h.observedAtMs.trans hw

/-- A command that looks at the state root. -/
theorem wp_scan {c : RootCmd (Except AppError α)}
    (hc : ∀ a w, ∃ r, (∀ e, r = .error e → e.ordinary) ∧
      execRoot n c a w = storeFallible a w (r, w))
    (hguar : ∀ w b w', (collector ok n O G).guar (.inl c) w b w') (hP : Kept n P) (hw : P w) :
    Proc.wp (collector ok n O G) (Proc.attempt (.inl c)) (fun _ _ => P) (RefusesLive A) s w := by
  apply Proc.wp_attempt
  rintro w₁ hrely r w₂ ⟨a, hok, hexec⟩
  refine ⟨hguar w₁ r w₂, ?_⟩
  obtain ⟨r', hr', heq⟩ := hc a w₁
  have hexec : storeFallible a w₁ (r', w₁) = some (r, w₂) := heq ▸ hexec
  obtain ⟨fault, -, rfl, rfl⟩ | ⟨-, h⟩ := storeFallible_cases hexec
  · exact refusesLive_of_ordinary (s := s) fault.error_ordinary
  · cases h
    cases r with
    | error e => exact refusesLive_of_ordinary (s := s) (hr' e rfl)
    | ok x => exact hP _ _ hrely.toKeeps hw

theorem wp_scanEntries {names : List String} (hP : Kept n P) (hw : P w) :
    Proc.wp (collector ok n O G) (scanEntries names) (fun _ _ => P) (RefusesLive A) s w := by
  induction names generalizing s w with
  | nil => exact Proc.wp_pure hw
  | cons name names ih =>
    refine Proc.wp_seq _ (wp_scan (fun a w => ⟨.ok (w.run name).dir, nofun, rfl⟩)
      (fun _ _ _ => trivial) hP hw) fun isDir s w hw => ?_
    exact Proc.wp_seq _ (ih hw) fun ids s w hw => Proc.wp_pure hw

theorem wp_listRunIds (hP : Kept n P) (hw : P w) :
    Proc.wp (collector ok n O G) listRunIds (fun _ _ => P) (RefusesLive A) s w := by
  refine Proc.wp_seq _ (wp_scan (fun a w => ⟨.ok (w.entries ++ a.appearing).dedup, nofun, rfl⟩)
    (fun _ _ _ => trivial) hP hw) fun names s w hw => ?_
  exact Proc.wp_seq _ (wp_scanEntries hP hw) fun ids s w hw => Proc.wp_pure hw

/-- A run of which `gc` saw a terminal state of age, then a free lock. -/
def Settling (n observedAtMs : Nat) (id : String) (state : RunState) (w : StoreWorld) : Prop :=
  (Timed n observedAtMs w ∧ Saw id state w) ∧ (w.removal id = none → (w.run id).phase.finished)

omit [Toolchain] in
theorem kept_settling {observedAtMs : Nat} {state : RunState}
    (hterminal : state.status.isTerminal) : Kept n (Settling n observedAtMs id state) :=
  ((kept_timed n observedAtMs).and (kept_saw _ hterminal)).and fun _ _ h hw hremoval =>
    Phase.finished_mayBecome (hw (h.unremoved hremoval)) (h.phase id)

omit [Toolchain] in
theorem Settling.removable {observedAtMs olderThanMs : Nat} {state : RunState}
    (h : Settling n observedAtMs id state w) (hintact : Intact w)
    (hterminal : state.status.isTerminal) (hage : olderThanMs ≤ observedAtMs - state.updatedAtMs)
    (hremoval : w.removal id = none) : Removable n olderThanMs id w := by
  have ⟨hlate, hhead⟩ := h.1.2 hremoval
  refine ⟨⟨observedAtMs, state, h.1.1, ?_, hterminal, hage⟩, h.2 hremoval⟩
  refine ((hintact id hremoval).2.document fun hunlaunched => ?_).trans hhead
  rw [hunlaunched] at hlate
  cases hlate

theorem wp_removeDirAll {observedAtMs olderThanMs : Nat} {state : RunState}
    (hterminal : state.status.isTerminal) (hage : olderThanMs ≤ observedAtMs - state.updatedAtMs)
    (hw : Settling n observedAtMs id state w) :
    Proc.wp (gcInterface ok n olderThanMs) (removeDirAll id)
      (fun _ _ => Timed n observedAtMs) (RefusesLive A) s w := by
  refine Proc.wp_repeatUntil (fun _ => Settling n observedAtMs id state) (fun s w hw => ?_) hw
  refine Proc.wp_seq (fun _ _ => Settling n observedAtMs id state) ?_ fun done s w hw => ?_
  · apply Proc.wp_attempt
    rintro w₁ hrely r w₂ ⟨a, hok, hexec⟩
    have hw₁ := kept_settling hterminal _ _ hrely.toKeeps hw
    refine ⟨hw₁.removable hok.2.1 hterminal hage, ?_⟩
    obtain ⟨⟨e, rfl, he⟩, -⟩ | ⟨-, rfl, hw₂⟩ :=
      execRoot_unlink (show execRoot n (.unlink id) a w₁ = some (r, w₂) from hexec)
    · exact refusesLive_of_ordinary (s := s) (he.imp_right .inl)
    · refine kept_settling hterminal w₁ w₂ (keeps_of_exec (hok.2.2 _ _ hexec) hexec ?_) hw₁
      rw [hw₂, (StoreWorld.removal_unlink _ id a.entry).2, StoreWorld.observedAtMs_noteRemoval]
  · cases done with
    | true => exact Proc.wp_pure hw.1.1
    | false => exact Proc.wp_pure hw

theorem wp_removeTerminalRun (hA : Refusals ok n A) {observedAtMs olderThanMs : Nat}
    {state : RunState} (hterminal : state.status.isTerminal)
    (hage : olderThanMs ≤ observedAtMs - state.updatedAtMs)
    (hw : Timed n observedAtMs w ∧ Saw id state w) :
    Proc.wp (gcInterface ok n olderThanMs) (removeTerminalRun id)
      (fun _ _ => Timed n observedAtMs) (RefusesLive A) s w := by
  have hkept := (kept_timed n observedAtMs).and (kept_saw id hterminal)
  refine Proc.wp_bind (Proc.wp_ofExcept (fun _ _ => ?_) fun e h hkind => ?_)
  swap
  · rw [canonicalRunId_error h] at hkind
    exact absurd hkind (by decide)
  refine Proc.wp_seq _ (wp_scan (fun a w => ?_) (fun _ _ _ => trivial) hkept hw)
    fun _ s w hw => ?_
  · refine ⟨if (w.run id).dir then .ok () else .error (missingRun (w.run id)), fun e he => ?_, rfl⟩
    split at he <;> cases he
    exact .inr (.inr rfl)
  refine Proc.wp_seq _ (Proc.wp_hoist (wp_supervisorActive_on hA hkept hw)) fun active s w h => ?_
  obtain ⟨hw, hheld, hfree⟩ := h
  refine Proc.wp_bind (Proc.wp_throwIf (fun hactive _ => hheld hactive) fun hactive => ?_)
  have hsettling : Settling n observedAtMs id state w := by
    obtain ⟨w₁, hw₁, hintact, hlock, hkeeps⟩ := hfree (by simpa using hactive)
    refine ⟨hw, fun hremoval => ?_⟩
    have hremoval := hkeeps.unremoved hremoval
    exact Phase.finished_mayBecome (Phase.finished_of_late (hw₁.2 hremoval).1
      (Phase.mayBecome_refl _) ((hintact id hremoval).1.not_active_of_free hlock)) (hkeeps.phase id)
  refine Proc.wp_seq (fun state' _ w => Settling n observedAtMs id state w ∧
      (state'.status.isTerminal = false → A (gcLiveRun "non-terminal" id) w)) (Proc.wp_hoist
    (wp_readState_on (kept_settling hterminal) hsettling
      fun state' a w₁ run hok hexec hkeeps hw₁ => ?_)) fun state' s w h => ?_
  · refine ⟨kept_settling hterminal _ _ hkeeps hw₁, fun hlive => ?_⟩
    refine hA.reread id a w₁ run state' hok (fun hremoval => ?_) hexec hlive
    -- A run that is not being removed still has its terminal state.
    have ⟨hlate, hhead⟩ := hw₁.1.2 hremoval
    have hstate := (execClient_readState hexec).2.2.1 state' rfl
    have hdocument := (hok.2.1 id hremoval).2.document fun hunlaunched => by
      rw [hunlaunched] at hlate
      cases hlate
    rw [hdocument, hhead] at hstate
    cases hstate
    rw [hterminal] at hlive
    cases hlive
  · obtain ⟨hw, hlive⟩ := h
    refine Proc.wp_bind (Proc.wp_throwIf (fun hthrow _ => hlive (by simpa using hthrow)) fun _ => ?_)
    exact wp_removeDirAll hterminal hage hw

omit [Toolchain] in
/-- A run is eligible if its state is terminal and old enough. -/
theorem gcReason_eligible {olderThanMs ageMs : Nat} {view : RunView}
    (h : (gcReason olderThanMs ageMs view).1 = true) :
    view.state.status.isTerminal ∧ olderThanMs ≤ ageMs := by
  unfold gcReason at h
  split at h
  · cases h
  split at h
  · cases h
  rename_i hterminal
  split at h
  · cases h
  rename_i hage
  exact ⟨by simpa using hterminal, Nat.not_lt.mp hage⟩

theorem wp_gcRun (hA : Refusals ok n A) {observedAtMs olderThanMs : Nat} {execute : Bool}
    (hG : execute = true → G = fun id w => w.removal id = none → Removable n olderThanMs id w)
    (hw : Timed n observedAtMs w) :
    Proc.wp (collector ok n True G) (gcRun observedAtMs olderThanMs execute id)
      (fun _ _ => Timed n observedAtMs) (RefusesLive A) s w := by
  refine Proc.wp_seq _ (Proc.wp_hoist (wp_loadView_on hA (kept_timed n observedAtMs) hw))
    fun view s w h => ?_
  obtain ⟨hw, hsaw⟩ := h
  simp only
  split
  · rename_i hexecute
    obtain ⟨hexecute, heligible⟩ := (Bool.and_eq_true_iff ..).mp hexecute
    have ⟨hterminal, hage⟩ := gcReason_eligible heligible
    have hG := hG hexecute
    subst hG
    exact Proc.wp_seq _ (wp_removeTerminalRun hA hterminal hage ⟨hw, hsaw hterminal⟩)
      fun _ s w hw => Proc.wp_pure hw
  · exact Proc.wp_pure hw

theorem wp_gcRuns (hA : Refusals ok n A) {observedAtMs olderThanMs : Nat} {execute : Bool}
    (hG : execute = true → G = fun id w => w.removal id = none → Removable n olderThanMs id w)
    {runIds : List String} (hw : Timed n observedAtMs w) :
    Proc.wp (collector ok n True G) (gcRuns observedAtMs olderThanMs execute runIds)
      (fun _ _ => Timed n observedAtMs) (RefusesLive A) s w := by
  induction runIds generalizing s w with
  | nil => exact Proc.wp_pure hw
  | cons runId runIds ih =>
    refine Proc.wp_seq _ (wp_gcRun hA hG hw) fun entry s w hw => ?_
    exact Proc.wp_seq _ (ih hw) fun entries s w hw => Proc.wp_pure hw

theorem wp_gc (hA : Refusals ok n A) {olderThanMs : Nat} {execute : Bool}
    (hG : execute = true → G = fun id w => w.removal id = none → Removable n olderThanMs id w) :
    Proc.wp (collector ok n True G) (gc olderThanMs execute) (fun _ _ _ => True) (RefusesLive A) s w := by
  refine Proc.wp_seq (fun observedAtMs _ w => Timed n observedAtMs w) (Proc.wp_call ?_)
    fun observedAtMs s w hw => ?_
  · rintro w₁ - now w₂ ⟨a, -, h⟩
    cases h
    exact ⟨trivial, Function.update_self ..⟩
  refine Proc.wp_seq _ (wp_listRunIds (kept_timed n observedAtMs) hw) fun runIds s w hw => ?_
  exact Proc.wp_seq _ (wp_gcRuns hA hG hw) fun entries s w _ => Proc.wp_pure trivial

/-! ### The other clients -/

theorem wp_loadViews (hA : Refusals ok n A) {runIds : List String} :
    Proc.wp (collector ok n O G) (loadViews runIds) (fun _ _ _ => True) (RefusesLive A) s w := by
  induction runIds generalizing s w with
  | nil => exact Proc.wp_pure trivial
  | cons runId runIds ih =>
    refine Proc.wp_seq (fun _ _ _ => True) (Proc.wp_mono (Proc.wp_hoist
      (wp_loadView_on hA (P := fun _ => True) (fun _ _ _ => id) trivial)) (fun _ _ _ _ => trivial)
      fun _ _ _ => id) fun view s w _ => ?_
    exact Proc.wp_seq _ ih fun views s w _ => Proc.wp_pure trivial

theorem wp_list (hA : Refusals ok n A) :
    Proc.wp (collector ok n O G) list (fun _ _ _ => True) (RefusesLive A) s w := by
  refine Proc.wp_seq _ (wp_listRunIds (P := fun _ => True) (fun _ _ _ => id) trivial)
    fun runIds s w _ => ?_
  exact Proc.wp_seq _ (wp_loadViews hA) fun runs s w _ => Proc.wp_pure trivial

/-- When a client may remove an entry of a run directory. -/
def StoreClient.collects (n : Nat) : StoreClient → String → StoreWorld → Prop
  | .gc olderThanMs true => fun id w => w.removal id = none → Removable n olderThanMs id w
  | _ => fun _ _ => False

/-- A client that only observes the runs, apart from removing them. -/
def StoreClient.observes : StoreClient → Prop
  | .use _ => False
  | _ => True

/-- Why a client may end in `gc_live_run`. -/
def StoreResult.refused (A : AppError → StoreWorld → Prop) : StoreResult → StoreWorld → Prop
  | .collected (.error e), w => e.kind = "gc_live_run" → A e w
  | _, _ => True

theorem wp_client (hA : Refusals ok n A) (client : StoreClient) :
    client.program.wp (collector ok n client.observes (client.collects n)) (StoreResult.refused A) w := by
  cases client with
  | list =>
    refine Prog.wp_bind (Prog.wp_mono ?_ (wp_list hA))
    exact fun _ _ _ => Prog.wp_ret trivial
  | gc olderThanMs execute =>
    refine Prog.wp_bind (Prog.wp_mono ?_ (wp_gc hA ?_))
    · rintro ⟨e | result, _⟩ w h
      · exact Prog.wp_ret h
      · exact Prog.wp_ret trivial
    · rintro rfl
      rfl
  | use program =>
    refine Prog.wp_bind (Prog.wp_mono ?_ (Prog.wp_hoist (Prog.wp_of_invariant
      (I := fun _ => True) ?_ (fun _ _ _ _ => trivial) program trivial)))
    · exact fun _ _ _ => Prog.wp_ret trivial
    · exact fun _ _ _ _ _ _ => ⟨fun h => h.elim, trivial⟩

end Client

/-! ## Runs of a store -/

/-- Clients observe runs and remove run directories only where their commands may. -/
def collecting (setup : StoreSetup) : storeSystem.Condition
  | .client n, _, .inl (.unlink id), _, w => (setup.clients n).collects n id w
  | .client n, _, .inr c, _, _ => (setup.clients n).observes → c.cmd.quiet = false
  | _, _, _, _, _ => True

omit [Toolchain] in
theorem refused_stable {A : AppError → StoreWorld → Prop} {n : Nat}
    (hA : ∀ e w w', StoreRely n w w' → A e w → A e w') (r : StoreResult) (w w' : StoreWorld)
    (h : StoreRely n w w') (hr : r.refused A w) : r.refused A w' := by
  cases r with
  | collected result =>
    cases result with
    | error e => exact fun hkind => hA e w w' h (hr hkind)
    | ok result => trivial
  | _ => trivial

theorem describes_client (n : Nat) (O : Prop) (G : String → StoreWorld → Prop) :
    Machine.Describes (reached ok) (.client n) id (collector ok n O G) where
  self _ a _ _ _ hok h := ⟨a, hok, h⟩
  other _ hj _ _ _ _ _ hok h := storeRely_of_exec hj hok h

theorem collecting_of_guar {n : Nat} {β : Type} {c : StoreCmd β} {a : StoreAnswer}
    {w w' : StoreWorld} {b : β}
    (h : (collector ok n (setup.clients n).observes ((setup.clients n).collects n)).guar c w b w') :
    collecting setup (.client n) c a w := by
  cases c with
  | inr c => exact h
  | inl c => cases c <;> exact h

/-- The clients keep to what their commands may do, whatever their errors say. -/
theorem wp_client_unrefused (n : Nat) (w : StoreWorld) :
    (setup.clients n).program.wp
      (collector ok n (setup.clients n).observes ((setup.clients n).collects n))
      (StoreResult.refused fun _ _ => True) w :=
  wp_client ⟨fun _ _ _ _ _ => trivial, fun _ _ _ _ _ _ => trivial,
    fun _ _ _ _ _ _ _ _ _ => trivial⟩ (setup.clients n)

/-- In every run, the clients keep to what their commands may do. -/
theorem reach_collecting (h : Machine.Reach ok setup.initial cfg) :
    Machine.Reach (fun i _ c a w => reached ok i c a w ∧ collecting setup i c a w)
      setup.initial cfg := by
  refine Machine.Reach.strengthen (M := storeSystem) (t := fun n : Nat => StoreThread.client n)
    (V := fun _ => id)
    (L := fun n => collector ok n (setup.clients n).observes ((setup.clients n).collects n))
    (Q := fun _ => StoreResult.refused fun _ _ => True)
    (fun n => describes_client n _ _) (fun _ => refused_stable fun _ _ _ _ _ => trivial)
    (fun n => wp_client_unrefused n _) (fun n _ _ _ _ _ _ hok _ hguar => ⟨hok, ?_⟩)
    (fun j hj β c a w hok => ⟨hok, ?_⟩) (reach_reached h)
  · exact collecting_of_guar hguar
  · cases j with
    | client n => exact absurd rfl (hj n)
    | run id t => trivial

/-- The next command of a client. -/
theorem collecting_next (h : Machine.Reach storeSystem.always setup.initial cfg) {n : Nat} {β : Type}
    {c : StoreCmd β} {k : β → Prog StoreCmd StoreResult} (hp : cfg.thread (.client n) = .exec c k)
    {a : StoreAnswer} {b : β} {w' : StoreWorld}
    (he : StoreThread.exec (.client n) c a cfg.world = some (b, w')) (hw' : Intact w') :
    collecting setup (.client n) c a cfg.world := by
  have hwp := (describes_client n _ _).wp (refused_stable fun _ _ _ _ _ => trivial)
    (wp_client_unrefused n _) (reach_reached h)
  rw [hp] at hwp
  refine collecting_of_guar (Prog.wp_exec_elim hwp ⟨a, ⟨trivial, reach_intact h, ?_⟩, he⟩).1
  rintro b' w'' he'
  cases he.symm.trans he'
  exact hw'

/-- What is known of a run when its removal begins. -/
structure Removal.Settled (setup : StoreSetup) (r : Removal) : Prop where
  command : ∃ olderThanMs observedAtMs state, setup.clients r.client = .gc olderThanMs true ∧
    r.observedAtMs = some observedAtMs ∧ r.run.state? = some state ∧ state.status.isTerminal ∧
    olderThanMs ≤ observedAtMs - state.updatedAtMs
  finished : r.run.phase.finished

/-- The removals of a store: the runs were settled, and are finished for good. -/
def SettledRemovals (setup : StoreSetup) (w : StoreWorld) : Prop :=
  ∀ id r, w.removal id = some r → r.Settled setup ∧ (w.run id).phase = r.run.phase

omit [Toolchain] in
theorem Phase.eq_of_finished {p q : Phase} (hp : p.finished) (h : p.mayBecome q) : q = p := by
  revert hp h
  cases p <;> cases q <;> decide

theorem settledRemovals_step {i : StoreThread} {β : Type} {c : i.Cmd β} {a : StoreAnswer}
    {w w' : StoreWorld} {b : β} (hok : reached ok i c a w ∧ collecting setup i c a w)
    (h : i.exec c a w = some (b, w')) (hw : SettledRemovals setup w) : SettledRemovals setup w' := by
  intro id r hr
  have hphase := (exec_run h id).1
  obtain hkeep | ⟨n, rfl, hnone, hsome⟩ := StoreThread.exec_removal h id
  · rw [hkeep] at hr
    obtain ⟨hsettled, heq⟩ := hw id r hr
    exact ⟨hsettled, (Phase.eq_of_finished (heq ▸ hsettled.finished) hphase).trans heq⟩
  · obtain rfl := Option.some.inj (hr.symm.trans hsome)
    have hremovable : (setup.clients n).collects n id w := by
      cases c with
      | inr c =>
        obtain ⟨_, -, hw'⟩ := Option.map_eq_some_iff.mp h
        cases hw'
        exact nomatch hnone.symm.trans hsome
      | inl c =>
        cases c with
        | unlink j =>
          obtain ⟨-, rfl⟩ | ⟨-, -, rfl⟩ :=
            execRoot_unlink (show execRoot n (.unlink j) a w = some (b, w') from h)
          · exact nomatch hnone.symm.trans hsome
          by_cases hid : id = j
          · subst hid
            exact hok.2
          · rw [(StoreWorld.removal_unlink _ j a.entry).1,
              StoreWorld.removal_noteRemoval_of_ne _ _ _ hid] at hsome
            exact nomatch hnone.symm.trans hsome
        | now => cases h; exact nomatch hnone.symm.trans hsome
        | _ =>
          obtain ⟨_, -, -, rfl⟩ | ⟨-, h⟩ := storeFallible_cases h
          · exact nomatch hnone.symm.trans hsome
          · cases h; exact nomatch hnone.symm.trans hsome
    cases hclient : setup.clients n with
    | gc olderThanMs execute =>
      rw [hclient] at hremovable
      cases execute with
      | false => exact hremovable.elim
      | true =>
        obtain ⟨⟨observedAtMs, state, hobserved, hstate, hterminal, hage⟩, hfinished⟩ :=
          hremovable hnone
        exact ⟨⟨⟨olderThanMs, observedAtMs, state, hclient, hobserved, hstate, hterminal, hage⟩,
          hfinished⟩, Phase.eq_of_finished hfinished hphase⟩
    | _ =>
      rw [hclient] at hremovable
      exact hremovable.elim

theorem reach_settledRemovals (h : Machine.Reach ok setup.initial cfg) :
    SettledRemovals setup cfg.world :=
  (reach_collecting h).invariant (fun _ _ _ _ _ _ _ hok hexec hw => settledRemovals_step hok hexec hw)
    fun _ _ hr => nomatch hr

/-! ## Garbage collection is safe -/

/-- The documents of a run directory. -/
def World.files (w : World) : Bool × Bool × StateFile × Option SupervisorSpec × Option String ×
    Option Bytes × Option Bytes :=
  (w.dir, w.lockFile, w.stateJson, w.specJson, w.ownerToken, w.stopRequest, w.logsNdjson)

theorem execClient_files {t : Thread} {β : Type} {c : ClientCmd β} (hc : c.quiet = false)
    {a : Answer} {w w' : World} {b : β} (h : execClient t c a w = some (b, w')) :
    w'.files = w.files := by
  cases c <;> try cases hc
  all_goals
    simp only [execClient, fallible] at h
    repeat' split at h
    all_goals
      cases h
      rfl

/-- What garbage collection may do to the runs of a store, in a step of the
    thread `i`. -/
structure GcSafe (setup : StoreSetup) (i : StoreThread) (w w' : StoreWorld) : Prop where
  /-- A directory is only removed as part of a removal. -/
  removed : ∀ id, (w.run id).dir = true → (w'.run id).dir = false → (w'.removal id).isSome
  /-- The removed runs were settled, and their supervisors stay away. -/
  settled : ∀ id r, w'.removal id = some r →
    r.Settled setup ∧ (w'.run id).phase = r.run.phase
  dryRun : ∀ n olderThanMs, i = .client n → setup.clients n = .gc olderThanMs false →
    ∀ id, (w'.run id).files = (w.run id).files

theorem gc_safe (setup : StoreSetup) {cfg cfg' : storeSystem.Config} {m : storeSystem.Move}
    (h : Machine.Reach storeSystem.always setup.initial cfg)
    (hs : Machine.step cfg m = some cfg') : GcSafe setup m.1 cfg.world cfg'.world := by
  have hcfg' : Machine.Reach storeSystem.always setup.initial cfg' :=
    h.step hs fun _ _ _ _ => trivial
  obtain ⟨i, a⟩ := m
  obtain ⟨-, ⟨β, c, k, b, hp, he, -⟩ | ⟨_, _, _, _, _, -, hworld, -⟩⟩ := Machine.step_cases hs
  · refine ⟨fun id hdir hdir' => ?_, reach_settledRemovals hcfg', ?_⟩
    · have hstep := StoreThread.exec_runStep onRuns_always he id
      generalize cfg'.world.run id = run at hstep hdir'
      cases hstep with
      | command ht hok hexec => exact nomatch ((exec_keeps hexec).dir hdir).symm.trans hdir'
      | unlink hr entry => exact hr
      | removeDir hr => exact hr
      | _ => exact nomatch hdir.symm.trans hdir'
    · rintro n olderThanMs rfl hclient id
      have hnext := collecting_next h hp he (reach_intact hcfg')
      cases c with
      | inr c =>
        simp only [collecting, hclient] at hnext
        obtain ⟨⟨b', run⟩, hrun, hw'⟩ := Option.map_eq_some_iff.mp he
        have hfiles := execClient_files (hnext trivial) hrun
        rw [← (Prod.mk.inj hw').2]
        by_cases hid : id = c.id
        · subst hid
          rw [StoreWorld.run_setRun]
          exact hfiles
        · rw [StoreWorld.run_setRun_of_ne _ _ _ hid]
          rfl
      | inl c =>
        have he : execRoot n c a cfg.world = some (b, cfg'.world) := he
        cases c with
        | unlink j =>
          simp only [collecting, hclient] at hnext
          exact hnext.elim
        | now => rw [← (Prod.mk.inj (Option.some.inj he)).2]; rfl
        | _ =>
          obtain ⟨_, -, -, hw'⟩ | ⟨-, he⟩ := storeFallible_cases he
          · rw [hw']
          · rw [← (Prod.mk.inj he).2]
  · rw [hworld]
    exact ⟨(fun id hdir hdir' => nomatch hdir.symm.trans hdir'), reach_settledRemovals h,
      fun _ _ _ _ _ => rfl⟩

end Procherd

namespace Procherd.Reference

open Interaction

/-- The runs of the reference options; the clients are all alike. -/
def storeSetup (client : Nat → StoreClient) : StoreSetup :=
  { root := .ofString "/state"
    registry := none
    options := fun id => { options with runId := id }
    runId_eq := fun _ => rfl
    output := fun _ => (setup idle).output
    clients := client }

/-- The moves of one run, as moves of the store. -/
def onStore (id : String) (moves : List system.Move) : List storeSystem.Move :=
  moves.map fun m => (.run id m.1, { m.2 with })

def clientSteps (n count : Nat) (a : StoreAnswer) : List storeSystem.Move :=
  List.replicate count (.client n, a)

/-- From a finished run to the empty directory of the run. -/
def emptying : List storeSystem.Move :=
  onStore options.runId (startUp ++ finish) ++ clientSteps 0 11 {} ++
    [RunEntry.stateJson, .lockFile, .ownerToken, .logsNdjson].flatMap
      fun entry => clientSteps 0 2 { entry }

def collectors : StoreSetup := storeSetup fun _ => .gc 0 true

theorem gc_safe_emptied : ∃ w : StoreWorld, (w.run options.runId).dir = false ∧
    ∃ r, w.removal options.runId = some r ∧ r.Settled collectors := by
  have hrun : (Machine.run collectors.initial emptying).bind (fun cfg =>
      (Machine.step cfg (.client 0, {})).map fun cfg' =>
        ((cfg.world.run options.runId).dir, (cfg'.world.run options.runId).dir)) =
      some (true, false) := by decide +kernel
  obtain ⟨cfg, hcfg, h⟩ := Option.bind_eq_some_iff.mp hrun
  obtain ⟨cfg', hs, h⟩ := Option.map_eq_some_iff.mp h
  obtain ⟨hdir, hdir'⟩ := Prod.mk.inj h
  have hsafe := gc_safe collectors (.of_run hcfg) hs
  obtain ⟨r, hr⟩ := Option.isSome_iff_exists.mp (hsafe.removed _ hdir hdir')
  exact ⟨cfg'.world, hdir', r, hr, (hsafe.settled _ r hr).1⟩

end Procherd.Reference
