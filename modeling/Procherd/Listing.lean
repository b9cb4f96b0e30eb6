-- SUMMARY: Listing: what `list` finds while other clients create runs and remove them.
import Mathlib.Data.String.Basic
import Procherd.Creation
import Procherd.Interaction.Execution
import Procherd.Interaction.Straight
import Procherd.Interference
import Procherd.Settled

/-!
# Listing

`list` reads the names of the state root and then, one after the other, the state
and the lock of every run that it found. Meanwhile `create_run` makes further
runs, file by file, and `gc` removes some, entry by entry. A listing succeeds as
long as what it reads of a run is there, and then it misses no run that was there
from its beginning to its end.
-/

namespace Procherd

open Interaction

variable [Toolchain]

/-! ## Run directories -/

/-- Every run directory has a name in the state root. -/
def Entered (w : StoreWorld) : Prop := ∀ id, (w.run id).dir = true → id ∈ w.entries

section Directories

variable {i : StoreThread} {β : Type} {c : i.Cmd β} {a : StoreAnswer} {w w' : StoreWorld} {b : β}

/-- A command of a thread of a run or on a run, a removal, or neither. -/
theorem store_exec_cases (h : i.exec c a w = some (b, w')) :
    (∃ (id : String) (t : Thread) (γ : Type) (d : t.Cmd γ) (r : γ) (run : World),
      exec t d a.toAnswer (w.run id) = some (r, run) ∧ w' = w.setRun id run) ∨
    (∃ n id, w' = ((w.noteRemoval n id).unlink id a.entry).2) ∨
    (w'.entries = w.entries ∧ w'.run = w.run ∧ w'.removal = w.removal) := by
  cases i with
  | run id t =>
    have hexec : (exec t c a.toAnswer (w.run id)).map (fun r => (r.1, w.setRun id r.2)) =
        some (b, w') := by
      cases t with
      | client n => cases h
      | _ => exact h
    obtain ⟨⟨r, run⟩, hrun, hw⟩ := Option.map_eq_some_iff.mp hexec
    cases hw
    exact .inl ⟨id, t, β, c, r, run, hrun, rfl⟩
  | client n =>
    cases c with
    | inr c =>
      obtain ⟨⟨r, run⟩, hrun, hw⟩ := Option.map_eq_some_iff.mp h
      cases hw
      exact .inl ⟨c.id, .client n, β, c.cmd, r, run, hrun, rfl⟩
    | inl c =>
      cases c with
      | unlink id =>
        obtain ⟨-, rfl⟩ | ⟨-, -, rfl⟩ :=
          execRoot_unlink (show execRoot n (.unlink id) a w = some (b, w') from h)
        · exact .inr (.inr ⟨rfl, rfl, rfl⟩)
        · exact .inr (.inl ⟨n, id, rfl⟩)
      | now =>
        cases h
        exact .inr (.inr ⟨rfl, rfl, rfl⟩)
      | _ =>
        obtain ⟨_, -, -, rfl⟩ | ⟨-, h⟩ := storeFallible_cases h
        · exact .inr (.inr ⟨rfl, rfl, rfl⟩)
        · cases h
          exact .inr (.inr ⟨rfl, rfl, rfl⟩)

omit [Toolchain] in
theorem mem_entries_setRun {id j : String} {run : World} (hj : j ∈ w.entries) :
    j ∈ (w.setRun id run).entries := by
  simp only [StoreWorld.setRun]
  split
  · exact List.mem_append_left _ hj
  · exact hj

omit [Toolchain] in
theorem mem_entries_unlink {id j : String} {entry : RunEntry} (hne : j ≠ id) (hj : j ∈ w.entries) :
    j ∈ (w.unlink id entry).2.entries := by
  unfold StoreWorld.unlink
  split
  · exact (List.mem_erase_of_ne hne).mpr hj
  · exact mem_entries_setRun hj

omit [Toolchain] in
@[simp] theorem entries_noteRemoval {n : Nat} {id : String} :
    (w.noteRemoval n id).entries = w.entries := by
  unfold StoreWorld.noteRemoval
  split <;> rfl

omit [Toolchain] in
theorem Entered.setRun (hw : Entered w) (id : String) (run : World) :
    Entered (w.setRun id run) := by
  intro j hdir
  by_cases hj : j = id
  · subst hj
    rw [w.run_setRun] at hdir
    by_cases hold : (w.run j).dir = true
    · exact mem_entries_setRun (hw j hold)
    · have habsent : (w.runs j).dir = false := Bool.eq_false_iff.mpr hold
      have hnew : (run.dir && !(w.runs j).dir) = true := by
        rw [hdir, habsent]
        rfl
      simp only [StoreWorld.setRun, hnew, if_true]
      exact List.mem_append_right _ (List.mem_singleton_self j)
  · rw [w.run_setRun_of_ne id run hj] at hdir
    exact mem_entries_setRun (hw j hdir)

omit [Toolchain] in
theorem Entered.unlink (hw : Entered w) (id : String) (entry : RunEntry) :
    Entered (w.unlink id entry).2 := by
  intro j hdir
  by_cases hj : j = id
  · subst hj
    obtain ⟨-, -, hrun⟩ | ⟨hlast, -⟩ := StoreWorld.unlink_cases w j entry
    · rw [hrun] at hdir
      cases hdir
    · unfold StoreWorld.unlink at hlast hdir ⊢
      split at hlast
      · cases hlast
      · rename_i hnonempty
        rw [if_neg hnonempty] at hdir ⊢
        exact hw.setRun j _ j hdir
  · rw [StoreWorld.run_unlink_of_ne w hj] at hdir
    exact mem_entries_unlink hj (hw j hdir)

omit [Toolchain] in
theorem Entered.noteRemoval (hw : Entered w) (n : Nat) (id : String) :
    Entered (w.noteRemoval n id) := by
  intro j hdir
  rw [StoreWorld.run_noteRemoval] at hdir
  rw [entries_noteRemoval]
  exact hw j hdir

theorem entered_exec (h : i.exec c a w = some (b, w')) (hw : Entered w) : Entered w' := by
  obtain ⟨id, _, _, _, _, run, -, rfl⟩ | ⟨n, id, rfl⟩ | ⟨hentries, hrun, -⟩ :=
    store_exec_cases h
  · exact hw.setRun id run
  · exact (hw.noteRemoval n id).unlink id a.entry
  · intro j hdir
    rw [hrun] at hdir
    rw [hentries]
    exact hw j hdir

/-- A run directory stays where it is until its removal begins. -/
theorem made_of_exec (h : i.exec c a w = some (b, w')) {id : String}
    (hremoval : w'.removal id = none) (hw : Made id w) : Made id w' := by
  obtain ⟨j, _, _, _, _, run, hrun, rfl⟩ | ⟨n, j, rfl⟩ | ⟨hentries, hrun, -⟩ :=
    store_exec_cases h
  · refine ⟨mem_entries_setRun hw.1, ?_⟩
    by_cases hid : id = j
    · subst hid
      rw [w.run_setRun]
      exact (exec_keeps hrun).dir hw.2
    · rw [w.run_setRun_of_ne j run hid]
      exact hw.2
  · have hid : id ≠ j := by
      rintro rfl
      rw [(StoreWorld.removal_unlink _ id _).1, StoreWorld.removal_noteRemoval] at hremoval
      cases hremoval
    refine ⟨mem_entries_unlink hid (by rw [entries_noteRemoval]; exact hw.1), ?_⟩
    rw [StoreWorld.run_unlink_of_ne _ hid, StoreWorld.run_noteRemoval]
    exact hw.2
  · rw [Made, hentries, hrun]
    exact hw

end Directories

/-! ## Accepted documents -/

/-- The document in `state.json` is one of those that were written. -/
theorem mem_history_of_state {setup : Setup} {ok : system.Condition} {cfg : system.Config}
    (h : Machine.Reach ok setup.initial cfg) {state : RunState}
    (hstate : cfg.world.state? = some state) : state ∈ cfg.world.history := by
  refine h.invariant (J := fun w : World => ∀ state, w.state? = some state → state ∈ w.history)
    (fun i β c a w b w' _ hexec hw state hstate => ?_) (fun _ hstate => by cases hstate) state
    hstate
  obtain hsame | ⟨hincomplete, -⟩ | ⟨next, hnext, hhistory⟩ := exec_document hexec
  · rw [World.state?, hsame] at hstate
    exact (exec_history hexec).subset (hw state hstate)
  · rw [World.state?, hincomplete] at hstate
    cases hstate
  · rw [World.state?, hnext] at hstate
    cases hstate
    rw [hhistory]
    exact List.mem_cons_self

section Accepted

variable {setup : StoreSetup} {ok : storeSystem.Condition} {cfg : storeSystem.Config}

/-- What is in `state.json` is a document that `read_state` accepts. -/
structure Acceptable (id : String) (w : World) : Prop where
  runId : w.runId = id
  document : ∀ state, w.state? = some state → checkState id state = .ok state

/-- What `create_run` and the supervisor have seen to, until the removal of a run
    begins. -/
theorem reach_founded (h : Machine.Reach ok setup.initial cfg) {id : String}
    (hremoval : cfg.world.removal id = none) :
    (∀ state ∈ (cfg.world.run id).history, Founded id (cfg.world.run id) ∧
      checkState id state = .ok state) ∧
    ∀ state, (cfg.world.run id).state? = some state → state ∈ (cfg.world.run id).history := by
  have hruns : Machine.Reach (onRuns system.always) setup.initial cfg :=
    h.mono fun _ _ _ _ _ _ => onRuns_always
  obtain ⟨setup', cfg', hoptions, hreach, hworld, -⟩ :=
    reach_run (fun _ _ _ _ => trivial) hruns hremoval
  have hreadable := reach_readable hreach
  rw [hoptions, hworld] at hreadable
  refine ⟨fun state hstate => ?_, fun state hstate => ?_⟩
  · have hfounded := hreadable.founded (List.ne_nil_of_mem hstate)
    have haccepted := checkState_of_documents hfounded.runId (hreadable.documents state hstate)
    rw [setup.runId_eq] at hfounded haccepted
    exact ⟨hfounded, haccepted⟩
  · rw [← hworld] at hstate ⊢
    exact mem_history_of_state hreach hstate

/-- The last state of a run that is being removed. -/
def AcceptedRemovals (w : StoreWorld) : Prop :=
  ∀ id r, w.removal id = some r → ∀ state, (w.run id).history.head? = some state →
    checkState id state = .ok state

theorem reach_acceptedRemovals (h : Machine.Reach ok setup.initial cfg) :
    AcceptedRemovals cfg.world := by
  have hreach := (reach_writesLive h).with_reached (J := fun w : StoreWorld =>
    (Intact w ∧ SettledRemovals setup w ∧ FrozenRemovals w) ∧
      ∀ id, w.removal id = none → ∀ state ∈ (w.run id).history, checkState id state = .ok state)
    fun _ h => ⟨⟨reach_intact h, reach_settledRemovals h, reach_frozenRemovals h⟩,
      fun _ hremoval state hstate => ((reach_founded h hremoval).1 state hstate).2⟩
  refine hreach.invariant (fun i β c a w b w' hok hexec hw id r hr state hstate => ?_)
    fun _ _ hr => by cases hr
  obtain ⟨⟨-, hwrites⟩, ⟨⟨hintact, hremovals, hfrozen⟩, haccepted⟩, hnext⟩ := hok
  obtain ⟨last, hterminal, hfinished, hlast⟩ :=
    frozen_of_removal hintact (hnext b w' hexec).1.2.1 hexec hremovals hfrozen hr
  have hhead := (frozen_step hwrites hexec hterminal hfinished hlast).1
  obtain rfl := Option.some.inj (hstate.symm.trans hhead)
  -- The removal begins with this step, or has begun before it.
  cases hremoval : w.removal id with
  | none => exact haccepted id hremoval state (List.mem_of_head? hlast.1)
  | some r => exact hw id r hremoval state hlast.1

theorem reach_runId (h : Machine.Reach ok setup.initial cfg) (id : String) :
    (cfg.world.run id).runId = id := by
  refine h.invariant (J := fun w : StoreWorld => (w.run id).runId = id)
    (fun i β c a w b w' _ hexec hw => ?_) (setup.runId_eq id)
  have hstep := StoreThread.exec_runStep onRuns_always hexec id
  generalize w'.run id = run at hstep
  cases hstep with
  | command ht hok hexec => exact (exec_keeps hexec).runId.trans hw
  | unlink hr entry => cases entry <;> exact hw
  | _ => exact hw

theorem reach_accepted (h : Machine.Reach ok setup.initial cfg) (id : String) :
    Acceptable id (cfg.world.run id) := by
  refine ⟨reach_runId h id, fun state hstate => ?_⟩
  cases hremoval : cfg.world.removal id with
  | none =>
    obtain ⟨hfounded, hmem⟩ := reach_founded h hremoval
    exact (hfounded state (hmem state hstate)).2
  | some r =>
    obtain ⟨last, -, hhead, hlast⟩ := reach_frozenRemovals h id r hremoval
    rw [hlast state hstate]
    exact reach_acceptedRemovals h id r hremoval last hhead

end Accepted

/-! ## The listing -/

/-- What a command of a client reads of a run is there, and not too large. -/
def ClientCmd.finds {β : Type} : ClientCmd β → World → Prop
  | .readState, w => w.dir = true ∧ ∃ state ∈ w.state?, state.Readable
  | .tryLock, w => w.dir = true ∧ w.lockFile = true
  | _, _ => True

/-- The system calls of client `n` succeed, and the runs that it reads can be read. -/
def findsRuns (n : Nat) : storeSystem.Condition
  | .client m, _, .inl _, a, _ => m = n → a.fault = none
  | .client m, _, .inr c, a, w => m = n → a.fault = none ∧ c.cmd.finds (w.run c.id)
  | .run _ _, _, _, _, _ => True

namespace Listing

/-- Whatever is not removed stays. -/
def Stays (w w' : StoreWorld) : Prop :=
  ∀ id, w'.removal id = none → w.removal id = none ∧ (Made id w → Made id w')

omit [Toolchain] in
theorem Stays.refl (w : StoreWorld) : Stays w w := fun _ h => ⟨h, fun hw => hw⟩

omit [Toolchain] in
theorem Stays.trans {w₁ w₂ w₃ : StoreWorld} (h : Stays w₁ w₂) (h' : Stays w₂ w₃) : Stays w₁ w₃ := by
  intro id hremoval
  obtain ⟨hremoval, hmade'⟩ := h' id hremoval
  obtain ⟨hremoval, hmade⟩ := h id hremoval
  exact ⟨hremoval, fun hw => hmade' (hmade hw)⟩

theorem stays_of_exec {i : StoreThread} {β : Type} {c : i.Cmd β} {a : StoreAnswer}
    {w w' : StoreWorld} {b : β} (h : i.exec c a w = some (b, w')) : Stays w w' :=
  fun _ hremoval => ⟨removal_eq_none h hremoval, made_of_exec h hremoval⟩

/-- Client `n`; if `strict`, its reads find what they read. -/
@[reducible] def interface (strict : Prop) (n : Nat) : Interface StoreCmd StoreWorld where
  step c w b w' := ∃ a, (strict → findsRuns n (.client n) c a w) ∧
    (∀ id, Acceptable id (w.run id)) ∧ StoreThread.exec (.client n) c a w = some (b, w')
  rely := Stays
  guar _ _ _ _ := True
  rely_refl := .refl
  rely_trans := .trans

/-- Its commands on one run. -/
@[reducible] def runInterface (strict : Prop) (n : Nat) (id : String) :
    Interface ClientCmd StoreWorld :=
  (interface strict n).comap fun c => .inr { id, cmd := c }

/-- What the steps of all threads keep. -/
def Kept (P : StoreWorld → Prop) : Prop := ∀ w w', Stays w w' → P w → P w'

omit [Toolchain] in
theorem Kept.and {P Q : StoreWorld → Prop} (hP : Kept P) (hQ : Kept Q) :
    Kept fun w => P w ∧ Q w :=
  fun w w' hstays hw => ⟨hP w w' hstays hw.1, hQ w w' hstays hw.2⟩

section Rules

variable {strict : Prop} {n : Nat} {id : String} {w : StoreWorld} {s : Unit} {α : Type}
  {P : StoreWorld → Prop}

/-- A command on a run, which fails only if it did not find what it reads. -/
theorem wp_onRun {c : ClientCmd (Except AppError α)} {R : α → Prop} (hP : Kept P) (hw : P w)
    (h : ∀ a run r run', Acceptable id run → execClient (.client n) c a run = some (r, run') →
      (∀ x, r = .ok x → R x) ∧ (a.fault = none → c.finds run → ∃ x, r = .ok x)) :
    Proc.wp (runInterface strict n id) (Proc.attempt c) (fun x _ w => R x ∧ P w)
      (fun _ _ _ => ¬ strict) s w := by
  refine Proc.wp_attempt ?_
  rintro w₁ hrely r w₂ ⟨a, hfinds, haccepted, hexec⟩
  have hw₂ := hP _ _ (stays_of_exec hexec) (hP _ _ hrely hw)
  obtain ⟨⟨r', run⟩, hrun, hw'⟩ := Option.map_eq_some_iff.mp hexec
  cases hw'
  obtain ⟨hok, herror⟩ := h a.toAnswer (w₁.run id) _ run (haccepted id) hrun
  refine ⟨trivial, ?_⟩
  cases r' with
  | ok x => exact ⟨hok x rfl, hw₂⟩
  | error e =>
    intro hstrict
    obtain ⟨hfault, hfound⟩ := hfinds hstrict rfl
    obtain ⟨x, hx⟩ := herror hfault hfound
    cases hx

theorem wp_readState (hP : Kept P) (hw : P w) :
    Proc.wp (runInterface strict n id) (Proc.attempt .readState)
      (fun state _ w => checkState id state = .ok state ∧ P w) (fun _ _ _ => ¬ strict) s w := by
  refine wp_onRun hP hw fun a run r run' haccepted h => ?_
  obtain ⟨fault, hfault, rfl, -⟩ | ⟨hfault, h⟩ := fallible_cases h
  · refine ⟨fun x hx => (by cases hx), fun hnone => ?_⟩
    cases hnone.symm.trans hfault
  cases h
  have hcheck {state : RunState} (hstate : run.stateJson.read run.statePath = .ok state) :
      checkState id state = .ok state := haccepted.document state (StateFile.read_ok hstate)
  rw [haccepted.runId]
  constructor
  · intro state hstate
    split at hstate
    · cases hread : run.stateJson.read run.statePath with
      | error e =>
        rw [hread] at hstate
        cases hstate
      | ok found =>
        rw [hread, Except.bind, hcheck hread] at hstate
        cases hstate
        exact hcheck hread
    · cases hstate
  · rintro - ⟨hdir, state, hstate, hreadable⟩
    have hread : run.stateJson.read run.statePath = .ok state := by
      rw [World.state?] at hstate
      cases hfile : run.stateJson with
      | document found =>
        rw [hfile] at hstate
        cases hstate
        exact StateFile.read_document hreadable
      | absent => rw [hfile] at hstate; cases hstate
      | incomplete => rw [hfile] at hstate; cases hstate
    rw [if_pos hdir, hread, Except.bind, hcheck hread]
    exact ⟨state, rfl⟩

theorem wp_supervisorActive (hP : Kept P) (hw : P w) :
    Proc.wp (runInterface strict n id) supervisorActive (fun _ _ => P) (fun _ _ _ => ¬ strict)
      s w := by
  refine Proc.wp_seq _ (wp_onRun (R := fun _ => True) hP hw fun a run r run' haccepted h => ?_) ?_
  · refine ⟨fun _ _ => trivial, fun hfault hfound => ?_⟩
    obtain ⟨hdir, hlockFile⟩ := hfound
    simp only [execClient, fallible, hfault, hdir, hlockFile, Bool.not_true, Bool.false_eq_true,
      if_false] at h
    split at h
    all_goals
      cases h
      exact ⟨_, rfl⟩
  · rintro free s w ⟨-, hw⟩
    cases free with
    | false => exact Proc.wp_pure hw
    | true =>
      refine Proc.wp_seq _ (wp_onRun (R := fun _ => True) hP hw ?_) fun _ s w hw => ?_
      · intro a run r run' haccepted h
        refine ⟨fun _ _ => trivial, fun hfault _ => ?_⟩
        simp only [execClient, fallible, hfault] at h
        cases h
        exact ⟨(), rfl⟩
      · exact Proc.wp_pure hw.2

/-- The view of a run has its run ID. -/
theorem wp_loadView (hP : Kept P) (hw : P w) :
    Proc.wp (runInterface strict n id) loadView (fun view _ w => view.state.runId = id ∧ P w)
      (fun _ _ _ => ¬ strict) s w := by
  refine Proc.wp_seq (fun r _ w => r.1.runId = id ∧ P w) ?_ fun _ s w hr => Proc.wp_pure hr
  refine Proc.wp_seq _ (wp_readState hP hw) ?_
  rintro state s w ⟨hcheck, hw⟩
  have hschema {state : RunState} (hcheck : checkState id state = .ok state) (e : AppError)
      (he : checkRunSchema state = .error e) : ¬ strict := by
    rw [checkRunSchema_of_accepted hcheck] at he
    cases he
  refine Proc.wp_bind (Proc.wp_ofExcept (fun _ _ => ?_) (hschema hcheck))
  refine Proc.wp_seq _ (wp_supervisorActive hP hw) fun active s w hw => ?_
  split
  · refine Proc.wp_seq _ (wp_readState hP hw) ?_
    rintro state s w ⟨hcheck, hw⟩
    refine Proc.wp_bind (Proc.wp_ofExcept (fun _ _ => ?_) (hschema hcheck))
    exact Proc.wp_pure ⟨runId_of_accepted hcheck, hw⟩
  · exact Proc.wp_pure ⟨runId_of_accepted hcheck, hw⟩

/-- The views are those of the runs that were found, in their order. -/
theorem wp_loadViews {ids : List String} (hP : Kept P) (hw : P w) :
    Proc.wp (interface strict n) (loadViews ids)
      (fun views _ w => views.map (·.state.runId) = ids ∧ P w) (fun _ _ _ => ¬ strict) s w := by
  induction ids generalizing s w with
  | nil => exact Proc.wp_pure ⟨rfl, hw⟩
  | cons id ids ih =>
    refine Proc.wp_seq _ (Proc.wp_hoist (wp_loadView hP hw)) ?_
    rintro view s w ⟨hview, hw⟩
    refine Proc.wp_seq _ (ih hw) ?_
    rintro views s w ⟨hviews, hw⟩
    exact Proc.wp_pure ⟨by rw [List.map_cons, hview, hviews], hw⟩

/-- A command on the state root, which fails only where the answer says so. -/
theorem wp_root {c : RootCmd (Except AppError α)} {R : α → StoreWorld → Prop} (hP : Kept P)
    (hw : P w)
    (h : ∀ (a : StoreAnswer) w, P w →
      ∃ x w', execRoot n c a w = storeFallible a w (.ok x, w') ∧ R x w') :
    Proc.wp (interface strict n) (Proc.attempt (.inl c)) (fun x _ w => R x w ∧ P w)
      (fun _ _ _ => ¬ strict) s w := by
  refine Proc.wp_attempt ?_
  rintro w₁ hrely r w₂ ⟨a, hfinds, -, hexec⟩
  have hw₁ := hP _ _ hrely hw
  have hw₂ := hP _ _ (stays_of_exec hexec) hw₁
  obtain ⟨x, w', hx, hR⟩ := h a w₁ hw₁
  refine ⟨trivial, ?_⟩
  obtain ⟨fault, hfault, rfl, -⟩ | ⟨-, hok⟩ := storeFallible_cases (hx.symm.trans hexec)
  · intro hstrict
    cases (hfinds hstrict rfl).symm.trans hfault
  · cases hok
    exact ⟨hR, hw₂⟩

/-- The runs of `S` that are not being removed are in the list. -/
def Covers (S : String → Prop) (ids : List String) (w : StoreWorld) : Prop :=
  ∀ id, S id → w.removal id = none → id ∈ ids

omit [Toolchain] in
theorem kept_covers (S : String → Prop) (ids : List String) : Kept (Covers S ids) :=
  fun _ _ hstays hw id hid hremoval => hw id hid (hstays id hremoval).1

/-- The runs of `S` that are not being removed are there. -/
def Present (S : String → Prop) (w : StoreWorld) : Prop :=
  ∀ id, S id → w.removal id = none → Made id w

omit [Toolchain] in
theorem kept_present (S : String → Prop) : Kept (Present S) := by
  intro w w' hstays hw id hid hremoval
  obtain ⟨hremoval', hmade⟩ := hstays id hremoval
  exact hmade (hw id hid hremoval')

/-- What the scan of `names` finds: some of them in their order, all of them run IDs. -/
structure Scanned (names ids : List String) : Prop where
  sublist : ids.Sublist names
  canonical : ∀ id ∈ ids, (canonicalRunId id).isOk

variable {S : String → Prop}

theorem wp_scanEntries {names : List String} (hS : ∀ id, S id → (canonicalRunId id).isOk)
    (hP : Kept P) (hw : P w ∧ Present S w) :
    Proc.wp (interface strict n) (scanEntries names)
      (fun ids _ w => (Scanned names ids ∧ Covers (fun id => S id ∧ id ∈ names) ids w) ∧ P w)
      (fun _ _ _ => ¬ strict) s w := by
  induction names generalizing P s w with
  | nil =>
    refine Proc.wp_pure ⟨⟨⟨.slnil, fun _ h => absurd h List.not_mem_nil⟩, ?_⟩, hw.1⟩
    exact fun _ h => absurd h.2 List.not_mem_nil
  | cons name names ih =>
    refine Proc.wp_seq _ (wp_root (R := fun isDir w => S name → w.removal name = none →
      isDir = true) (hP.and (kept_present S)) hw ?_) ?_
    · exact fun a w hw => ⟨_, w, rfl, fun hname hremoval => (hw.2 name hname hremoval).2⟩
    rintro isDir s w ⟨hisDir, hw⟩
    have hkept : Kept fun w => S name → w.removal name = none → isDir = true :=
      fun _ _ hstays h hname hremoval => h hname (hstays name hremoval).1
    refine Proc.wp_seq _ (ih (hP.and hkept) ⟨⟨hw.1, hisDir⟩, hw.2⟩) ?_
    rintro ids s w ⟨⟨hscanned, hids⟩, hw, hisDir⟩
    refine Proc.wp_pure ⟨⟨?_, ?_⟩, hw⟩
    · split
      · rename_i hname
        refine ⟨hscanned.sublist.cons_cons name, List.forall_mem_cons.mpr ⟨?_, hscanned.canonical⟩⟩
        exact (Bool.and_eq_true_iff.mp hname).2
      · exact ⟨hscanned.sublist.cons name, hscanned.canonical⟩
    · rintro id ⟨hid, hmem⟩ hremoval
      obtain rfl | hmem := List.mem_cons.mp hmem
      · rw [hisDir hid hremoval, hS id hid]
        exact List.mem_cons_self
      · have hfound := hids id ⟨hid, hmem⟩ hremoval
        split
        · exact List.mem_cons_of_mem name hfound
        · exact hfound

/-- A list of run IDs, newest first, with every run of `S` that nobody removes. -/
structure Catalogue (S : String → Prop) (ids : List String) (w : StoreWorld) : Prop where
  newestFirst : ids.Pairwise (· > ·)
  canonical : ∀ id ∈ ids, (canonicalRunId id).isOk
  covers : Covers S ids w

theorem kept_catalogue (S : String → Prop) (ids : List String) : Kept (Catalogue S ids) :=
  fun _ _ hstays hw => { hw with covers := kept_covers S ids _ _ hstays hw.covers }

theorem wp_listRunIds (hS : ∀ id, S id → (canonicalRunId id).isOk) (hw : Present S w) :
    Proc.wp (interface strict n) listRunIds (fun ids _ w => Catalogue S ids w)
      (fun _ _ _ => ¬ strict) s w := by
  have hkept (names : List String) : Kept fun w => names.Nodup ∧ Covers S names w :=
    fun _ _ hstays h => ⟨h.1, kept_covers S names _ _ hstays h.2⟩
  refine Proc.wp_seq _ (wp_root (R := fun names w => names.Nodup ∧ Covers S names w)
    (kept_present S) hw ?_) ?_
  · refine fun a w hw => ⟨_, w, rfl, List.nodup_dedup _, fun id hid hremoval => ?_⟩
    exact List.mem_dedup.mpr (List.mem_append_left _ (hw id hid hremoval).1)
  rintro names s w ⟨hnames, hw⟩
  refine Proc.wp_seq _ (wp_scanEntries hS (hkept names) ⟨hnames, hw⟩) ?_
  rintro ids s w ⟨⟨hscanned, hids⟩, hnodup, hnames⟩
  have hsorted : (ids.insertionSort (· ≤ ·)).SortedLT :=
    List.sortedLE_insertionSort.sortedLT_of_nodup
      ((List.perm_insertionSort _ ids).nodup_iff.mpr (hscanned.sublist.nodup hnodup))
  refine Proc.wp_pure ⟨hsorted.reverse.pairwise, fun id hid => ?_, fun id hid hremoval => ?_⟩
  · rw [List.mem_reverse, List.mem_insertionSort] at hid
    exact hscanned.canonical id hid
  · rw [List.mem_reverse, List.mem_insertionSort]
    exact hids id ⟨hid, hnames id hid hremoval⟩ hremoval

theorem wp_list (hS : ∀ id, S id → (canonicalRunId id).isOk) (hw : Present S w) :
    Proc.wp (interface strict n) list
      (fun result _ w => Catalogue S (result.runs.map (·.state.runId)) w)
      (fun _ _ _ => ¬ strict) s w := by
  refine Proc.wp_seq _ (wp_listRunIds hS hw) fun ids s w hids => ?_
  refine Proc.wp_seq _ (wp_loadViews (kept_catalogue S ids) hids) ?_
  rintro runs s w ⟨hruns, hids⟩
  exact Proc.wp_pure (by rw [hruns]; exact hids)

end Rules

end Listing

/-! ## Runs -/

namespace Listing

variable {setup : StoreSetup} {strict : Prop} {n : Nat} {ok : storeSystem.Condition}
  {cfg₀ cfg : storeSystem.Config}

/-- The condition on the steps during a listing. -/
def listing (strict : Prop) (n : Nat) : storeSystem.Condition :=
  fun i _ c a w => (strict → findsRuns n i c a w) ∧ ∀ id, Acceptable id (w.run id)

theorem describes_listing : Machine.Describes (listing strict n) (.client n) id
    (interface strict n) where
  self _ a _ _ _ hok h := ⟨a, hok.1, hok.2, h⟩
  other _ _ _ _ _ _ _ _ h := stays_of_exec h

theorem reach_listing (hok : ∀ i {β : Type} (c : i.Cmd β) a w, strict → ok i c a w →
      findsRuns n i c a w)
    (h₀ : Machine.Reach storeSystem.always setup.initial cfg₀) (h : Machine.Reach ok cfg₀ cfg) :
    Machine.Reach (listing strict n) cfg₀ cfg := by
  have haccepted (cfg : storeSystem.Config) (h : Machine.Reach ok cfg₀ cfg) :
      ∀ id, Acceptable id (cfg.world.run id) :=
    reach_accepted (h₀.trans (h.mono fun _ _ _ _ _ _ => trivial))
  refine (h.with_reached haccepted).mono fun i β c a w hmeets => ⟨fun hstrict => ?_, hmeets.2.1⟩
  exact hok i c a w hstrict hmeets.1

/-- The runs that are there, complete, before the listing begins. -/
def There (w : StoreWorld) (id : String) : Prop :=
  (w.run id).state?.isSome ∧ w.removal id = none

theorem founded_of_there (h : Machine.Reach ok setup.initial cfg) {id : String}
    (hid : There cfg.world id) : Founded id (cfg.world.run id) := by
  obtain ⟨hsome, hremoval⟩ := hid
  obtain ⟨state, hstate⟩ := Option.isSome_iff_exists.mp hsome
  obtain ⟨hfounded, hmem⟩ := reach_founded h hremoval
  exact (hfounded state (hmem state hstate)).1

theorem reach_entered (h : Machine.Reach ok setup.initial cfg) : Entered cfg.world := by
  refine h.invariant (J := Entered) (fun i β c a w b w' _ hexec hw => entered_exec hexec hw) ?_
  intro id hdir
  cases hdir

theorem reach_stays (h : Machine.Reach ok cfg₀ cfg) : Stays cfg₀.world cfg.world := by
  refine h.invariant (J := Stays cfg₀.world) (fun i β c a w b w' _ hexec hw => ?_) (.refl _)
  exact hw.trans (stays_of_exec hexec)

/-- What the listing returns. -/
def Returns (strict : Prop) (S : String → Prop) : StoreResult → StoreWorld → Prop
  | .listed (.ok result), w => Catalogue S (result.runs.map (·.state.runId)) w
  | .listed (.error _), _ => ¬ strict
  | _, _ => False

theorem returns_stays {S : String → Prop} {r : StoreResult} {w w' : StoreWorld}
    (hstays : Stays w w') (h : Returns strict S r w) : Returns strict S r w' := by
  cases r with
  | listed r =>
    cases r with
    | ok result => exact kept_catalogue S _ w w' hstays h
    | error e => exact h
  | _ => exact h

theorem list_returns (hok : ∀ i {β : Type} (c : i.Cmd β) a w, strict → ok i c a w →
      findsRuns n i c a w)
    (h₀ : Machine.Reach storeSystem.always setup.initial cfg₀)
    (hbegin : cfg₀.thread (.client n) = StoreClient.program .list)
    (h : Machine.Reach ok cfg₀ cfg) {r : StoreResult} (hr : cfg.thread (.client n) = .ret r) :
    Returns strict (There cfg₀.world) r cfg.world := by
  refine describes_listing.result (Q := Returns strict (There cfg₀.world))
    (fun _ _ _ hstays hr => returns_stays hstays hr) ?_ (reach_listing hok h₀ h) hr
  rw [hbegin]
  have hcanonical (id : String) (hid : There cfg₀.world id) : (canonicalRunId id).isOk := by
    rw [(founded_of_there h₀ hid).runId]
    rfl
  have hpresent : Present (There cfg₀.world) cfg₀.world := by
    intro id hid _
    have hdir := (founded_of_there h₀ hid).dir
    exact ⟨reach_entered h₀ id hdir, hdir⟩
  refine Prog.wp_bind (Prog.wp_mono ?_ (wp_list hcanonical hpresent))
  rintro ⟨e | result, s⟩ w hresult
  · exact Prog.wp_ret hresult
  · exact Prog.wp_ret hresult

/-- A listing that has to succeed returns what it covers. -/
theorem Returns.listed {S : String → Prop} {r : StoreResult} {w : StoreWorld}
    (h : Returns True S r w) :
    ∃ result, r = .listed (.ok result) ∧ Catalogue S (result.runs.map (·.state.runId)) w := by
  cases r with
  | listed r =>
    cases r with
    | ok result => exact ⟨result, rfl, h⟩
    | error e => exact absurd trivial h
  | _ => exact h.elim

/-- A run that was there when the listing began, and whose removal has not begun. -/
theorem Catalogue.covers_there {ids : List String}
    (h : Catalogue (There cfg₀.world) ids cfg.world) (hreach : Machine.Reach ok cfg₀ cfg)
    {id : String} (hid : (cfg₀.world.run id).state?.isSome) (hremoval : cfg.world.removal id = none) :
    id ∈ ids :=
  h.covers id ⟨hid, (reach_stays hreach id hremoval).1⟩ hremoval

end Listing

/-- A listing that finds each run with its lock file and a complete state that is
    not too large when it reads them succeeds, and misses no run that was there when
    it began and whose removal has not begun. -/
theorem listing_safe (setup : StoreSetup) {n : Nat} {cfg₀ cfg : storeSystem.Config}
    (h₀ : Machine.Reach storeSystem.always setup.initial cfg₀)
    (hbegin : cfg₀.thread (.client n) = StoreClient.program .list)
    (h : Machine.Reach (findsRuns n) cfg₀ cfg) {r : StoreResult}
    (hr : cfg.thread (.client n) = .ret r) :
    ∃ result, r = .listed (.ok result) ∧
      ∀ id, (cfg₀.world.run id).state?.isSome → cfg.world.removal id = none →
        id ∈ result.runs.map (·.state.runId) := by
  have hreturns : Listing.Returns True (Listing.There cfg₀.world) r cfg.world :=
    Listing.list_returns (fun _ _ _ _ _ _ h => h) h₀ hbegin h hr
  obtain ⟨result, hresult, hcatalogue⟩ := hreturns.listed
  exact ⟨result, hresult, fun id hid hremoval => hcatalogue.covers_there h hid hremoval⟩

/-- A listing that succeeds has every run once, newest first, that was there when
    it began and whose removal has not begun. -/
theorem list_complete (setup : StoreSetup) {n : Nat} {cfg₀ cfg : storeSystem.Config}
    (h₀ : Machine.Reach storeSystem.always setup.initial cfg₀)
    (hbegin : cfg₀.thread (.client n) = StoreClient.program .list)
    (h : Machine.Reach storeSystem.always cfg₀ cfg) {result : ListResult}
    (hresult : cfg.thread (.client n) = .ret (.listed (.ok result))) :
    (result.runs.map (·.state.runId)).Pairwise (· > ·) ∧
    (∀ id ∈ result.runs.map (·.state.runId), (canonicalRunId id).isOk) ∧
    ∀ id, (cfg₀.world.run id).state?.isSome → cfg.world.removal id = none →
      id ∈ result.runs.map (·.state.runId) := by
  have hreturns : Listing.Returns False (Listing.There cfg₀.world) _ cfg.world :=
    Listing.list_returns (fun _ _ _ _ _ h _ => h.elim) h₀ hbegin h hresult
  exact ⟨hreturns.newestFirst, hreturns.canonical, fun id hid hremoval =>
    Listing.Catalogue.covers_there hreturns h hid hremoval⟩

/-! ## Ends

No command of a listing waits for another thread. -/

namespace Listing

variable {n : Nat}

/-- A client's command on a run that is never blocked. -/
def FreeOnRun (n : Nat) {β : Type} (c : ClientCmd β) : Prop :=
  ∀ run, ∃ b run', execClient (.client n) c {} run = some (b, run')

/-- A client's command that is never blocked. -/
def Free (n : Nat) {β : Type} (c : StoreCmd β) : Prop :=
  ∀ w, ∃ b w', StoreThread.exec (.client n) c {} w = some (b, w')

theorem FreeOnRun.onRun {β : Type} {c : ClientCmd β} (h : FreeOnRun n c) (id : String) :
    Free n (.inr { id, cmd := c } : StoreCmd β) := by
  intro w
  obtain ⟨b, run, hrun⟩ := h (w.run id)
  exact ⟨b, w.setRun id run, Option.map_eq_some_iff.mpr ⟨(b, run), hrun, rfl⟩⟩

theorem readState_free : FreeOnRun n .readState := fun _ => ⟨_, _, rfl⟩

theorem unlock_free : FreeOnRun n .unlock := fun _ => ⟨_, _, rfl⟩

theorem tryLock_free : FreeOnRun n .tryLock := by
  intro run
  simp only [execClient, fallible]
  split
  · exact ⟨_, _, rfl⟩
  split
  · exact ⟨_, _, rfl⟩
  split
  · exact ⟨_, _, rfl⟩
  · exact ⟨_, _, rfl⟩

theorem supervisorActive_straight : Proc.Straight (FreeOnRun n) supervisorActive := by
  refine .bind (.attempt tryLock_free) fun free => ?_
  split
  · exact .bind (.attempt unlock_free) fun _ => .pure
  · exact .pure

theorem loadView_straight : Proc.Straight (FreeOnRun n) loadView := by
  have hread : Proc.Straight (FreeOnRun n) (Proc.attempt .readState : Client RunState) :=
    .attempt readState_free
  refine .bind (.bind hread fun state => ?_) fun _ => .pure
  refine .bind .ofExcept fun _ => .bind supervisorActive_straight fun active => ?_
  split
  · exact .bind hread fun _ => .bind .ofExcept fun _ => .pure
  · exact .pure

theorem scanEntries_straight (names : List String) :
    Proc.Straight (Free n) (scanEntries names) := by
  induction names with
  | nil => exact .pure
  | cons name names ih =>
    exact .bind (.attempt fun w => ⟨_, _, rfl⟩) fun _ => .bind ih fun _ => .pure

theorem loadViews_straight (ids : List String) : Proc.Straight (Free n) (loadViews ids) := by
  induction ids with
  | nil => exact .pure
  | cons id ids ih =>
    exact .bind (loadView_straight.hoist fun _ h => h.onRun id) fun _ => .bind ih fun _ => .pure

theorem list_straight : Proc.Straight (Free n) list := by
  refine .bind (.bind (.attempt fun w => ⟨_, _, rfl⟩) fun names => ?_) fun ids => ?_
  · exact .bind (scanEntries_straight names) fun _ => .pure
  · exact .bind (loadViews_straight ids) fun _ => .pure

theorem program_straight : (StoreClient.program .list).Straight (Free n) :=
  (list_straight ()).bind fun _ => .ret _

end Listing

/-- A listing comes to its end whatever the other threads have done, and it
    succeeds if its calls do not fail and each run that it reads is there with its
    lock file and a complete state that is not too large to be read. -/
theorem list_succeeds (setup : StoreSetup) {n : Nat} {cfg₀ cfg : storeSystem.Config}
    (h₀ : Machine.Reach storeSystem.always setup.initial cfg₀)
    (hbegin : cfg₀.thread (.client n) = StoreClient.program .list)
    (h : Machine.Reach storeSystem.always cfg₀ cfg) :
    (∃ ms cfg' r, (∀ m ∈ ms, m.1 = .client n) ∧ Machine.run cfg ms = some cfg' ∧
      cfg'.thread (.client n) = .ret r) ∧
    (Machine.Reach (findsRuns n) cfg₀ cfg →
      ∀ r, cfg.thread (.client n) = .ret r → ∃ result, r = .listed (.ok result)) := by
  constructor
  · have hstraight : (cfg.thread (.client n)).Straight (Listing.Free n) := by
      refine h.straight (M := storeSystem) (i := .client n) (P := Listing.Free n) ?_
      rw [hbegin]
      exact Listing.program_straight
    refine Machine.finishes_of_straight (fun c w hc => ?_) hstraight
    obtain ⟨b, w', hexec⟩ := hc w
    exact ⟨{}, b, w', hexec⟩
  · intro hfinds r hr
    have hreturns : Listing.Returns True (Listing.There cfg₀.world) r cfg.world :=
      Listing.list_returns (fun _ _ _ _ _ _ h => h) h₀ hbegin hfinds hr
    obtain ⟨result, hresult, -⟩ := hreturns.listed
    exact ⟨result, hresult⟩

end Procherd

/-! ## Reference runs -/

namespace Procherd.Reference

open Interaction

def listers : StoreSetup := storeSetup fun _ => .list

def listed? (cfg : storeSystem.Config) : Option (List String) :=
  match (cfg.thread (.client 0)).result? with
  | some (.listed (.ok result)) => some (result.runs.map (·.state.runId))
  | _ => none

theorem thread_of_listed {cfg : storeSystem.Config} {ids : List String}
    (h : listed? cfg = some ids) : ∃ result, cfg.thread (.client 0) = .ret (.listed (.ok result)) ∧
      result.runs.map (·.state.runId) = ids := by
  unfold listed? at h
  split at h
  · rename_i result hresult
    exact ⟨result, Prog.eq_ret_of_result? hresult, Option.some.inj h⟩
  · cases h

theorem client_of_onStore {id : String} {moves : List system.Move} {cfg : storeSystem.Config}
    (h : Machine.run listers.initial (onStore id moves) = some cfg) (n : Nat) :
    cfg.thread (.client n) = StoreClient.program .list := by
  refine Machine.thread_of_run (fun m hm => ?_) h
  obtain ⟨_, -, rfl⟩ := List.mem_map.mp hm
  exact fun h => by cases h

/-- A running run is listed. -/
theorem list_complete_running : ∃ (cfg : storeSystem.Config) (result : ListResult),
    cfg.thread (.client 0) = .ret (.listed (.ok result)) ∧
    options.runId ∈ result.runs.map (·.state.runId) := by
  have hrun : ((Machine.run listers.initial (onStore options.runId startUp)).bind fun cfg₀ =>
      (Machine.run cfg₀ (clientSteps 0 4 {})).map fun cfg =>
        ((cfg₀.world.run options.runId).state?.isSome,
          (cfg.world.removal options.runId).isNone, (listed? cfg).isSome)) =
      some (true, true, true) := by decide +kernel
  obtain ⟨cfg₀, hcfg₀, hrest⟩ := Option.bind_eq_some_iff.mp hrun
  obtain ⟨cfg, hcfg, hfound⟩ := Option.map_eq_some_iff.mp hrest
  obtain ⟨hstate, hfound⟩ := Prod.mk.inj hfound
  obtain ⟨hremoval, hlisted⟩ := Prod.mk.inj hfound
  obtain ⟨ids, hids⟩ := Option.isSome_iff_exists.mp hlisted
  obtain ⟨result, hresult, -⟩ := thread_of_listed hids
  obtain ⟨-, -, hcomplete⟩ := list_complete listers (.of_run hcfg₀) (client_of_onStore hcfg₀ 0)
    (.of_run hcfg) hresult
  exact ⟨cfg, result, hresult, hcomplete _ hstate (Option.isNone_iff_eq_none.mp hremoval)⟩

/-- A move of client 0 that finds what it reads. -/
def findsMove (cfg : storeSystem.Config) (m : storeSystem.Move) : Bool :=
  match m.1 with
  | .run _ _ => true
  | .client n =>
    match cfg.thread (.client n) with
    | .exec (.inl _) _ => m.2.fault.isNone
    | .exec (.inr c) _ =>
      m.2.fault.isNone && (cfg.world.run c.id).dir && (cfg.world.run c.id).state?.isSome &&
        (cfg.world.run c.id).lockFile
    | _ => true

theorem meets_findsRuns (cfg : storeSystem.Config) (m : storeSystem.Move) (h : findsMove cfg m) :
    Machine.Meets (M := storeSystem) (findsRuns 0) cfg m := by
  intro β c k hc
  obtain ⟨i, a⟩ := m
  cases i with
  | run id t => trivial
  | client n =>
    cases c with
    | inl c =>
      have hc : cfg.thread (.client n) = .exec (.inl c) k := hc
      simp only [findsMove, hc] at h
      exact fun _ => Option.isNone_iff_eq_none.mp h
    | inr c =>
      have hc : cfg.thread (.client n) = .exec (.inr c) k := hc
      simp only [findsMove, hc, Bool.and_eq_true] at h
      obtain ⟨⟨⟨hfault, hdir⟩, hstate⟩, hlock⟩ := h
      refine fun _ => ⟨Option.isNone_iff_eq_none.mp hfault, ?_⟩
      obtain ⟨id, c⟩ := c
      cases c with
      | readState =>
        obtain ⟨state, hstate⟩ := Option.isSome_iff_exists.mp hstate
        exact ⟨hdir, state, hstate, readable state⟩
      | tryLock => exact ⟨hdir, hlock⟩
      | _ => trivial

/-- A listing of a running run. -/
theorem listing_safe_running : ∃ (cfg : storeSystem.Config) (result : ListResult),
    cfg.thread (.client 0) = .ret (.listed (.ok result)) ∧
    options.runId ∈ result.runs.map (·.state.runId) := by
  have hrun : ((Machine.run listers.initial (onStore options.runId startUp)).bind fun cfg₀ =>
      (Machine.runChecked findsMove cfg₀ (clientSteps 0 4 {})).map fun cfg =>
        ((cfg₀.world.run options.runId).state?.isSome,
          (cfg.world.removal options.runId).isNone, (cfg.thread (.client 0)).result?.isSome)) =
      some (true, true, true) := by decide +kernel
  obtain ⟨cfg₀, hcfg₀, hrest⟩ := Option.bind_eq_some_iff.mp hrun
  obtain ⟨cfg, hcfg, hfound⟩ := Option.map_eq_some_iff.mp hrest
  obtain ⟨hstate, hfound⟩ := Prod.mk.inj hfound
  obtain ⟨hremoval, hdone⟩ := Prod.mk.inj hfound
  obtain ⟨r, hr⟩ := Option.isSome_iff_exists.mp hdone
  have hr : cfg.thread (.client 0) = .ret r := Prog.eq_ret_of_result? hr
  obtain ⟨result, rfl, hcomplete⟩ := listing_safe listers (.of_run hcfg₀)
    (client_of_onStore hcfg₀ 0) (.of_runChecked meets_findsRuns hcfg) hr
  exact ⟨cfg, result, hr, hcomplete _ hstate (Option.isNone_iff_eq_none.mp hremoval)⟩

/-- The run that is created after the one of `options`. -/
def nextRunId : String := "run_01ARZ3NDEKTSV4RRFFQ69G5FAW"

/-- The error of a listing. -/
def refused? (cfg : storeSystem.Config) : Option AppError :=
  match (cfg.thread (.client 0)).result? with
  | some (.listed (.error e)) => some e
  | _ => none

theorem thread_of_refused {cfg : storeSystem.Config} {e : AppError} (h : refused? cfg = some e) :
    cfg.thread (.client 0) = .ret (.listed (.error e)) := by
  unfold refused? at h
  split at h
  · rename_i e' hresult
    cases h
    exact Prog.eq_ret_of_result? hresult
  · cases h

/-- A run whose directory has just been made stands in the way of a listing, although
    no call fails, and a run that is there is not listed. -/
theorem listing_safe_refused : ∃ (cfg₀ cfg : storeSystem.Config) (e : AppError),
    Machine.Reach storeSystem.always listers.initial cfg₀ ∧
    cfg₀.thread (.client 0) = StoreClient.program .list ∧
    (cfg₀.world.run options.runId).state?.isSome ∧ cfg.world.removal options.runId = none ∧
    Machine.Reach (M := storeSystem) (fun _ _ _ a _ => a.fault = none) cfg₀ cfg ∧
    cfg.thread (.client 0) = .ret (.listed (.error e)) := by
  have hrun : ((Machine.run listers.initial (onStore options.runId startUp)).bind fun cfg₀ =>
      (Machine.run cfg₀ (onStore nextRunId (steps .start 2 {}) ++ clientSteps 0 4 {})).map
        fun cfg => ((cfg₀.world.run options.runId).state?.isSome,
          (cfg.world.removal options.runId).isNone, (refused? cfg).isSome)) =
      some (true, true, true) := by decide +kernel
  obtain ⟨cfg₀, hcfg₀, hrest⟩ := Option.bind_eq_some_iff.mp hrun
  obtain ⟨cfg, hcfg, hfound⟩ := Option.map_eq_some_iff.mp hrest
  obtain ⟨hstate, hfound⟩ := Prod.mk.inj hfound
  obtain ⟨hremoval, hrefused⟩ := Prod.mk.inj hfound
  obtain ⟨e, he⟩ := Option.isSome_iff_exists.mp hrefused
  have hanswers : ∀ m ∈ onStore nextRunId (steps .start 2 {}) ++ clientSteps 0 4 {},
      m.2.fault.isNone := by decide
  exact ⟨cfg₀, cfg, e, .of_run hcfg₀, client_of_onStore hcfg₀ 0, hstate,
    Option.isNone_iff_eq_none.mp hremoval,
    Machine.reach_of_run (fun m hm _ _ _ => Option.isNone_iff_eq_none.mp (hanswers m hm)) hcfg,
    thread_of_refused he⟩

theorem list_succeeds_running : ∃ (cfg : storeSystem.Config) (result : ListResult),
    cfg.thread (.client 0) = .ret (.listed (.ok result)) := by
  have hrun : ((Machine.run listers.initial (onStore options.runId startUp)).bind fun cfg₀ =>
      (Machine.runChecked findsMove cfg₀ (clientSteps 0 4 {})).map fun cfg =>
        (cfg.thread (.client 0)).result?.isSome) = some true := by decide +kernel
  obtain ⟨cfg₀, hcfg₀, hrest⟩ := Option.bind_eq_some_iff.mp hrun
  obtain ⟨cfg, hcfg, hdone⟩ := Option.map_eq_some_iff.mp hrest
  obtain ⟨r, hr⟩ := Option.isSome_iff_exists.mp hdone
  have hfinds : Machine.Reach (findsRuns 0) cfg₀ cfg := .of_runChecked meets_findsRuns hcfg
  obtain ⟨-, hsucceeds⟩ := list_succeeds listers (.of_run hcfg₀) (client_of_onStore hcfg₀ 0)
    (hfinds.mono fun _ _ _ _ _ _ => trivial)
  obtain ⟨result, rfl⟩ := hsucceeds hfinds r (Prog.eq_ret_of_result? hr)
  exact ⟨cfg, result, Prog.eq_ret_of_result? hr⟩

end Procherd.Reference
