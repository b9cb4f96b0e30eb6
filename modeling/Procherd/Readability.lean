-- SUMMARY: Why the state of a created run can be read: its directory and lock file are there, and every document that is written passes the checks of `read_state`.
import Procherd.DocumentHistory

/-!
# Readability

`create_run` checks the run ID and makes the directory and the lock file before
it writes `state.json`. Every later document of the run has the run ID, the
schema and the lease names of the first one.
-/

namespace Procherd

open Interaction

variable [Toolchain] {setup : Setup} {ok : system.Condition} {cfg : system.Config}

/-! ## The creation -/

/-- What is there before a state is written. -/
structure Founded (runId : String) (w : World) : Prop where
  runId : canonicalRunId runId = .ok runId
  dir : w.dir = true
  lockFile : w.lockFile = true

theorem Founded.keeps {runId : String} {w w' : World} (h : Founded runId w) (hw : w.Keeps w') :
    Founded runId w' := ⟨h.runId, hw.dir h.dir, hw.lockFile h.lockFile⟩

/-- The first state is written into a directory with a lock file. -/
def foundedWrites : system.Condition
  | .start, _, .inl (.writeNewState state), _, w => Founded state.runId w
  | _, _, _, _, _ => True

namespace Foundation

def interface : Interface (Either CreateCmd ClientCmd) World where
  step c w b w' := ∃ a, execEither execCreate (execClient .start) c a w = some (b, w')
  rely := World.Keeps
  guar c w _ _ := ∀ a, foundedWrites .start c a w
  rely_refl _ := ⟨rfl, id, id⟩
  rely_trans h h' := ⟨h'.runId.trans h.runId, h'.dir ∘ h.dir, h'.lockFile ∘ h.lockFile⟩

theorem describes : Machine.Describes system.always .start id interface where
  self _ a _ _ _ _ h := ⟨a, h⟩
  other _ _ _ _ _ _ _ _ h := exec_keeps h

variable {s : Unit} {w : World}

/-- A command that writes no first state is always allowed. -/
theorem wp_create {c : CreateCmd (Except AppError Unit)} {P : World → Prop}
    (hguar : ∀ w a, foundedWrites .start (.inl c) a w)
    (hexec : ∀ w₁ a w₂, w.Keeps w₁ → execCreate c a w₁ = some (.ok (), w₂) → P w₂) :
    Proc.wp interface (Proc.attempt (.inl c) : Starter Unit) (fun _ _ => P) (fun _ _ _ => True)
      s w := by
  refine Proc.wp_attempt ?_
  rintro w₁ hrely r w₂ ⟨a, h⟩
  refine ⟨hguar w₁, ?_⟩
  cases r with
  | ok u => exact hexec w₁ a w₂ hrely h
  | error e => trivial

theorem wp_createRun (state : RunState) (spec : SupervisorSpec) (ownerToken : String) :
    Proc.wp interface (createRun state spec ownerToken) (fun _ _ _ => True) (fun _ _ _ => True)
      s w := by
  refine Proc.wp_bind (Proc.wp_ofExcept (fun id hid => ?_) fun _ _ => trivial)
  have hrunId : canonicalRunId state.runId = .ok state.runId := by
    rw [hid, canonicalRunId_eq hid]
  refine Proc.wp_seq (fun _ _ w => w.dir = true)
    (wp_create (fun _ _ => trivial) fun w₁ a w₂ _ h => ?_) fun _ s w hdir => ?_
  · obtain ⟨_, hr, -⟩ | ⟨-, rfl⟩ := createDir_cases h
    · cases hr
    · rfl
  refine Proc.wp_seq (fun _ _ => Founded state.runId)
    (wp_create (fun _ _ => trivial) fun w₁ a w₂ hkeeps h => ?_) fun _ s w hfounded => ?_
  · obtain ⟨_, -, hr, -⟩ | ⟨-, h⟩ := fallible_cases h
    · cases hr
    · cases h
      exact ⟨hrunId, hkeeps.dir hdir, rfl⟩
  refine Proc.wp_seq (fun _ _ => Founded state.runId)
    (wp_create (fun _ _ => trivial) fun w₁ a w₂ hkeeps h => ?_) fun _ s w hfounded => ?_
  · exact (hfounded.keeps hkeeps).keeps (exec_keeps (i := .start) (c := .inl .createState) h)
  refine Proc.wp_seq (fun _ _ _ => True) (Proc.wp_attempt ?_) fun _ s w _ => ?_
  · rintro w₁ hkeeps r w₂ -
    refine ⟨fun _ => hfounded.keeps hkeeps, ?_⟩
    cases r <;> trivial
  exact Proc.wp_seq _ (wp_create (fun _ _ => trivial) fun _ _ _ _ _ => trivial) fun _ s w _ =>
    wp_create (fun _ _ => trivial) fun _ _ _ _ _ => trivial

/-- Commands that write no first state. -/
def unwritten {β : Type} : Either CreateCmd ClientCmd β → Bool
  | .inl (.writeNewState _) => false
  | _ => true

theorem wp_call {β : Type} {c : Either CreateCmd ClientCmd β} (hc : unwritten c) :
    Proc.wp interface (Proc.call c : Starter β) (fun _ _ _ => True) (fun _ _ _ => True) s w := by
  refine Proc.wp_call fun _ _ _ _ _ => ⟨fun _ => ?_, trivial⟩
  rcases c with c | c
  · cases c with
    | writeNewState state => cases hc
    | _ => trivial
  · trivial

theorem wp_start (options : StartOptions) :
    Proc.wp interface (start options) (fun _ _ _ => True) (fun _ _ _ => True) s w := by
  refine Proc.wp_bind (Proc.wp_ofExcept (fun requests _ => ?_) fun _ _ => trivial)
  refine Proc.wp_seq _ (wp_call rfl) fun createdAtMs s w _ => ?_
  refine Proc.wp_seq _ (wp_createRun _ _ _) fun _ s w _ => ?_
  refine Proc.wp_seq _ (wp_call rfl) fun r s w _ => ?_
  cases r with
  | ok u =>
    refine Proc.wp_hoist (Proc.wp_mono (Proc.wp_of_invariant (I := fun _ => True) ?_ ?_ _ trivial)
      (fun _ _ _ _ => trivial) fun _ _ _ _ => trivial)
    · exact fun c w b w' _ _ => ⟨fun _ => trivial, trivial⟩
    · exact fun _ _ _ _ => trivial
  | error e =>
    refine Proc.wp_seq _ (wp_call rfl) fun updatedAtMs s w _ => ?_
    refine Proc.wp_seq _ (wp_call rfl) fun finishedAtMs s w _ => ?_
    exact Proc.wp_seq _ (wp_call rfl) fun _ s w _ => Proc.wp_throw trivial

end Foundation

theorem reach_foundedWrites (h : Machine.Reach ok setup.initial cfg) :
    Machine.Reach (fun i _ c a w => ok i c a w ∧ foundedWrites i c a w) setup.initial cfg := by
  refine Machine.Reach.strengthen (M := system) (t := fun _ : Unit => Thread.start)
    (L := fun _ => Foundation.interface) (Q := fun _ _ _ => True)
    (fun _ => Foundation.describes.mono fun _ _ _ _ _ _ => trivial) (fun _ _ _ _ _ _ => trivial)
    (fun _ => Prog.wp_bind (Prog.wp_mono ?_ (Foundation.wp_start setup.options)))
    (fun _ β c a w b w' hok _ hguar => ⟨hok, hguar a⟩) (fun j hj β c a w hok => ⟨hok, ?_⟩) h
  · exact fun _ _ _ => Prog.wp_ret trivial
  · cases j with
    | start => exact absurd rfl (hj ())
    | _ => trivial

/-! ## The documents -/

/-- A document of the run that was started with `options`. -/
def StartOptions.Documents (options : StartOptions) (state : RunState) : Prop :=
  ∃ requests createdAtMs, options.check = .ok requests ∧
    (options.initialState requests createdAtMs).SameIdentity state

theorem check_requests {options : StartOptions} {requests : LeaseRequests}
    (h : options.check = .ok requests) :
    validateRequests options.leasePorts options.leaseTempDirs = .ok requests := by
  simp only [StartOptions.check, bind, Except.bind, throw, throwThe, MonadExceptOf.throw, pure,
    Except.pure] at h
  repeat' split at h
  all_goals cases h
  assumption

theorem validateRequests_eq {portNames tempDirectoryNames : List String} {requests : LeaseRequests}
    (h : validateRequests portNames tempDirectoryNames = .ok requests) :
    requests = { portNames, tempDirectoryNames } := by
  simp only [validateRequests, bind, Except.bind, throw, throwThe, MonadExceptOf.throw, pure,
    Except.pure] at h
  repeat' split at h
  all_goals cases h
  rfl

/-- `read_state` accepts every document of a founded run. -/
theorem checkState_of_documents {options : StartOptions} {state : RunState}
    (hrunId : canonicalRunId options.runId = .ok options.runId) (h : options.Documents state) :
    checkState options.runId state = .ok state := by
  obtain ⟨requests, createdAtMs, hcheck, hschema, hid, hnames⟩ := h
  have hrequests := check_requests hcheck
  have hleases : state.leases.names = (options.leasePorts, options.leaseTempDirs) := by
    rw [hnames, validateRequests_eq hrequests]
    simp only [StartOptions.initialState, LeaseState.requested, LeaseState.names, List.map_map]
    exact Prod.ext (List.map_id _) (List.map_id _)
  obtain ⟨hports, htemps⟩ := Prod.mk.inj hleases
  have hrunId' : state.runId = options.runId := hid
  have hschema' : state.schemaVersion = RUN_SCHEMA_VERSION := hschema
  simp only [checkState, validatePersistedRunState, hschema', hrunId', hrunId, hports, htemps,
    hrequests, bind, Except.bind, ne_eq, not_true_eq_false, if_false]
  rfl

/-! ## Runs -/

/-- What makes the state of a run readable. -/
structure Readable (options : StartOptions) (w : World) : Prop where
  runId : w.runId = options.runId
  founded : w.history ≠ [] → Founded options.runId w
  documents : ∀ state ∈ w.history, options.Documents state

namespace Readable

variable {options : StartOptions} {w w' : World}

omit [Toolchain] in
theorem succeeds {timely : Prop} {content : LogStream → Bytes} {old state : RunState}
    [Toolchain] (h : options.Documents old) (hnext : old.Succeeds timely content state) :
    options.Documents state := by
  obtain ⟨requests, createdAtMs, hcheck, hidentity⟩ := h
  exact ⟨requests, createdAtMs, hcheck, hidentity.trans hnext.identity⟩

/-- Only the first state is written where there is none. -/
theorem founded_of_empty {i : Thread} {β : Type} {c : i.Cmd β} {a : Answer} {b : β}
    (hdocumented : Documented setup False i c a w) (hfounded : foundedWrites i c a w)
    (hexec : exec i c a w = some (b, w')) (hempty : w.history = []) (hne : w'.history ≠ []) :
    Founded setup.options.runId w := by
  have hsame (hhistory : w'.history = w.history) : Founded setup.options.runId w :=
    absurd (hhistory.trans hempty) hne
  cases i with
  | start =>
    cases c with
    | inl c =>
      cases c with
      | writeNewState state =>
        obtain ⟨-, -, requests, createdAtMs, -, -, rfl⟩ := hdocumented.launch.1
        exact hfounded
      | replaceState state =>
        obtain ⟨-, hcreated, -⟩ := hdocumented.launch.1
        obtain ⟨_, _, -, -, -, hhistory, -⟩ := hcreated.documents
        exact nomatch hempty.symm.trans hhistory
      | _ =>
        simp only [exec, execEither, execCreate, fallible] at hexec
        repeat' split at hexec
        all_goals cases hexec <;> exact hsame rfl
    | inr c =>
      rw [execClient_frame (show execClient .start c a w = some (b, w') from hexec)] at hsame
      exact hsame rfl
  | supervisor =>
    cases c with
    | inl c =>
      rw [execLock_frame (show execLock c a w = some (b, w') from hexec)] at hsame
      exact hsame rfl
    | inr c =>
      cases hc : c.writesState with
      | false => exact hsame (execBody_state hc hexec).2
      | true =>
        cases c with
        | persistState state =>
          obtain ⟨old, hold, -⟩ := hdocumented.guar b w' hexec
          have hphase : w.phase ≠ .unlaunched := by
            rw [show w.phase = .active from hdocumented.launch.2]
            decide
          have hhead := (hdocumented.recorded.document hphase).symm.trans hold
          rw [hempty] at hhead
          cases hhead
        | _ => cases hc
  | reader stream =>
    rw [execReader_frame (show execReader stream c a w = some (b, w') from hexec)] at hsame
    exact hsame rfl
  | client index =>
    rw [execClient_frame (show execClient (.client index) c a w = some (b, w') from hexec)] at hsame
    exact hsame rfl

theorem step {i : Thread} {β : Type} {c : i.Cmd β} {a : Answer} {b : β}
    (hdocumented : Documented setup False i c a w) (hfounded : foundedWrites i c a w)
    (hexec : exec i c a w = some (b, w')) (h : Readable setup.options w) :
    Readable setup.options w' := by
  have hkeeps := exec_keeps hexec
  refine ⟨hkeeps.runId.trans h.runId, fun hne => ?_, ?_⟩
  · by_cases hempty : w.history = []
    · exact (founded_of_empty hdocumented hfounded hexec hempty hne).keeps hkeeps
    · exact (h.founded hempty).keeps hkeeps
  · cases hdocumented.wrote hexec with
    | quiet hhistory => exact hhistory ▸ h.documents
    | created requests createdAtMs hempty hcheck hhistory =>
      rw [hhistory]
      exact List.forall_mem_singleton.mpr ⟨requests, createdAtMs, hcheck, .refl _⟩
    | launchFailed requests createdAtMs error updatedAtMs finishedAtMs hcreated hwrites hstate
        hhistory =>
      rw [hhistory]
      obtain ⟨requests', createdAtMs', hcheck, hidentity⟩ := h.documents _
        (hcreated ▸ List.mem_singleton_self _)
      exact List.forall_mem_cons.mpr
        ⟨⟨requests', createdAtMs', hcheck, hidentity.trans ⟨rfl, rfl, rfl⟩⟩, h.documents⟩
    | supervised old state rest hold hlive hlaunched hstate hwrites hnext hhistory =>
      rw [hhistory, ← hold]
      exact List.forall_mem_cons.mpr
        ⟨succeeds (h.documents old (hold ▸ List.mem_cons_self)) hnext, h.documents⟩

end Readable

theorem reach_readable (h : Machine.Reach ok setup.initial cfg) :
    Readable setup.options cfg.world := by
  have hreach : Machine.Reach (fun i _ c a w =>
      (ok i c a w ∧ foundedWrites i c a w) ∧ Documented setup False i c a w) setup.initial cfg :=
    reach_documented nofun nofun (reach_foundedWrites h)
  exact Machine.Reach.invariant (M := system) (J := Readable setup.options)
    (fun _ _ _ _ _ _ _ hok hexec => Readable.step hok.2 hok.1.2 hexec) hreach
    ⟨rfl, fun hne => absurd rfl hne, fun _ hstate => absurd hstate List.not_mem_nil⟩

end Procherd
