-- SUMMARY: The frame rule of the supervisor's errors: what it can fail with, where the poll of the stop request is verified on its own.
import Procherd.ControlFrame
import Procherd.OutputFrame

/-!
# Failures

Every error of the supervisor is thrown by the program, reported by one of its
commands, or comes out of the poll of the stop request. Where each of these
errors is in a class `E`, the whole supervisor fails only with errors in `E`,
and the failures it writes to `state.json` are such errors.
-/

namespace Procherd

open Interaction

/-! ## The errors of the program -/

theorem error_of_mapM {ε α β : Type} {f : α → Except ε β} {xs : List α} {e : ε}
    (h : xs.mapM f = .error e) : ∃ x ∈ xs, f x = .error e := by
  induction xs with
  | nil => cases h
  | cons x xs ih =>
    simp only [List.mapM_cons, bind, Except.bind] at h
    cases hx : f x with
    | error e' =>
      rw [hx] at h
      cases h
      exact ⟨x, List.mem_cons_self, hx⟩
    | ok b =>
      rw [hx] at h
      simp only at h
      cases hxs : xs.mapM f with
      | error e' =>
        rw [hxs] at h
        cases h
        obtain ⟨y, hy, hfail⟩ := ih hxs
        exact ⟨y, List.mem_cons_of_mem _ hy, hfail⟩
      | ok bs =>
        rw [hxs] at h
        cases h

/-- An error that is not that of a system call. -/
abbrev AppError.NotIo (e : AppError) : Prop := e.kind ≠ "io"

theorem replacePlaceholders_error [Toolchain] {value : String}
    {ports tempDirectories : BTreeMap String} {e : AppError}
    (h : replacePlaceholders value ports tempDirectories = .error e) : e.kind = "usage" := by
  simp only [replacePlaceholders] at h
  repeat' split at h
  all_goals cases h
  all_goals rfl

theorem populateState_error [Toolchain] {ports : List ReservedPort} {state : RunState}
    {acquiredAtMs : Nat} {tempPaths : BTreeMap PathBuf} {e : AppError}
    (h : LeaseAllocation.populateState ports state acquiredAtMs tempPaths = .error e) :
    e.NotIo := by
  have hkind {e' : AppError} (kind : String) (hio : kind ≠ "io") (he : e'.kind = kind)
      (h : e' = e) : e.NotIo := by
    rw [AppError.NotIo, ← h, he]
    exact hio
  simp only [LeaseAllocation.populateState, bind, Except.bind] at h
  split at h
  · rename_i e' htemp
    obtain ⟨entry, -, hentry⟩ := error_of_mapM htemp
    split at hentry
    · cases hentry
    · cases hentry
      exact hkind "lease_path" (by decide) rfl (Except.error.inj h)
  split at h
  · rename_i e' hports
    obtain ⟨lease, -, hlease⟩ := error_of_mapM hports
    split at hlease
    · cases hlease
      exact hkind "integrity" (by decide) rfl (Except.error.inj h)
    · cases hlease
  split at h
  · rename_i e' htemps
    obtain ⟨lease, -, hlease⟩ := error_of_mapM htemps
    split at hlease
    · cases hlease
      exact hkind "integrity" (by decide) rfl (Except.error.inj h)
    · cases hlease
  split at h
  · rename_i e' hargs
    obtain ⟨argument, -, hargument⟩ := error_of_mapM hargs
    exact hkind "usage" (by decide) (replacePlaceholders_error hargument) (Except.error.inj h)
  split at h
  · rename_i e' hchecks
    obtain ⟨check, -, hcheck⟩ := error_of_mapM hchecks
    unfold LeaseAllocation.resolveCheck at hcheck
    split at hcheck
    · split at hcheck
      · cases hcheck
        exact hkind "integrity" (by decide) rfl (Except.error.inj h)
      · cases hcheck
    · cases hcheck
  · cases h

/-! ## The frame -/

/-- The commands whose errors the supervisor propagates, apart from the two reads
    at its start, the writes of the state and the poll. -/
inductive AttemptedCall : Type → Type where
  | removeSpec : AttemptedCall Unit
  | createTempDirectories (names : List String) : AttemptedCall (BTreeMap PathBuf)
  | reservePorts (runId : String) (names : List String) : AttemptedCall (List ReservedPort)
  | releaseRegistry (runId : String) : AttemptedCall Unit
  | createLog : AttemptedCall Unit
  | syncLog : AttemptedCall Unit

def AttemptedCall.command {α : Type} : AttemptedCall α → BodyCmd (Except AppError α)
  | .removeSpec => .removeSpec
  | .createTempDirectories names => .createTempDirectories names
  | .reservePorts runId names => .reservePorts runId names
  | .releaseRegistry runId => .releaseRegistry runId
  | .createLog => .createLog
  | .syncLog => .syncLog

/-- The commands that neither write the state nor belong to the poll. -/
def BodyCmd.aside {β : Type} : BodyCmd β → Bool
  | .persistState _ | .inspectStop | .openStop | .readStop _ | .stopExists | .removeStop => false
  | _ => true

theorem BodyCmd.aside_of_output {β : Type} {c : BodyCmd β} (h : c.output) : c.aside := by
  cases c <;> first | rfl | cases h

theorem BodyCmd.aside_of_control {β : Type} {c : BodyCmd β} (h : c.control) : c.aside := by
  cases c <;> first | rfl | cases h

theorem AttemptedCall.aside {α : Type} (c : AttemptedCall α) : c.command.aside := by
  cases c <;> rfl

/-- A failure that the state tells of is an error in `E`. -/
def RunState.Blames (E : AppError → Prop) (state : RunState) : Prop :=
  state.status = .failed → ∀ failure ∈ state.failure, ∃ e, E e ∧ failure.kind = e.kind

/-- `J` is kept throughout, and every error is in `E`. `G` is what the poll needs
    to know of the spec. -/
structure FailureFrame {O : Type} (L : Interface BodyCmd O) (G : SupervisorSpec → Prop)
    (J : O → Prop) (E : AppError → Prop) : Prop where
  keeps : L.Keeps BodyCmd.aside J
  fails : ∀ {α : Type} (c : AttemptedCall α) {o o' e o''}, J o → L.rely o o' →
    L.step c.command o' (.error e) o'' → E e
  failsIo : ∀ {α : Type} (c : ChildCall α) {o o' e o''}, ¬ c.tolerates e → J o → L.rely o o' →
    L.step c.command o' (.error e) o'' → E (.ofIo e)
  appendFailed : ∀ {o o' bytes e kept o''}, J o → L.rely o o' →
    L.step (.appendLog bytes) o' (.failed e kept) o'' → E e
  thrown : ∀ {e : AppError}, e.NotIo → E e
  persist : ∀ {state : RunState} {o o' r o''}, state.Blames E → J o → L.rely o o' →
    L.step (.persistState state) o' r o'' →
    L.guar (.persistState state) o' r o'' ∧ J o'' ∧ ∀ e, r = .error e → E e

namespace FailureFrame

variable {O : Type} {L : Interface BodyCmd O} {G : SupervisorSpec → Prop} {J : O → Prop}
  {E : AppError → Prop} {l : Locals} {o : O}

/-- The assertion on the locals while the supervisor works. -/
structure Holds (G : SupervisorSpec → Prop) (J : O → Prop) (l : Locals) (o : O) : Prop where
  spec : G l.spec
  status : l.state.status ≠ .failed
  holds : J o

/-- What holds of a failure, whatever the store. -/
abbrev Failed {σ : Type} (E : AppError → Prop) (J : O → Prop) (e : AppError) (_ : σ) (o : O) : Prop :=
  E e ∧ J o

theorem wp_persistState (F : FailureFrame L G J E) (h : Holds G J l o) :
    Proc.wp L persistState (fun _ => Holds G J) (Failed E J) l o := by
  simp only [persistState, Proc.wp_get_bind]
  refine Proc.wp_attempt fun o' hrely r o'' hs => ?_
  obtain ⟨hguar, hJ, hE⟩ := F.persist (fun hfailed => absurd hfailed h.status) h.holds hrely hs
  refine ⟨hguar, ?_⟩
  cases r with
  | ok u => exact { h with holds := hJ }
  | error e => exact ⟨hE e rfl, hJ⟩

theorem Holds.command (F : FailureFrame L G J E) {β : Type} {c : BodyCmd β} (hc : c.aside)
    (h : Holds G J l o) {o' o'' : O} {b : β} (hrely : L.rely o o') (hs : L.step c o' b o'') :
    L.guar c o' b o'' ∧ Holds G J l o'' :=
  have ⟨hguar, hJ⟩ := F.keeps c hc h.holds hrely hs
  ⟨hguar, { h with holds := hJ }⟩

theorem outputFrame (F : FailureFrame L G J E) : OutputFrame L (Holds G J) (Failed E J) where
  command _ hc _ _ _ _ _ h := h.command F (BodyCmd.aside_of_output hc)
  logs _ h := { h with }
  readiness _ _ h := { h with }
  appendFailed _ h hrely hs :=
    ⟨F.appendFailed h.holds hrely hs, (h.command F rfl hrely hs).2.holds⟩
  drainTimeout h := ⟨F.thrown (by decide), h.holds⟩

theorem controlFrame (F : FailureFrame L G J E) : ControlFrame L (Holds G J) (Failed E J) where
  command _ hc _ _ _ _ _ h := h.command F (BodyCmd.aside_of_control hc)
  fail {runId _ _ _ _ _} h hrely hs :=
    ⟨F.fails (.releaseRegistry runId) h.holds hrely hs, (h.command F rfl hrely hs).2.holds⟩
  failIo c _ _ _ _ _ htolerated h hrely hs :=
    have haside := BodyCmd.aside_of_control (BodyCmd.control_of_steering c.steering)
    ⟨F.failsIo c htolerated h.holds hrely hs, (h.command F haside hrely hs).2.holds⟩
  locals h hkeeps := by
    have hspec := h.spec
    have hstatus := h.status
    rw [← hkeeps.spec] at hspec
    rw [← hkeeps.status] at hstatus
    exact ⟨hspec, hstatus, h.holds⟩
  touched h hrely hs :=
    have ⟨hspec, hstatus, hJ⟩ := (h.command F rfl hrely hs).2
    ⟨hspec, hstatus, hJ⟩
  persist := F.wp_persistState

theorem wp_call (F : FailureFrame L G J E) {β : Type} {c : BodyCmd β} (hc : c.aside)
    (h : Holds G J l o) :
    Proc.wp L (Proc.call c : Supervised β) (fun _ l' o' => l' = l ∧ Holds G J l o') (Failed E J)
      l o :=
  Proc.wp_call fun _ hrely _ _ hs =>
    have ⟨hguar, h'⟩ := h.command F hc hrely hs
    ⟨hguar, rfl, h'⟩

theorem wp_attempt (F : FailureFrame L G J E) {α σ : Type} {s : σ} (c : AttemptedCall α)
    (h : J o) :
    Proc.wp L (Proc.attempt c.command : Body σ α) (fun _ s' o' => s' = s ∧ J o') (Failed E J)
      s o := by
  refine Proc.wp_attempt fun o' hrely r o'' hs => ?_
  have ⟨hguar, hJ⟩ := F.keeps c.command c.aside h hrely hs
  cases r with
  | ok a => exact ⟨hguar, rfl, hJ⟩
  | error e => exact ⟨hguar, F.fails c h hrely hs, hJ⟩

/-! ## The scopes -/

/-- A command that runs after an outcome, whatever it was. -/
theorem wp_cleanup (F : FailureFrame L G J E) {β : Type} {c : BodyCmd β} (hc : c.aside)
    {Q : O → Prop} (hQ : ∀ o, J o → Q o) {E' : AppError → Locals → O → Prop} (h : J o) :
    Proc.wp L (Proc.call c : Supervised β) (fun _ _ => Q) E' l o :=
  Proc.wp_call fun _ hrely _ _ hs =>
    have ⟨hguar, hJ⟩ := F.keeps c hc h hrely hs
    ⟨hguar, hQ _ hJ⟩

/-- A scope whose cleanup does not fail. -/
theorem wp_scope {m cleanup : Supervised Unit}
    (hcleanup : ∀ {Q : O → Prop} {E' : AppError → Locals → O → Prop} {l o}, (∀ o, J o → Q o) →
      J o → Proc.wp L cleanup (fun _ _ => Q) E' l o)
    (hm : Proc.wp L m (fun _ _ => J) (Failed E J) l o) :
    Proc.wp L (Proc.ensuring m cleanup) (fun _ _ => J) (Failed E J) l o :=
  Proc.wp_ensuring (Proc.wp_mono hm (fun _ _ _ h => hcleanup (fun _ => id) h)
    fun _ _ _ h => hcleanup (fun _ hJ => ⟨h.1, hJ⟩) h.2)

section Drops

variable {Q : O → Prop} {E' : AppError → Locals → O → Prop}

theorem wp_dropLogs (F : FailureFrame L G J E) (hQ : ∀ o, J o → Q o) (h : J o) :
    Proc.wp L dropLogs (fun _ _ => Q) E' l o := by
  simp only [dropLogs, Proc.wp_get_bind]
  split
  · exact Proc.wp_pure (hQ o h)
  · exact F.wp_cleanup rfl hQ h

theorem wp_dropChild (F : FailureFrame L G J E) (hQ : ∀ o, J o → Q o) (h : J o) :
    Proc.wp L dropChild (fun _ _ => Q) E' l o := by
  simp only [dropChild, Proc.wp_get_bind]
  split
  · exact Proc.wp_seq _ (F.wp_cleanup rfl hQ h) fun _ _ _ h => Proc.wp_pure h
  · exact Proc.wp_pure (hQ o h)

/-- The transaction of a release, whose outcome is looked at. -/
theorem wp_releaseRegistry (F : FailureFrame L G J E) {σ : Type} {s : σ}
    (leases : LeaseAllocation) (h : J o) :
    Proc.wp L (releaseRegistry leases) (fun _ _ => J) (fun _ _ => J) s o := by
  unfold releaseRegistry
  split
  · exact Proc.wp_pure h
  · exact Proc.wp_seq (fun _ _ => J)
      (Proc.wp_mono (F.wp_attempt (.releaseRegistry leases.runId) h) (fun _ _ _ h => h.2)
        fun _ _ _ h => h.2)
      fun _ _ _ h => Proc.wp_pure h

theorem wp_dropLeases (F : FailureFrame L G J E) (hQ : ∀ o, J o → Q o) (h : J o) :
    Proc.wp L dropLeases (fun _ _ => Q) E' l o := by
  simp only [dropLeases, Proc.wp_get_bind]
  exact Proc.wp_seq (fun _ _ => J) (Proc.wp_outcome (F.wp_releaseRegistry l.leases h))
    fun _ _ _ h => Proc.wp_pure (hQ _ h)

end Drops

/-! ## The loop -/

section Rounds

variable [Toolchain]

/-- The poll is verified on its own: it keeps `J`, and fails only with `E`. -/
abbrev Polls (L : Interface BodyCmd O) (G : SupervisorSpec → Prop) (J : O → Prop)
    (E : AppError → Prop) (path : PathBuf) : Prop :=
  ∀ {l : Locals} {o : O}, G l.spec → J o →
    Proc.wp L (readStopRequest path l.spec) (fun _ l' o' => l' = l ∧ J o') (Failed E J) l o

theorem wp_finishLogs (F : FailureFrame L G J E) (h : Holds G J l o) :
    Proc.wp L finishLogs (fun _ => Holds G J) (Failed E J) l o := by
  simp only [finishLogs, Proc.wp_modify_bind]
  refine Proc.wp_seq _ (F.wp_attempt .syncLog h.holds) ?_
  rintro _ _ o ⟨rfl, hJ⟩
  exact Proc.wp_modify ⟨h.spec, h.status, hJ⟩

theorem finalState_status (state : RunState) (stopping : Option Stopping) (exitStatus : ExitStatus)
    (finishedAtMs : Nat) :
    (finalState state stopping exitStatus finishedAtMs).status ≠ .failed := by
  simp only [finalState]
  split <;> exact fun h => by cases h

theorem wp_handleExit (F : FailureFrame L G J E) (exitStatus : ExitStatus) (h : Holds G J l o) :
    Proc.wp L (handleExit exitStatus) (fun _ _ => J) (Failed E J) l o := by
  have hloop := F.controlFrame.loop
  refine Proc.wp_seq _ (hloop.wp_killRemaining h) fun _ l o h => ?_
  simp only [Proc.wp_modify_bind]
  have h : Holds G J { l with armed := false } o := { h with }
  refine Proc.wp_seq _ (F.outputFrame.wp_drainUntilClosed _ h) fun _ l o h => ?_
  simp only [Proc.wp_modify_bind]
  refine Proc.wp_seq _ (F.wp_finishLogs { h with }) fun _ l o h => ?_
  refine Proc.wp_seq _ (F.controlFrame.wp_releaseLeases h) fun _ l o h => ?_
  refine Proc.wp_seq _ (hloop.wp_touch h) fun _ l o h => ?_
  refine Proc.wp_seq _ (F.wp_call rfl h) ?_
  rintro finishedAtMs l o ⟨rfl, h⟩
  simp only [Proc.wp_modify_bind]
  have hfinal : Holds G J { l with
      state := finalState l.state l.stopping exitStatus finishedAtMs } o :=
    ⟨h.spec, finalState_status _ _ _ _, h.holds⟩
  exact Proc.wp_mono (F.wp_persistState hfinal) (fun _ _ _ h => h.holds) fun _ _ _ => id

theorem wp_superviseStop (F : FailureFrame L G J E) {path : PathBuf} (hpoll : Polls L G J E path)
    (h : Holds G J l o) :
    Proc.wp L (superviseStop path) (fun _ => Holds G J) (Failed E J) l o := by
  simp only [superviseStop, Proc.wp_get_bind]
  split
  · refine F.controlFrame.loop.wp_watchTriggers (A := fun _ _ => True)
      (fun _ _ _ _ _ _ _ _ => trivial)
      (fun request now o _ h => ⟨h.spec, (fun h => by cases h), h.holds⟩)
      (fun now o h => ⟨h.spec, (fun h => by cases h), h.holds⟩) ?_
    refine Proc.wp_mono (hpoll h.spec h.holds) ?_ fun _ _ _ => id
    rintro r _ _ ⟨rfl, hJ⟩
    exact ⟨rfl, { h with holds := hJ }, fun _ _ => trivial⟩
  · exact F.controlFrame.loop.wp_enforceStop _ h

theorem wp_superviseRound (F : FailureFrame L G J E) {path : PathBuf} (hpoll : Polls L G J E path)
    (h : Holds G J l o) :
    Proc.wp L (superviseRound path) (fun r l o => r.elim (Holds G J l o) fun _ => J o) (Failed E J)
      l o := by
  have hloop := F.controlFrame.loop
  refine Proc.wp_seq _ (F.outputFrame.wp_drainAvailable h) fun drain l o h => ?_
  refine Proc.wp_seq _ (hloop.wp_pollReadiness (fun inputs o h => { h with }) h)
    fun polled l o h => ?_
  refine Proc.wp_seq _ (hloop.wp_persistReadiness _ h) fun _ l o h => ?_
  refine Proc.wp_seq _ (F.wp_superviseStop hpoll h) fun _ l o h => ?_
  refine Proc.wp_seq _ (hloop.wp_tryWaitRetry h) fun exited l o h => ?_
  cases exited with
  | some exitStatus =>
    exact Proc.wp_seq _ (F.wp_handleExit exitStatus h) fun _ l o h => Proc.wp_pure h
  | none =>
    refine Proc.wp_seq _ (hloop.wp_snapshotIfDue (fun o h => { h with }) h) fun _ l o h => ?_
    refine Proc.wp_seq _ (F.wp_call rfl h) ?_
    rintro _ _ o ⟨rfl, h⟩
    exact Proc.wp_pure h

/-! ## The setup -/

theorem wp_superviseOutput (F : FailureFrame L G J E) {path : PathBuf}
    (hpoll : Polls L G J E path) (h : Holds G J l o) :
    Proc.wp L (superviseOutput path) (fun _ _ => J) (Failed E J) l o := by
  refine wp_scope (fun hQ h => F.wp_cleanup rfl hQ h) ?_
  refine Proc.wp_seq _ (F.wp_call rfl h) ?_
  rintro _ _ o ⟨rfl, h⟩
  refine Proc.wp_seq _ (F.wp_call rfl h) ?_
  rintro _ _ o ⟨rfl, h⟩
  refine Proc.wp_seq _ (F.wp_call rfl h) ?_
  rintro _ _ o ⟨rfl, h⟩
  refine Proc.wp_seq _ (F.wp_call rfl h) ?_
  rintro _ l o ⟨rfl, h⟩
  refine Proc.wp_seq _ (F.wp_attempt .createLog h.holds) ?_
  rintro _ _ o ⟨rfl, hJ⟩
  refine Proc.wp_seq _ (F.wp_call rfl { h with holds := hJ }) ?_
  rintro now l o ⟨rfl, h⟩
  simp only [Proc.wp_modify_bind]
  refine wp_scope (fun hQ h => F.wp_dropLogs hQ h) ?_
  refine Proc.wp_repeatUntil (Holds G J) (fun l o h => ?_) { h with }
  refine Proc.wp_mono (F.wp_superviseRound hpoll h) (fun r l o h => ?_) fun _ _ _ => id
  cases r <;> exact h

theorem wp_superviseChild (F : FailureFrame L G J E) {path : PathBuf}
    (hpoll : Polls L G J E path) (pid : Nat) (h : Holds G J l o) :
    Proc.wp L (superviseChild path pid) (fun _ _ => J) (Failed E J) l o := by
  refine wp_scope (fun hQ h => F.wp_dropChild hQ h) ?_
  simp only [Proc.wp_modify_bind]
  refine Proc.wp_seq _ (F.wp_call rfl (l := { l with armed := true }) { h with }) ?_
  rintro spawnedAtMs _ o ⟨rfl, h⟩
  simp only [Proc.wp_modify_bind]
  refine Proc.wp_seq _ (F.controlFrame.loop.wp_touch ⟨h.spec, (fun h => by cases h), h.holds⟩)
    fun _ l o h => ?_
  simp only [Proc.wp_modify_bind]
  exact Proc.wp_seq _ (F.wp_persistState { h with }) fun _ l o h => F.wp_superviseOutput hpoll h

omit [Toolchain] in
/-- The release of the leases of a state whose failure is in `E`. -/
theorem wp_releaseBlamed (F : FailureFrame L G J E) (hblames : l.state.Blames E) (h : J o) :
    Proc.wp L releaseLeases (fun _ l' o' => l'.state.Blames E ∧ J o') (Failed E J) l o := by
  simp only [releaseLeases, Proc.wp_get_bind]
  refine Proc.wp_seq (fun _ l' o' => l'.state.Blames E ∧ J o') ?_ ?_
  · unfold releaseRegistry
    split
    · exact Proc.wp_pure ⟨hblames, h⟩
    · refine Proc.wp_seq _ (F.wp_attempt (.releaseRegistry l.leases.runId) h) ?_
      rintro _ _ o ⟨rfl, h⟩
      exact Proc.wp_pure ⟨hblames, h⟩
  rintro leases l o ⟨hblames, h⟩
  simp only [Proc.wp_modify_bind]
  refine Proc.wp_bind (Proc.wp_call fun o' hrely now o'' hs => ?_)
  obtain ⟨hguar, hJ⟩ := F.keeps .now rfl h hrely hs
  exact ⟨hguar, Proc.wp_modify ⟨hblames, hJ⟩⟩

omit [Toolchain] in
theorem wp_failSpawn (F : FailureFrame L G J E) (error : IoError) (h : J o) :
    Proc.wp L (failSpawn error) (fun _ _ => J) (Failed E J) l o := by
  have hspawn (message : String) : E (.operational "process_spawn" message) := by
    apply F.thrown
    simp [AppError.NotIo]
  simp only [failSpawn, Proc.wp_modify_bind]
  refine Proc.wp_seq (fun _ _ => J) (Proc.wp_bind (Proc.wp_call fun o' hrely now o'' hs => ?_))
    fun _ l o h => ?_
  · obtain ⟨hguar, hJ⟩ := F.keeps .now rfl h hrely hs
    exact ⟨hguar, Proc.wp_modify hJ⟩
  refine Proc.wp_bind (Proc.wp_call fun o' hrely finishedAtMs o'' hs => ?_)
  obtain ⟨hguar, hJ⟩ := F.keeps .now rfl h hrely hs
  refine ⟨hguar, ?_⟩
  simp only [Proc.wp_modify_bind]
  refine Proc.wp_seq _ (F.wp_releaseBlamed ?_ hJ) ?_
  · intro _ failure hfailure
    cases hfailure
    exact ⟨_, hspawn error.message, rfl⟩
  rintro _ l o ⟨hblames, h⟩
  refine Proc.wp_seq (fun _ _ => J) ?_ fun _ l o h => ?_
  · simp only [persistState, Proc.wp_get_bind]
    refine Proc.wp_attempt fun o' hrely r o'' hs => ?_
    obtain ⟨hguar, hJ, hE⟩ := F.persist hblames h hrely hs
    refine ⟨hguar, ?_⟩
    cases r with
    | ok u => exact hJ
    | error e => exact ⟨hE e rfl, hJ⟩
  · simp only [Proc.wp_get_bind]
    exact Proc.wp_throw ⟨hspawn _, h⟩

theorem wp_superviseLeased (F : FailureFrame L G J E) {path : PathBuf}
    (hpoll : Polls L G J E path) (h : Holds G J l o) :
    Proc.wp L (superviseLeased path) (fun _ _ => J) (Failed E J) l o := by
  refine wp_scope (fun hQ h => F.wp_dropLeases hQ h) ?_
  refine Proc.wp_seq _ (F.wp_persistState h) fun _ l o h => ?_
  refine Proc.wp_seq _ (F.wp_call rfl h) ?_
  rintro handoffAtMs l o ⟨rfl, h⟩
  simp only [Proc.wp_modify_bind, Proc.wp_get_bind]
  have h : Holds G J { l with state := l.leases.handoffAt handoffAtMs l.state } o := { h with }
  refine Proc.wp_seq _ (F.wp_call rfl h) ?_
  rintro r _ o ⟨rfl, h⟩
  cases r with
  | ok pid => exact F.wp_superviseChild hpoll pid h
  | error e => exact F.wp_failSpawn e h.holds

end Rounds

/-! ## The whole of the supervisor -/

section Supervise

variable [Toolchain] {σ : Type} {s : σ}

/-- The allocation keeps the status of the state. -/
theorem wp_acquire (F : FailureFrame L G J E) {state : RunState} (requests : LeaseRequests)
    (hstatus : state.status ≠ .failed) (h : J o) :
    Proc.wp L (LeaseAllocation.acquire state requests)
      (fun r _ o => r.2.status ≠ .failed ∧ J o) (Failed E J) s o := by
  have husage {e : AppError} (he : e.kind = "usage") : E e :=
    F.thrown (by rw [AppError.NotIo, he]; decide)
  refine Proc.wp_bind (Proc.wp_ofExcept (fun runId _ => ?_)
    fun _ he => ⟨husage (canonicalRunId_error he), h⟩)
  refine Proc.wp_bind (Proc.wp_ofExcept (fun _ _ => ?_)
    fun _ he => ⟨husage (validateNames_error he), h⟩)
  refine Proc.wp_bind (Proc.wp_ofExcept (fun _ _ => ?_)
    fun _ he => ⟨husage (validateNames_error he), h⟩)
  refine Proc.wp_bind (Proc.wp_call fun o' hrely acquiredAtMs o'' hs => ?_)
  have ⟨hguar, hJ⟩ := F.keeps .now rfl h hrely hs
  refine ⟨hguar, ?_⟩
  refine Proc.wp_seq (fun _ _ => J) ?_ fun tempPaths s o h => ?_
  · unfold createTempDirectories
    split
    · exact Proc.wp_pure hJ
    · exact Proc.wp_mono (F.wp_attempt (.createTempDirectories requests.tempDirectoryNames) hJ) (fun _ _ _ h => h.2)
        fun _ _ _ => id
  refine Proc.wp_seq (fun _ _ => J) ?_ fun ports s o h => ?_
  · unfold reservePortNames
    split
    · exact Proc.wp_pure h
    · exact Proc.wp_mono (F.wp_attempt (.reservePorts runId requests.portNames) h) (fun _ _ _ h => h.2)
        fun _ _ _ => id
  split
  · rename_i e hpopulate
    exact Proc.wp_seq (fun _ _ => J) (wp_discardLeases (F.wp_releaseRegistry _) h)
      fun _ _ _ h => Proc.wp_throw ⟨F.thrown (populateState_error hpopulate), h⟩
  · rename_i populated environment hpopulate
    refine Proc.wp_pure ⟨?_, h⟩
    rw [LeaseAllocation.populateState_frame hpopulate]
    exact hstatus

/-- What the supervisor does after it has loaded its spec and the state. -/
theorem wp_superviseLocked (F : FailureFrame L G J E) {path : PathBuf}
    (hpoll : Polls L G J E path) {s : Unit}
    (hload : Proc.wp L loadSupervised (fun r _ o => G r.1 ∧ J o) (Failed E J) s o) :
    Proc.wp L (superviseLocked path) (fun _ _ => J) (Failed E J) s o := by
  refine Proc.wp_seq _ hload ?_
  rintro ⟨spec, state⟩ s o ⟨hspec, h⟩
  refine Proc.wp_seq _ (F.wp_attempt .removeSpec h) ?_
  rintro _ _ o ⟨rfl, h⟩
  refine Proc.wp_bind (Proc.wp_call fun o' hrely updatedAtMs o'' hs => ?_)
  have ⟨hguar, h⟩ := F.keeps .now rfl h hrely hs
  refine ⟨hguar, Proc.wp_bind (Proc.wp_call fun o' hrely supervisorPid o'' hs => ?_)⟩
  have ⟨hguar, h⟩ := F.keeps .supervisorPid rfl h hrely hs
  refine ⟨hguar, ?_⟩
  refine Proc.wp_seq (fun _ _ => J) (Proc.wp_attempt fun o' hrely r o'' hs => ?_) fun _ s o h => ?_
  · obtain ⟨hguar, hJ, hE⟩ := F.persist (fun hfailed => by cases hfailed) h hrely hs
    refine ⟨hguar, ?_⟩
    cases r with
    | ok u => exact hJ
    | error e => exact ⟨hE e rfl, hJ⟩
  refine Proc.wp_seq _ (F.wp_acquire _ (fun hfailed => by cases hfailed) h) ?_
  rintro ⟨leases, state⟩ s o ⟨hstatus, h⟩
  refine Proc.wp_seq (fun r _ o => J o ∧ ∀ e, r.1 = .error e → E e)
    (Proc.wp_withStore (Proc.wp_mono (F.wp_superviseLeased hpoll ⟨hspec, hstatus, h⟩) ?_ ?_)) ?_
  · exact fun _ _ _ h => ⟨h, fun _ he => by cases he⟩
  · exact fun e _ _ h => ⟨h.2, fun _ he => Except.error.inj he ▸ h.1⟩
  · rintro ⟨r, _⟩ s o ⟨h, hE⟩
    exact Proc.wp_ofExcept (fun _ _ => h) fun e he => ⟨hE e he, h⟩

/-- The rule of failures. -/
theorem wp_superviseAndMark (F : FailureFrame L G J E) {path : PathBuf}
    (hpoll : Polls L G J E path) {s : Unit}
    (hload : Proc.wp L loadSupervised (fun r _ o => G r.1 ∧ J o) (Failed E J) s o) :
    Proc.wp L (superviseAndMark path) (fun _ _ _ => True) (fun _ _ _ => True) s o := by
  refine Proc.wp_seq (fun r _ o => J o ∧ ∀ e, r = .error e → E e)
    (Proc.wp_outcome (Proc.wp_mono (F.wp_superviseLocked hpoll hload) ?_ ?_)) ?_
  · exact fun _ _ _ h => ⟨h, fun _ he => by cases he⟩
  · exact fun e _ _ h => ⟨h.2, fun _ he => Except.error.inj he ▸ h.1⟩
  rintro r s o ⟨h, hE⟩
  cases r with
  | ok u => exact Proc.wp_pure trivial
  | error e =>
    refine Proc.wp_seq (fun _ _ _ => True) ?_ fun _ _ _ _ => Proc.wp_throw trivial
    refine Proc.wp_bind (Proc.wp_call fun o' hrely r o'' hs => ?_)
    have ⟨hguar, h⟩ := F.keeps .readState rfl h hrely hs
    refine ⟨hguar, ?_⟩
    cases r with
    | error e => exact Proc.wp_pure trivial
    | ok state =>
      simp only
      split
      · exact Proc.wp_pure trivial
      refine Proc.wp_bind (Proc.wp_call fun o' hrely updatedAtMs o'' hs => ?_)
      have ⟨hguar, h⟩ := F.keeps .now rfl h hrely hs
      refine ⟨hguar, Proc.wp_bind (Proc.wp_call fun o' hrely finishedAtMs o'' hs => ?_)⟩
      have ⟨hguar, h⟩ := F.keeps .now rfl h hrely hs
      refine ⟨hguar, Proc.wp_bind (Proc.wp_call fun o' hrely r o'' hs => ?_)⟩
      have hblames : (failedState e updatedAtMs finishedAtMs state).Blames E := by
        intro _ failure hfailure
        cases hfailure
        exact ⟨e, hE e rfl, rfl⟩
      exact ⟨(F.persist hblames h hrely hs).1, Proc.wp_pure trivial⟩

end Supervise

end FailureFrame

end Procherd
