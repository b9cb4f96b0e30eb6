-- SUMMARY: The lifecycle of a run: the contents that `state.json` takes over a whole run.
import Procherd.OutputFrame
import Procherd.Reference

/-!
# Lifecycle

Six places write `state.json`: the creation, the setup, the loop, the failed
spawn, the failed launch, and the marking of a failed supervisor. Together they
only ever move a run along its lifecycle, and every content they write is
consistent in itself.
-/

namespace Procherd

open Interaction

/-! ## The lifecycle -/

/-- The statuses that the next content of `state.json` may have. -/
def RunStatus.mayFollow : RunStatus → RunStatus → Bool
  | .created, .starting => true
  | .starting, .starting => true
  | .starting, .running => true
  | .running, .running => true
  | .running, .stopping => true
  | .running, .exited => true
  | .stopping, .stopping => true
  | .stopping, .stopped => true
  | old, .failed => old.isLive
  | _, _ => false

/-- The reasons with which a run may end in a status. -/
def RunStatus.admits : RunStatus → ExitReason → Bool
  | .exited, .processExited => true
  | .stopped, .stopRequested => true
  | .stopped, .runtimeLimit => true
  | .failed, .spawnFailed => true
  | .failed, .supervisorFailed => true
  | _, _ => false

/-- The process of a run has been started in this status. -/
def RunStatus.started : RunStatus → Bool
  | .running | .stopping | .exited | .stopped => true
  | _ => false

/-- A stop was triggered before this status. -/
def RunStatus.stopTriggered : RunStatus → Bool
  | .stopping | .stopped => true
  | _ => false

/-- What holds of every content of `state.json` by itself. -/
structure Consistent (state : RunState) : Prop where
  exit : state.exit.isSome = state.status.isTerminal
  reason : ∀ info, state.exit = some info → state.status.admits info.reason
  failure : state.failure.isSome = decide (state.status = .failed)
  process : state.status.started → state.process.processPid.isSome
  trigger : state.status.stopTriggered → state.cleanup.requestedAtMs.isSome
  ports : state.status.isTerminal → ∀ lease ∈ state.leases.ports,
    lease.acquiredAtMs.isSome → lease.releasedAtMs.isSome
  tempDirectories : state.status.isTerminal → ∀ lease ∈ state.leases.tempDirectories,
    lease.acquiredAtMs.isSome → lease.releasedAtMs.isSome

/-- The contents of `state.json` over a run, the newest first. -/
inductive Lifecycle : List RunState → Prop where
  | nil : Lifecycle []
  | created {state : RunState} (h : state.status = .created) (hc : Consistent state) :
      Lifecycle [state]
  | next {old new : RunState} {rest : List RunState} (h : Lifecycle (old :: rest))
      (hnext : old.status.mayFollow new.status) (hc : Consistent new) :
      Lifecycle (new :: old :: rest)

namespace Lifecycle

theorem consistent {history : List RunState} (h : Lifecycle history) :
    ∀ state ∈ history, Consistent state := by
  induction h with
  | nil => exact fun _ h => absurd h List.not_mem_nil
  | created h hc => exact fun state hs => List.mem_singleton.mp hs ▸ hc
  | next h hnext hc ih => exact List.forall_mem_cons.mpr ⟨hc, ih⟩

theorem mayFollow_live {old new : RunStatus} (h : old.mayFollow new) : old.isTerminal = false := by
  cases old <;> cases new <;> first | rfl | exact absurd h (by decide)

/-- Nothing follows a terminal content. -/
theorem tail_live {state : RunState} {rest : List RunState} (h : Lifecycle (state :: rest)) :
    ∀ old ∈ rest, old.status.isTerminal = false := by
  generalize hl : state :: rest = history at h
  induction h generalizing state rest with
  | nil => exact absurd hl (List.cons_ne_nil _ _)
  | created h hc =>
    obtain ⟨-, rfl⟩ := List.cons.inj hl
    exact fun _ h => absurd h List.not_mem_nil
  | next h hnext hc ih =>
    obtain ⟨-, rfl⟩ := List.cons.inj hl
    exact List.forall_mem_cons.mpr ⟨mayFollow_live hnext, ih rfl⟩

end Lifecycle

variable [Toolchain]

/-! ## The states that are written -/

omit [Toolchain] in
theorem Consistent.of_live {state : RunState} (hlive : state.status.isTerminal = false)
    (hexit : state.exit = none) (hfailure : state.failure = none)
    (hprocess : state.status.started → state.process.processPid.isSome)
    (htrigger : state.status.stopTriggered → state.cleanup.requestedAtMs.isSome) :
    Consistent state where
  exit := by rw [hexit, hlive]; rfl
  reason info h := by rw [hexit] at h; cases h
  failure := by
    have hne : state.status ≠ .failed := by
      intro h
      rw [h] at hlive
      cases hlive
    rw [hfailure, decide_eq_false hne]
    rfl
  process := hprocess
  trigger := htrigger
  ports h := by rw [hlive] at h; cases h
  tempDirectories h := by rw [hlive] at h; cases h

theorem consistent_initialState (options : StartOptions) (requests : LeaseRequests)
    (createdAtMs : Nat) : Consistent (options.initialState requests createdAtMs) :=
  .of_live rfl rfl rfl nofun nofun

theorem consistent_launchFailedState (options : StartOptions) (requests : LeaseRequests)
    (createdAtMs : Nat) (error : AppError) (updatedAtMs finishedAtMs : Nat) :
    Consistent (launchFailedState error updatedAtMs finishedAtMs
      (options.initialState requests createdAtMs)) where
  exit := rfl
  reason info h := by cases h; rfl
  failure := rfl
  process := nofun
  trigger := nofun
  ports _ lease h hacquired := by
    simp only [launchFailedState, StartOptions.initialState, LeaseState.requested, List.mem_map] at h
    obtain ⟨name, -, rfl⟩ := h
    cases hacquired
  tempDirectories _ lease h hacquired := by
    simp only [launchFailedState, StartOptions.initialState, LeaseState.requested, List.mem_map] at h
    obtain ⟨name, -, rfl⟩ := h
    cases hacquired

omit [Toolchain] in
theorem consistent_failedState (error : AppError) (updatedAtMs finishedAtMs : Nat)
    (state : RunState) : Consistent (failedState error updatedAtMs finishedAtMs state) where
  exit := rfl
  reason info h := by cases h; rfl
  failure := rfl
  process := nofun
  trigger := nofun
  ports _ lease h hacquired := by
    simp only [failedState, List.mem_map] at h
    obtain ⟨old, -, rfl⟩ := h
    unfold PortLease.expire at hacquired ⊢
    split
    · rfl
    · rename_i hnot
      rw [if_neg hnot] at hacquired
      exact Option.isSome_iff_ne_none.mpr fun hnone => hnot ⟨hacquired, by rw [hnone]; rfl⟩
  tempDirectories _ lease h hacquired := by
    simp only [failedState, List.mem_map] at h
    obtain ⟨old, -, rfl⟩ := h
    unfold TempDirectoryLease.expire at hacquired ⊢
    split
    · rfl
    · rename_i hnot
      rw [if_neg hnot] at hacquired
      exact Option.isSome_iff_ne_none.mpr fun hnone => hnot ⟨hacquired, by rw [hnone]; rfl⟩

omit [Toolchain] in
theorem released_ports (releasedAtMs : Nat) (state : RunState) :
    ∀ lease ∈ (releaseAt releasedAtMs state).leases.ports, lease.releasedAtMs.isSome := by
  intro lease h
  simp only [releaseAt, List.mem_map] at h
  obtain ⟨old, -, rfl⟩ := h
  rfl

omit [Toolchain] in
theorem released_tempDirectories (releasedAtMs : Nat) (state : RunState) :
    ∀ lease ∈ (releaseAt releasedAtMs state).leases.tempDirectories,
      lease.releasedAtMs.isSome := by
  intro lease h
  simp only [releaseAt, List.mem_map] at h
  obtain ⟨old, -, rfl⟩ := h
  rfl

/-! ## The supervisor -/

namespace LifecycleView

/-- The supervisor over the content of `state.json`: only a write of it, failed
    or not, changes the content. -/
def step : {β : Type} → BodyCmd β → Option RunState → β → Option RunState → Prop
  | _, .persistState state, o, r, o' =>
    (r = .ok () ∧ o' = some state) ∨ ∃ e, r = .error e ∧ (o' = o ∨ o' = some state)
  | _, .readState, o, r, o' => o' = o ∧ ∀ state, r = .ok state → o = some state
  | _, _, o, _, o' => o' = o

def guar : {β : Type} → BodyCmd β → Option RunState → β → Option RunState → Prop
  | _, .persistState state, o, _, _ =>
    ∃ old, o = some old ∧ old.status.mayFollow state.status ∧ Consistent state
  | _, _, _, _, _ => True

abbrev interface : Interface BodyCmd (Option RunState) := .isolated step guar

omit [Toolchain] in
theorem step_quiet {β : Type} {c : BodyCmd β} (hc : c.writesState = false) {o o' : Option RunState}
    {b : β} (h : step c o b o') : guar c o b o' ∧ o' = o := by
  cases c with
  | persistState state => cases hc
  | readState => exact ⟨trivial, h.1⟩
  | _ => exact ⟨trivial, h⟩

variable {σ α : Type} {s : σ} {o : Option RunState} {l : Locals}

omit [Toolchain] in
theorem wp_call {c : BodyCmd α} (hc : c.writesState = false) {Q : α → σ → Option RunState → Prop}
    {E : AppError → σ → Option RunState → Prop} (h : ∀ a, Q a s o) :
    Proc.wp interface (Proc.call c) Q E s o := by
  apply Proc.wp_call
  rintro o' rfl b o'' hs
  have ⟨hguar, ho⟩ := step_quiet hc hs
  exact ⟨hguar, ho ▸ h b⟩

omit [Toolchain] in
theorem wp_attempt {c : BodyCmd (Except AppError α)} (hc : c.writesState = false)
    {Q : α → σ → Option RunState → Prop} {E : AppError → σ → Option RunState → Prop}
    (h : ∀ a, Q a s o) (hE : ∀ e, E e s o) : Proc.wp interface (Proc.attempt c) Q E s o := by
  apply Proc.wp_attempt
  rintro o' rfl r o'' hs
  have ⟨hguar, ho⟩ := step_quiet hc hs
  subst ho
  cases r with
  | ok a => exact ⟨hguar, h a⟩
  | error e => exact ⟨hguar, hE e⟩

/-- After a failure, `state.json` is still there. -/
def Failed {σ : Type} (_ : AppError) (_ : σ) (o : Option RunState) : Prop := o.isSome

omit [Toolchain] in
theorem wp_persist {old state : RunState} (ho : o = some old)
    (hnext : old.status.mayFollow state.status) (hc : Consistent state) :
    Proc.wp interface (Proc.attempt (.persistState state)) (fun _ s' o' => s' = s ∧ o' = some state)
      Failed s o := by
  apply Proc.wp_attempt
  rintro o' rfl r o'' hs
  refine ⟨⟨old, ho, hnext, hc⟩, ?_⟩
  obtain ⟨rfl, rfl⟩ | ⟨e, rfl, rfl | rfl⟩ := hs
  · exact ⟨rfl, rfl⟩
  · rw [ho]; rfl
  · rfl

/-! ### What holds while the child runs -/

/-- The part of a state that the lifecycle is about. -/
structure LiveState (status : RunStatus) (state : RunState) : Prop where
  status : state.status = status
  exit : state.exit = none
  failure : state.failure = none

/-- The loop between two rounds: `state.json` has the status of the state. -/
structure Running (l : Locals) (o : Option RunState) : Prop where
  document : ∃ old, o = some old ∧ old.status = l.state.status
  live : LiveState (if l.stopping.isSome then .stopping else .running) l.state
  process : l.state.process.processPid.isSome
  trigger : l.stopping.isSome → l.state.cleanup.requestedAtMs.isSome
  reason : ∀ stopping, l.stopping = some stopping → RunStatus.stopped.admits stopping.reason

/-- A stop was triggered that `state.json` does not show yet. -/
structure Triggered (l : Locals) (o : Option RunState) : Prop where
  document : ∃ old, o = some old ∧ old.status = .running
  live : LiveState .stopping l.state
  process : l.state.process.processPid.isSome
  trigger : l.state.cleanup.requestedAtMs.isSome

omit [Toolchain] in
theorem Running.failed {l : Locals} {o : Option RunState} (h : Running l o) : o.isSome := by
  obtain ⟨old, rfl, -⟩ := h.document
  rfl

omit [Toolchain] in
theorem Triggered.failed {l : Locals} {o : Option RunState} (h : Triggered l o) : o.isSome := by
  obtain ⟨old, rfl, -⟩ := h.document
  rfl

omit [Toolchain] in
theorem Running.consistent (h : Running l o) : Consistent l.state := by
  refine .of_live ?_ h.live.exit h.live.failure (fun _ => h.process) fun htrigger => ?_
  · rw [h.live.status]
    split <;> rfl
  · apply h.trigger
    rw [h.live.status] at htrigger
    split at htrigger
    · assumption
    · cases htrigger

omit [Toolchain] in
theorem Running.mayFollow_self (h : Running l o) : l.state.status.mayFollow l.state.status := by
  rw [h.live.status]
  split <;> rfl

omit [Toolchain] in
theorem outputFrame : OutputFrame interface Running Failed where
  command c hc l o o' b o'' h hrely hs := by
    subst hrely
    have hquiet : c.writesState = false := by cases c <;> first | rfl | cases hc
    have ⟨hguar, ho⟩ := step_quiet hquiet hs
    exact ⟨hguar, ho ▸ h⟩
  logs _ h := ⟨h.document, ⟨h.live.status, h.live.exit, h.live.failure⟩, h.process, h.trigger, h.reason⟩
  readiness _ _ h :=
    ⟨h.document, ⟨h.live.status, h.live.exit, h.live.failure⟩, h.process, h.trigger, h.reason⟩
  appendFailed {l o o' o'' bytes e kept} logs h hrely hs := by
    subst hrely
    obtain rfl : o'' = o := hs
    exact h.failed
  drainTimeout h := h.failed

/-! ### The loop -/

omit [Toolchain] in
theorem wp_persistState (h : Running l o) :
    Proc.wp interface persistState (fun _ => Running) Failed l o := by
  obtain ⟨old, ho, hstatus⟩ := h.document
  simp only [persistState, Proc.wp_get_bind]
  refine Proc.wp_mono (wp_persist ho (hstatus ▸ h.mayFollow_self) h.consistent) ?_ fun _ _ _ => id
  rintro _ l' o' ⟨rfl, rfl⟩
  exact ⟨⟨_, rfl, rfl⟩, h.live, h.process, h.trigger, h.reason⟩

omit [Toolchain] in
theorem wp_touch (h : Running l o) : Proc.wp interface touch (fun _ => Running) Failed l o := by
  refine Proc.wp_bind (wp_call rfl fun now => ?_)
  simp only [Proc.wp_modify_iff]
  exact ⟨h.document, ⟨h.live.status, h.live.exit, h.live.failure⟩, h.process, h.trigger, h.reason⟩

omit [Toolchain] in
theorem wp_markStateWrite (h : Running l o) :
    Proc.wp interface markStateWrite (fun _ => Running) Failed l o := by
  refine Proc.wp_bind (wp_call rfl fun now => ?_)
  simp only [Proc.wp_modify_iff]
  exact ⟨h.document, h.live, h.process, h.trigger, h.reason⟩

omit [Toolchain] in
theorem wp_startKillTolerant {I : Locals → Option RunState → Prop} (hI : ∀ {l o}, I l o → o.isSome)
    (h : I l o) : Proc.wp interface startKillTolerant (fun _ => I) Failed l o := by
  refine Proc.wp_bind (wp_call rfl fun r => ?_)
  cases r with
  | ok u => exact Proc.wp_pure h
  | error e =>
    simp only
    split
    · exact Proc.wp_pure h
    · exact Proc.wp_throw (hI h)

theorem wp_requestStop (graceMs : Nat) (reason : ExitReason) (h : Triggered l o) :
    Proc.wp interface (requestStop graceMs reason)
      (fun stopping l o => Triggered l o ∧ stopping.reason = reason) Failed l o := by
  have hstate : Triggered { l with
      state := { l.state with cleanup := { l.state.cleanup with
        descendantCleanupTriggered := true } } } o :=
    ⟨h.document, ⟨h.live.status, h.live.exit, h.live.failure⟩, h.process, h.trigger⟩
  simp only [requestStop, Proc.wp_modify_bind]
  split
  · refine Proc.wp_bind (wp_call rfl fun r => ?_)
    have hrest : ∀ {l o}, Triggered l o → Proc.wp interface
        (do
          let now ← Proc.call .instant
          return { deadline := now + graceMs, forceSent := false, reason : Stopping })
        (fun stopping l o => Triggered l o ∧ stopping.reason = reason) Failed l o :=
      fun h => Proc.wp_bind (wp_call rfl fun now => Proc.wp_pure ⟨h, rfl⟩)
    cases r with
    | ok u => exact hrest hstate
    | error e =>
      simp only
      split
      · exact hrest hstate
      · exact Proc.wp_throw hstate.failed
  · refine Proc.wp_seq _ (wp_startKillTolerant (I := Triggered) Triggered.failed hstate) fun _ l o h => ?_
    simp only [Proc.wp_modify_bind]
    refine Proc.wp_bind (wp_call rfl fun now => Proc.wp_pure ⟨?_, rfl⟩)
    exact ⟨h.document, ⟨h.live.status, h.live.exit, h.live.failure⟩, h.process, h.trigger⟩

omit [Toolchain] in
/-- The write that shows a trigger. -/
theorem wp_persist_stopping {stopping : Stopping} (h : Triggered l o)
    (hreason : RunStatus.stopped.admits stopping.reason) :
    Proc.wp interface persistState (fun _ => Running) Failed
      { l with stopping := some stopping } o := by
  obtain ⟨old, ho, hstatus⟩ := h.document
  have hc : Consistent l.state :=
    .of_live (by rw [h.live.status]; rfl) h.live.exit h.live.failure (fun _ => h.process)
      fun _ => h.trigger
  simp only [persistState, Proc.wp_get_bind]
  refine Proc.wp_mono (wp_persist ho (by rw [hstatus, h.live.status]; rfl) hc) ?_ fun _ _ _ => id
  rintro _ l' o' ⟨rfl, rfl⟩
  exact ⟨⟨_, rfl, rfl⟩, h.live, h.process, fun _ => h.trigger, fun _ hs => by cases hs; exact hreason⟩

theorem wp_acceptStop (request : StopRequest) (h : Running l o) (hnone : l.stopping = none) :
    Proc.wp interface (acceptStop request) (fun _ => Running) Failed l o := by
  simp only [acceptStop, Proc.wp_modify_bind]
  refine Proc.wp_bind (Proc.wp_bind (wp_call rfl fun now => ?_))
  simp only [Proc.wp_modify_iff, Proc.wp_modify_bind]
  refine Proc.wp_seq _ (wp_requestStop _ _ ⟨?_, ⟨rfl, h.live.exit, h.live.failure⟩, h.process, rfl⟩)
    fun stopping l o h => ?_
  · obtain ⟨old, ho, hstatus⟩ := h.document
    refine ⟨old, ho, hstatus.trans (h.live.status.trans ?_)⟩
    rw [hnone]
    rfl
  · simp only [Proc.wp_modify_bind]
    exact wp_persist_stopping h.1 (by rw [h.2]; rfl)

theorem wp_expireRuntime (h : Running l o) (hnone : l.stopping = none) :
    Proc.wp interface expireRuntime (fun _ => Running) Failed l o := by
  refine Proc.wp_bind (wp_call rfl fun triggeredAtMs => ?_)
  simp only [Proc.wp_get_bind, Proc.wp_modify_bind]
  refine Proc.wp_seq _ (wp_requestStop _ _ ⟨?_, ⟨rfl, h.live.exit, h.live.failure⟩, h.process, rfl⟩)
    fun stopping l o h => ?_
  · obtain ⟨old, ho, hstatus⟩ := h.document
    refine ⟨old, ho, hstatus.trans (h.live.status.trans ?_)⟩
    rw [hnone]
    rfl
  · simp only [Proc.wp_modify_bind]
    exact wp_persist_stopping h.1 (by rw [h.2]; rfl)

theorem wp_readStopJson (path : PathBuf) :
    Proc.wp interface (readStopJson path : Body σ StopRequest) (fun _ s' o' => s' = s ∧ o' = o)
      (fun _ s' o' => s' = s ∧ o' = o) s o := by
  refine Proc.wp_bind (wp_attempt rfl (fun _ => ?_) fun _ => ⟨rfl, rfl⟩)
  refine Proc.wp_bind (wp_attempt rfl (fun file => ?_) fun _ => ⟨rfl, rfl⟩)
  refine Proc.wp_bind (wp_attempt rfl (fun bytes => ?_) fun _ => ⟨rfl, rfl⟩)
  exact Proc.wp_ofExcept (fun _ _ => ⟨rfl, rfl⟩) fun _ _ => ⟨rfl, rfl⟩

theorem wp_readStopRequest (path : PathBuf) (spec : SupervisorSpec) (ho : o.isSome) :
    Proc.wp interface (readStopRequest path spec) (fun _ s' o' => s' = s ∧ o' = o) Failed s o := by
  refine Proc.wp_seq (fun _ s' o' => s' = s ∧ o' = o) (Proc.wp_outcome (wp_readStopJson path)) ?_
  rintro r s' o' ⟨rfl, rfl⟩
  cases r with
  | ok request =>
    refine Proc.wp_bind (Proc.wp_ofExcept (fun _ _ => ?_) fun _ _ => ho)
    exact Proc.wp_bind (wp_attempt rfl (fun _ => Proc.wp_pure ⟨rfl, rfl⟩) fun _ => ho)
  | error e =>
    simp only
    split
    · refine Proc.wp_bind (wp_call rfl fun found => ?_)
      split
      · exact Proc.wp_throw ho
      · exact Proc.wp_pure ⟨rfl, rfl⟩
    · exact Proc.wp_throw ho

omit [Toolchain] in
theorem wp_deadlineExpired :
    Proc.wp interface deadlineExpired (fun _ l' o' => l' = l ∧ o' = o) Failed l o := by
  simp only [deadlineExpired, Proc.wp_get_bind]
  split
  · exact Proc.wp_pure ⟨rfl, rfl⟩
  · exact Proc.wp_bind (wp_call rfl fun now => Proc.wp_pure ⟨rfl, rfl⟩)

theorem wp_watchTriggers (path : PathBuf) (h : Running l o) (hnone : l.stopping = none) :
    Proc.wp interface (watchTriggers path) (fun _ => Running) Failed l o := by
  simp only [watchTriggers, Proc.wp_get_bind]
  refine Proc.wp_seq _ (wp_readStopRequest path l.spec h.failed) ?_
  rintro request l' o' ⟨rfl, rfl⟩
  cases request with
  | some request => exact wp_acceptStop request h hnone
  | none =>
    refine Proc.wp_seq _ wp_deadlineExpired ?_
    rintro expired l o ⟨rfl, rfl⟩
    cases expired with
    | true => exact wp_expireRuntime h hnone
    | false => exact Proc.wp_pure h

omit [Toolchain] in
theorem wp_enforceStop {stopping : Stopping} (h : Running l o) (hs : l.stopping = some stopping) :
    Proc.wp interface (enforceStop stopping) (fun _ => Running) Failed l o := by
  have hlive : LiveState .stopping l.state := by
    have := h.live
    rw [hs] at this
    exact this
  have hrest : ∀ {l : Locals} {o}, Running l o → l.stopping = some stopping → Proc.wp interface
      (do
        Proc.modify fun l => { l with
          stopping := some { stopping with forceSent := true }
          state := { l.state with cleanup := { l.state.cleanup with forceUsed := true } } }
        touch
        persistState) (fun _ => Running) Failed l o := by
    intro l o h hs
    simp only [Proc.wp_modify_bind]
    have hlive := h.live
    rw [hs] at hlive
    refine Proc.wp_seq (fun _ => Running) (wp_touch ⟨h.document, ⟨hlive.status, hlive.exit,
      hlive.failure⟩, h.process, fun _ => h.trigger (by rw [hs]; rfl), ?_⟩)
      fun _ l o h => wp_persistState h
    exact fun _ h' => by cases h'; exact h.reason stopping hs
  refine Proc.wp_seq (fun _ l' o' => Running l' o' ∧ l'.stopping = some stopping) ?_ ?_
  · unfold forceDue
    split
    · exact Proc.wp_pure ⟨h, hs⟩
    · exact Proc.wp_bind (wp_call rfl fun now => Proc.wp_pure ⟨h, hs⟩)
  · rintro due l o ⟨h, hs⟩
    cases due with
    | false => exact Proc.wp_pure h
    | true =>
      refine Proc.wp_seq _ (wp_startKillTolerant
        (I := fun l o => Running l o ∧ l.stopping = some stopping) (fun h => h.1.failed) ⟨h, hs⟩) ?_
      rintro killed l o ⟨h, hs⟩
      cases killed with
      | false => exact hrest h hs
      | true =>
        refine Proc.wp_seq (fun _ l' o' => Running l' o' ∧ l'.stopping = some stopping) ?_
          fun _ l o h => hrest h.1 h.2
        simp only [Proc.wp_modify_iff]
        exact ⟨⟨h.document, ⟨h.live.status, h.live.exit, h.live.failure⟩, h.process, h.trigger,
          h.reason⟩, hs⟩

omit [Toolchain] in
theorem wp_tryWaitRetry (h : Running l o) :
    Proc.wp interface tryWaitRetry (fun _ => Running) Failed l o := by
  refine Proc.wp_repeatUntil Running (fun l o h => ?_) h
  refine Proc.wp_bind (wp_call rfl fun r => ?_)
  cases r with
  | ok status => exact Proc.wp_pure h
  | error e =>
    simp only
    split
    · exact Proc.wp_pure h
    · exact Proc.wp_throw h.failed

/-! ### The end of the child -/

/-- Every lease of the state is released. -/
structure Released (state : RunState) : Prop where
  ports : ∀ lease ∈ state.leases.ports, lease.releasedAtMs.isSome
  tempDirectories : ∀ lease ∈ state.leases.tempDirectories, lease.releasedAtMs.isSome

omit [Toolchain] in
theorem wp_releaseRegistry {I : σ → Option RunState → Prop} (leases : LeaseAllocation)
    (hI : ∀ {s o}, I s o → o.isSome) (h : I s o) :
    Proc.wp interface (releaseRegistry leases) (fun _ => I) Failed s o := by
  unfold releaseRegistry
  split
  · exact Proc.wp_pure h
  · exact Proc.wp_bind (wp_attempt rfl (fun _ => Proc.wp_pure h) fun _ => hI h)

omit [Toolchain] in
theorem wp_releaseLeases {I : Locals → Option RunState → Prop} (hI : ∀ {l o}, I l o → o.isSome)
    (hleases : ∀ {l o} leases, I l o → I { l with leases } o)
    (hstate : ∀ {l o} now, I l o → I { l with state := releaseAt now l.state } o) (h : I l o) :
    Proc.wp interface releaseLeases (fun _ l o => I l o ∧ Released l.state) Failed l o := by
  simp only [releaseLeases, Proc.wp_get_bind]
  refine Proc.wp_seq _ (wp_releaseRegistry (I := I) l.leases hI h) fun leases l o h => ?_
  simp only [Proc.wp_modify_bind]
  refine Proc.wp_bind (wp_call rfl fun now => ?_)
  simp only [Proc.wp_modify_iff]
  exact ⟨hstate now (hleases leases h), released_ports _ _, released_tempDirectories _ _⟩

omit [Toolchain] in
theorem Running.release (now : Nat) (h : Running l o) :
    Running { l with state := releaseAt now l.state } o :=
  ⟨h.document, ⟨h.live.status, h.live.exit, h.live.failure⟩, h.process, h.trigger, h.reason⟩

omit [Toolchain] in
theorem wp_killRemaining (h : Running l o) :
    Proc.wp interface killRemaining (fun _ => Running) Failed l o := by
  refine Proc.wp_seq _ (wp_startKillTolerant (I := Running) Running.failed h) fun killed l o h => ?_
  cases killed with
  | false => exact Proc.wp_pure h
  | true =>
    simp only [if_true, Proc.wp_modify_iff]
    exact ⟨h.document, ⟨h.live.status, h.live.exit, h.live.failure⟩, h.process, h.trigger, h.reason⟩

theorem wp_finishLogs (h : Running l o) :
    Proc.wp interface finishLogs (fun _ => Running) Failed l o := by
  simp only [finishLogs, Proc.wp_modify_bind]
  have h' := outputFrame.logs { l.logs with finished := true } h
  refine Proc.wp_bind (wp_attempt rfl (fun _ => ?_) fun _ => h'.failed)
  simp only [Proc.wp_modify_iff]
  exact ⟨h.document, ⟨h.live.status, h.live.exit, h.live.failure⟩, h.process, h.trigger, h.reason⟩

theorem consistent_finalState {exitStatus : ExitStatus} {finishedAtMs : Nat} (h : Running l o)
    (hleases : Released l.state) :
    Consistent (finalState l.state l.stopping exitStatus finishedAtMs) where
  exit := by cases hs : l.stopping <;> rfl
  reason info hinfo := by
    cases hinfo
    cases hs : l.stopping with
    | none => rfl
    | some stopping => exact h.reason stopping hs
  failure := by
    simp only [finalState, h.live.failure]
    cases l.stopping <;> rfl
  process _ := h.process
  trigger htrigger := by
    apply h.trigger
    cases hs : l.stopping with
    | none =>
      simp only [finalState, hs] at htrigger
      cases htrigger
    | some stopping => rfl
  ports _ lease hlease _ := hleases.ports lease hlease
  tempDirectories _ lease hlease _ := hleases.tempDirectories lease hlease

theorem wp_handleExit (exitStatus : ExitStatus) (h : Running l o) :
    Proc.wp interface (handleExit exitStatus) (fun _ _ o => o.isSome) Failed l o := by
  refine Proc.wp_seq _ (wp_killRemaining h) fun _ l o h => ?_
  simp only [Proc.wp_modify_bind]
  have harmed : Running { l with armed := false } o :=
    ⟨h.document, h.live, h.process, h.trigger, h.reason⟩
  refine Proc.wp_seq _ (outputFrame.wp_drainUntilClosed _ harmed) fun _ l o h => ?_
  simp only [Proc.wp_modify_bind]
  refine Proc.wp_seq _ (wp_finishLogs (outputFrame.readiness l.readiness _ h)) fun _ l o h => ?_
  refine Proc.wp_seq _ (wp_releaseLeases (I := Running) Running.failed
    (fun leases h => ⟨h.document, h.live, h.process, h.trigger, h.reason⟩) Running.release h)
    fun _ l o h => ?_
  obtain ⟨h, hleases⟩ := h
  refine Proc.wp_seq (fun _ l o => Running l o ∧ Released l.state) ?_ fun _ l o h => ?_
  · refine Proc.wp_bind (wp_call rfl fun now => ?_)
    simp only [Proc.wp_modify_iff]
    exact ⟨⟨h.document, ⟨h.live.status, h.live.exit, h.live.failure⟩, h.process, h.trigger,
      h.reason⟩, hleases.ports, hleases.tempDirectories⟩
  obtain ⟨h, hleases⟩ := h
  refine Proc.wp_bind (wp_call rfl fun finishedAtMs => ?_)
  obtain ⟨old, ho, hstatus⟩ := h.document
  simp only [Proc.wp_modify_bind, persistState, Proc.wp_get_bind]
  refine Proc.wp_mono (wp_persist ho ?_ (consistent_finalState h hleases)) ?_ fun _ _ _ => id
  · rw [hstatus, h.live.status]
    simp only [finalState]
    cases l.stopping <;> rfl
  · rintro _ l' o' ⟨-, rfl⟩
    rfl

/-! ### The rounds -/

omit [Toolchain] in
theorem wp_snapshotIfDue (h : Running l o) :
    Proc.wp interface snapshotIfDue (fun _ => Running) Failed l o := by
  refine Proc.wp_bind (wp_call rfl fun now => ?_)
  simp only [Proc.wp_get_bind]
  split
  · simp only [Proc.wp_modify_bind]
    refine Proc.wp_seq (fun _ => Running) (wp_touch ⟨h.document, ⟨h.live.status, h.live.exit,
      h.live.failure⟩, h.process, h.trigger, h.reason⟩) fun _ l o h => ?_
    exact Proc.wp_seq _ (wp_persistState h) fun _ l o h => wp_markStateWrite h
  · exact Proc.wp_pure h

omit [Toolchain] in
theorem wp_pollReadiness (h : Running l o) :
    Proc.wp interface pollReadiness (fun _ => Running) Failed l o := by
  refine Proc.wp_bind (wp_call rfl fun inputs => ?_)
  simp only [Proc.wp_get_bind, Proc.wp_modify_bind, Proc.wp_pure_iff]
  exact outputFrame.readiness _ _ h

omit [Toolchain] in
theorem wp_persistReadiness (changed : Bool) (h : Running l o) :
    Proc.wp interface (persistReadiness changed) (fun _ => Running) Failed l o := by
  unfold persistReadiness
  split
  · refine Proc.wp_seq _ (wp_touch h) fun _ l o h => ?_
    exact Proc.wp_seq _ (wp_persistState h) fun _ l o h => wp_markStateWrite h
  · exact Proc.wp_pure h

theorem wp_superviseStop (path : PathBuf) (h : Running l o) :
    Proc.wp interface (superviseStop path) (fun _ => Running) Failed l o := by
  simp only [superviseStop, Proc.wp_get_bind]
  split
  · rename_i hnone
    exact wp_watchTriggers path h hnone
  · rename_i stopping hsome
    exact wp_enforceStop h hsome

theorem wp_superviseRound (path : PathBuf) (h : Running l o) :
    Proc.wp interface (superviseRound path)
      (fun r l o => r.elim (Running l o) fun _ => o.isSome) Failed l o := by
  refine Proc.wp_seq _ (outputFrame.wp_drainAvailable h) fun drain l o h => ?_
  refine Proc.wp_seq _ (wp_pollReadiness h) fun polled l o h => ?_
  refine Proc.wp_seq _ (wp_persistReadiness _ h) fun _ l o h => ?_
  refine Proc.wp_seq _ (wp_superviseStop path h) fun _ l o h => ?_
  refine Proc.wp_seq _ (wp_tryWaitRetry h) fun exited l o h => ?_
  cases exited with
  | some exitStatus =>
    exact Proc.wp_seq _ (wp_handleExit exitStatus h) fun _ l o ho => Proc.wp_pure ho
  | none =>
    refine Proc.wp_seq _ (wp_snapshotIfDue h) fun _ l o h => ?_
    exact Proc.wp_bind (wp_call rfl fun _ => Proc.wp_pure h)

/-! ### The setup -/

theorem wp_superviseOutput (path : PathBuf) (h : Running l o) :
    Proc.wp interface (superviseOutput path) (fun _ _ o => o.isSome) Failed l o := by
  refine Proc.wp_ensuring (Proc.wp_mono (Q := fun _ _ o => o.isSome) (E := Failed) ?_
    (fun _ _ _ ho => wp_call rfl fun _ => ho) fun _ _ _ ho => wp_call rfl fun _ => ho)
  refine Proc.wp_bind (wp_call rfl fun _ => ?_)
  refine Proc.wp_bind (wp_call rfl fun _ => ?_)
  refine Proc.wp_bind (wp_call rfl fun _ => ?_)
  refine Proc.wp_bind (wp_call rfl fun _ => ?_)
  refine Proc.wp_bind (wp_attempt rfl (fun _ => ?_) fun _ => h.failed)
  refine Proc.wp_bind (wp_call rfl fun now => ?_)
  simp only [Proc.wp_modify_bind]
  have hdrop {l : Locals} {o : Option RunState} {Q : Unit → Locals → Option RunState → Prop}
      (hQ : Q () l o) : Proc.wp interface dropLogs Q Failed l o := by
    simp only [dropLogs, Proc.wp_get_bind]
    split
    · exact Proc.wp_pure hQ
    · exact wp_call rfl fun _ => hQ
  refine Proc.wp_ensuring (Proc.wp_mono (Q := fun _ _ o => o.isSome) (E := Failed) ?_
    (fun _ _ _ ho => hdrop ho) fun _ _ _ ho => hdrop ho)
  refine Proc.wp_repeatUntil Running (fun l o h => ?_)
    ⟨h.document, h.live, h.process, h.trigger, h.reason⟩
  refine Proc.wp_mono (wp_superviseRound path h) (fun r l o h => ?_) fun _ _ _ => id
  cases r <;> exact h

/-- The setup up to the spawn: `state.json` is at `starting`. -/
structure Starting (l : Locals) (o : Option RunState) : Prop where
  document : ∃ old, o = some old ∧ old.status = .starting
  live : LiveState .starting l.state
  stopping : l.stopping = none

omit [Toolchain] in
theorem Starting.failed (h : Starting l o) : o.isSome := by
  obtain ⟨old, rfl, -⟩ := h.document
  rfl

omit [Toolchain] in
theorem consistent_starting {state : RunState} (h : LiveState .starting state) : Consistent state :=
  .of_live (by rw [h.status]; rfl) h.exit h.failure (by rw [h.status]; nofun)
    (by rw [h.status]; nofun)

theorem wp_superviseChild (path : PathBuf) (pid : Nat) (h : Starting l o) :
    Proc.wp interface (superviseChild path pid) (fun _ _ o => o.isSome) Failed l o := by
  refine Proc.wp_ensuring (Proc.wp_mono (Q := fun _ _ o => o.isSome) (E := Failed) ?_ ?_ ?_)
  · simp only [Proc.wp_modify_bind]
    refine Proc.wp_bind (wp_call rfl fun spawnedAtMs => ?_)
    simp only [Proc.wp_modify_bind]
    refine Proc.wp_bind (Proc.wp_bind (wp_call rfl fun now => ?_))
    simp only [Proc.wp_modify_iff, Proc.wp_modify_bind]
    obtain ⟨old, ho, hstatus⟩ := h.document
    refine Proc.wp_seq (fun _ => Running) ?_ fun _ l o h => wp_superviseOutput path h
    simp only [persistState, Proc.wp_get_bind]
    refine Proc.wp_mono (wp_persist ho (by rw [hstatus]; rfl) ?_) ?_ fun _ _ _ => id
    · exact .of_live rfl h.live.exit h.live.failure (fun _ => rfl) (fun h => by cases h)
    · rintro _ l' o' ⟨rfl, rfl⟩
      refine ⟨⟨_, rfl, rfl⟩, ?_, rfl, ?_, ?_⟩
      · rw [h.stopping]
        exact ⟨rfl, h.live.exit, h.live.failure⟩
      · rw [h.stopping]; exact fun h => by cases h
      · rw [h.stopping]; exact fun _ h => by cases h
  all_goals
    intro _ l o ho
    simp only [dropChild, Proc.wp_get_bind]
    split
    · exact Proc.wp_bind (wp_call rfl fun _ => Proc.wp_pure ho)
    · exact Proc.wp_pure ho

omit [Toolchain] in
theorem wp_failSpawn (error : IoError) (h : Starting l o) :
    Proc.wp interface (failSpawn error) (fun _ _ o => o.isSome) Failed l o := by
  obtain ⟨old, ho, hstatus⟩ := h.document
  simp only [failSpawn, Proc.wp_modify_bind]
  refine Proc.wp_bind (Proc.wp_bind (wp_call rfl fun now => ?_))
  simp only [Proc.wp_modify_iff]
  refine Proc.wp_bind (wp_call rfl fun finishedAtMs => ?_)
  simp only [Proc.wp_modify_bind]
  -- What the failed state is apart from its leases.
  refine Proc.wp_seq _ (wp_releaseLeases
    (I := fun l o => o = some old ∧ l.state.status = .failed ∧
      (∃ info, l.state.exit = some info ∧ info.reason = .spawnFailed) ∧ l.state.failure.isSome)
    ?_ (fun leases h => h) (fun now h => h) ⟨ho, rfl, ⟨_, rfl, rfl⟩, rfl⟩) fun _ l o h => ?_
  · rintro l o ⟨rfl, -⟩
    rfl
  obtain ⟨⟨ho, hfailed, ⟨info, hinfo, hreason⟩, hfailure⟩, hleases⟩ := h
  simp only [persistState]
  refine Proc.wp_seq _ (wp_persist ho (by rw [hstatus, hfailed]; rfl) ?_) fun _ l o h => ?_
  · exact {
      exit := by rw [hinfo, hfailed]; rfl
      reason := fun info' h => by
        rw [hinfo] at h
        cases h
        rw [hfailed, hreason]
        rfl
      failure := by rw [hfailure, hfailed]; rfl
      process := by rw [hfailed]; exact fun h => by cases h
      trigger := by rw [hfailed]; exact fun h => by cases h
      ports := fun _ lease hlease _ => hleases.ports lease hlease
      tempDirectories := fun _ lease hlease _ => hleases.tempDirectories lease hlease }
  · exact Proc.wp_throw (by rw [h.2]; rfl)

theorem wp_superviseLeased (path : PathBuf) (h : Starting l o) :
    Proc.wp interface (superviseLeased path) (fun _ _ o => o.isSome) Failed l o := by
  refine Proc.wp_ensuring (Proc.wp_mono (Q := fun _ _ o => o.isSome) (E := Failed) ?_ ?_ ?_)
  · refine Proc.wp_seq (fun _ => Starting) ?_ fun _ l o h => ?_
    · obtain ⟨old, ho, hstatus⟩ := h.document
      simp only [persistState, Proc.wp_get_bind]
      refine Proc.wp_mono (wp_persist ho (by rw [hstatus, h.live.status]; rfl)
        (consistent_starting h.live)) ?_ fun _ _ _ => id
      rintro _ l' o' ⟨rfl, rfl⟩
      exact ⟨⟨_, rfl, h.live.status⟩, h.live, h.stopping⟩
    refine Proc.wp_bind (wp_call rfl fun handoffAtMs => ?_)
    simp only [Proc.wp_modify_bind, Proc.wp_get_bind]
    have h' : Starting { l with state := l.leases.handoffAt handoffAtMs l.state } o :=
      ⟨h.document, ⟨h.live.status, h.live.exit, h.live.failure⟩, h.stopping⟩
    refine Proc.wp_bind (wp_call rfl fun r => ?_)
    cases r with
    | ok pid => exact wp_superviseChild path pid h'
    | error e => exact wp_failSpawn e h'
  all_goals
    intro _ l o ho
    simp only [dropLeases, Proc.wp_get_bind]
    refine Proc.wp_seq (fun _ _ o => o.isSome) (Proc.wp_outcome ?_) fun _ l o ho => Proc.wp_pure ho
    exact wp_releaseRegistry (I := fun _ o => o.isSome) l.leases id ho

theorem wp_acquire {state : RunState} (requests : LeaseRequests) (hlive : LiveState .starting state)
    (ho : ∃ old, o = some old ∧ old.status = .starting) :
    Proc.wp interface (LeaseAllocation.acquire state requests)
      (fun r s' o' => s' = s ∧ o' = o ∧ LiveState .starting r.2) Failed s o := by
  have hfailed : o.isSome := by
    obtain ⟨old, rfl, -⟩ := ho
    rfl
  refine Proc.wp_bind (Proc.wp_ofExcept (fun runId _ => ?_) fun _ _ => hfailed)
  refine Proc.wp_bind (Proc.wp_ofExcept (fun _ _ => ?_) fun _ _ => hfailed)
  refine Proc.wp_bind (Proc.wp_ofExcept (fun _ _ => ?_) fun _ _ => hfailed)
  refine Proc.wp_bind (wp_call rfl fun acquiredAtMs => ?_)
  refine Proc.wp_seq (fun _ s' o' => s' = s ∧ o' = o) ?_ ?_
  · unfold createTempDirectories
    split
    · exact Proc.wp_pure ⟨rfl, rfl⟩
    · exact wp_attempt rfl (fun _ => ⟨rfl, rfl⟩) fun _ => hfailed
  rintro tempPaths s' o' ⟨rfl, rfl⟩
  refine Proc.wp_seq (fun _ s'' o'' => s'' = s' ∧ o'' = o') ?_ ?_
  · unfold reservePortNames
    split
    · exact Proc.wp_pure ⟨rfl, rfl⟩
    · exact wp_attempt rfl (fun _ => ⟨rfl, rfl⟩) fun _ => hfailed
  rintro ports s o ⟨rfl, rfl⟩
  split
  · refine Proc.wp_seq (fun _ _ o => o.isSome) ?_ fun _ s o ho => Proc.wp_throw ho
    exact wp_discardLeases (wp_releaseRegistry (I := fun _ o => o.isSome) _ id) hfailed
  · rename_i populated environment hpopulate
    have hframe := LeaseAllocation.populateState_frame hpopulate
    refine Proc.wp_pure ⟨rfl, rfl, ?_⟩
    rw [hframe]
    exact ⟨hlive.status, hlive.exit, hlive.failure⟩

/-- `state.json` as the supervisor finds it. -/
def Fresh (o : Option RunState) : Prop :=
  ∃ state, o = some state ∧ state.status = .created ∧ state.exit = none ∧ state.failure = none

omit [Toolchain] in
theorem wp_loadSupervised (h : Fresh o) :
    Proc.wp interface loadSupervised (fun r _ o' => o' = o ∧ o = some r.2) Failed () o := by
  obtain ⟨state, rfl, -⟩ := h
  refine Proc.wp_bind (wp_attempt rfl (fun spec => ?_) fun _ => rfl)
  refine Proc.wp_bind (Proc.wp_throwIf (fun _ => rfl) fun _ => ?_)
  refine Proc.wp_bind (Proc.wp_attempt ?_)
  rintro _ rfl r o'' ⟨rfl, hread⟩
  refine ⟨trivial, ?_⟩
  cases r with
  | error e => rfl
  | ok found =>
    exact Proc.wp_bind (Proc.wp_throwIf (fun _ => rfl) fun _ => Proc.wp_pure ⟨rfl, hread found rfl⟩)

theorem wp_superviseLocked (path : PathBuf) (h : Fresh o) :
    Proc.wp interface (superviseLocked path) (fun _ _ _ => True) Failed () o := by
  refine Proc.wp_seq _ (wp_loadSupervised h) ?_
  rintro ⟨spec, state⟩ s o' ⟨rfl, rfl⟩
  obtain ⟨_, hfound, hstatus, hexit, hfailure⟩ := h
  cases hfound
  refine Proc.wp_bind (wp_attempt rfl (fun _ => ?_) fun _ => rfl)
  refine Proc.wp_bind (wp_call rfl fun updatedAtMs => ?_)
  refine Proc.wp_bind (wp_call rfl fun supervisorPid => ?_)
  have hlive : LiveState .starting { state with
      status := .starting, updatedAtMs
      process := { state.process with supervisorPid := some supervisorPid } } :=
    ⟨rfl, hexit, hfailure⟩
  refine Proc.wp_seq _ (wp_persist rfl (by rw [hstatus]; rfl) (consistent_starting hlive)) ?_
  rintro _ s o ⟨-, rfl⟩
  refine Proc.wp_seq _ (wp_acquire spec.leaseRequests hlive ⟨_, rfl, rfl⟩) ?_
  rintro ⟨leases, populated⟩ s o ⟨-, rfl, hlive⟩
  refine Proc.wp_seq (fun r _ o => ∀ e, r.1 = .error e → o.isSome) (Proc.wp_withStore ?_)
    fun r s o hr => Proc.wp_ofExcept (fun _ _ => trivial) hr
  exact Proc.wp_mono (wp_superviseLeased path ⟨⟨_, rfl, rfl⟩, hlive, rfl⟩) (fun _ _ _ _ => nofun)
    fun _ _ _ ho _ _ => ho

omit [Toolchain] in
theorem wp_markSupervisorFailed (error : AppError) (s : Unit) (o : Option RunState) :
    Proc.wp interface (markSupervisorFailed error) (fun _ _ _ => True) (fun _ _ _ => True) s o := by
  refine Proc.wp_bind (Proc.wp_call ?_)
  rintro _ rfl r o'' ⟨rfl, hread⟩
  refine ⟨trivial, ?_⟩
  cases r with
  | error e => exact Proc.wp_pure trivial
  | ok state =>
    simp only
    split
    · exact Proc.wp_pure trivial
    rename_i hlive
    refine Proc.wp_bind (wp_call rfl fun updatedAtMs => ?_)
    refine Proc.wp_bind (wp_call rfl fun finishedAtMs => ?_)
    refine Proc.wp_bind (Proc.wp_call ?_)
    rintro _ rfl r o _
    refine ⟨⟨state, hread state rfl, ?_, consistent_failedState _ _ _ _⟩, Proc.wp_pure trivial⟩
    change state.status.mayFollow .failed
    revert hlive
    cases state.status <;> decide

theorem wp_superviseAndMark (path : PathBuf) (h : Fresh o) :
    Proc.wp interface (superviseAndMark path) (fun _ _ _ => True) (fun _ _ _ => True) () o := by
  refine Proc.wp_seq (fun _ _ _ => True) (Proc.wp_outcome (Proc.wp_mono (wp_superviseLocked path h)
    (fun _ _ _ _ => trivial) fun _ _ _ _ => trivial)) fun r s o _ => ?_
  cases r with
  | ok u => exact Proc.wp_pure trivial
  | error e =>
    exact Proc.wp_seq _ (wp_markSupervisorFailed e s o) fun _ s o _ => Proc.wp_throw trivial

theorem fresh_of_created {options : StartOptions} {w : World} (h : Created options w) :
    Fresh w.state? := by
  obtain ⟨requests, createdAtMs, -, -, hstate, -⟩ := h.documents
  exact ⟨_, by rw [World.state?, hstate]; rfl, rfl, rfl, rfl⟩

theorem step_exec {β : Type} {c : BodyCmd β} {a : Answer} {w w' : World} {b : β}
    (h : execBody c a w = some (b, w')) : step c w.state? b w'.state? := by
  have hquiet (hc : c.writesState = false) : w'.state? = w.state? := by
    rw [World.state?, (execBody_state hc h).1]
    rfl
  cases c with
  | persistState state =>
    obtain ⟨fault, -, hr, rfl | rfl⟩ | ⟨-, hr, rfl⟩ := committed_cases h
    · exact .inr ⟨_, hr, .inl rfl⟩
    · exact .inr ⟨_, hr, .inr rfl⟩
    · exact .inl ⟨hr, rfl⟩
  | readState =>
    refine ⟨hquiet rfl, fun state hread => ?_⟩
    obtain ⟨fault, -, hr, -⟩ | ⟨-, h⟩ := fallible_cases h
    · rw [hr] at hread
      cases hread
    · have hfile : w.stateJson.read w.statePath = .ok state := by
        rw [← hread]
        exact congrArg Prod.fst (Option.some.inj h)
      exact StateFile.read_ok hfile
  | _ => exact hquiet rfl

end LifecycleView

/-! ## The runs -/

variable {setup : Setup} {ok : system.Condition} {cfg : system.Config}

/-- The supervisor writes only consistent contents, each of which may follow the
    one that is there. -/
theorem reach_persist (h : Machine.Reach ok setup.initial cfg) :
    Machine.Reach (fun i _ c a w => (ok i c a w ∧ launchProtocol setup.options i c a w ∧
      Launched setup.options w) ∧ bodyGuarantee World.state? LifecycleView.interface i c a w)
      setup.initial cfg := by
  refine reach_bodyGuarantee LifecycleView.Fresh (fun c a w b w' _ h => LifecycleView.step_exec h)
    ?_ ?_ (fun path o h => LifecycleView.wp_superviseAndMark path h) (reach_launched h)
  · intro β j hj c a w b w' hok hexec hactive
    have hsame := sameRun_of_active hj hok.2.1 hexec hactive
    simp only [World.state?, hsame.stateJson]
  · intro a w w' hok hexec
    simp only [execLock] at hexec
    repeat' split at hexec
    all_goals cases hexec
    rename_i hphase _ _ _
    have hfresh := LifecycleView.fresh_of_created (hok.2.2.created (not_not.mp hphase))
    exact hfresh

/-- The contents that `state.json` has had follow the lifecycle, and it has the
    newest of them. -/
structure Recorded (w : World) : Prop where
  lifecycle : Lifecycle w.history
  document : w.phase ≠ .unlaunched → w.state? = w.history.head?

namespace Recorded

variable {w w' : World}

omit [Toolchain] in
theorem of_sameRun (h : Recorded w) (hrun : SameRun w w') : Recorded w' where
  lifecycle := hrun.history ▸ h.lifecycle
  document hphase := by
    rw [World.state?, hrun.stateJson, hrun.history]
    exact h.document (hrun.phase ▸ hphase)

omit [Toolchain] in
/-- A write of `state.json`. -/
theorem setState (h : Recorded w) {old state : RunState} (hold : w.history.head? = some old)
    (hnext : old.status.mayFollow state.status) (hc : Consistent state) :
    Recorded (w.setState state) where
  lifecycle := by
    obtain ⟨rest, hrest⟩ := List.head?_eq_some_iff.mp hold
    have hl := h.lifecycle
    rw [hrest] at hl
    simp only [World.setState, hrest]
    exact hl.next hnext hc
  document _ := rfl

theorem step_start {β : Type} {c : CreateCmd β} {a : Answer} {b : β}
    (hok : startProtocol setup.options .start (.inl c) a w)
    (hexec : execCreate c a w = some (b, w')) (h : Recorded w) : Recorded w' := by
  -- While the run is unlaunched, only its history matters.
  have hquiet (hphase : w.phase = .unlaunched) (hphase' : w'.phase = w.phase)
      (hhistory : w'.history = w.history) : Recorded w' :=
    ⟨hhistory ▸ h.lifecycle, fun hne => absurd (hphase'.trans hphase) hne⟩
  cases c with
  | now => cases hexec; exact h
  | writeNewState state =>
    obtain ⟨hphase, hhistory, requests, createdAtMs, -, -, rfl⟩ := hok
    have hset : Recorded (w.setState (setup.options.initialState requests createdAtMs)) := by
      refine ⟨?_, fun _ => rfl⟩
      simp only [World.setState, hhistory]
      exact .created rfl (consistent_initialState _ _ _)
    obtain ⟨_, _, _, rfl | rfl⟩ | ⟨_, _, rfl⟩ := committed_cases hexec
    · exact h
    · exact hset
    · exact hset
  | launch =>
    obtain ⟨hphase, hcreated⟩ := hok
    obtain ⟨requests, createdAtMs, -, -, hstate, hhistory, -⟩ := hcreated.documents
    simp only [execCreate] at hexec
    repeat' split at hexec
    all_goals cases hexec
    all_goals exact ⟨h.lifecycle, fun _ => by simp only [World.state?, hstate, hhistory]; rfl⟩
  | replaceState state =>
    obtain ⟨hphase, hcreated, old, error, updatedAtMs, finishedAtMs, hold, rfl⟩ := hok
    obtain ⟨requests, createdAtMs, -, -, hstate, hhistory, -⟩ := hcreated.documents
    obtain rfl : old = _ := StateFile.document.inj (hold.symm.trans hstate)
    have hset := h.setState (by rw [hhistory]; rfl) (by rfl)
      (consistent_launchFailedState setup.options requests createdAtMs error updatedAtMs finishedAtMs)
    obtain ⟨_, _, _, rfl | rfl⟩ | ⟨_, _, rfl⟩ := committed_cases hexec
    · exact h
    · exact hset
    · exact hset
  | createDir =>
    obtain ⟨_, -, rfl⟩ | ⟨-, rfl⟩ := createDir_cases hexec
    · exact h
    · exact hquiet hok rfl rfl
  | _ =>
    obtain ⟨_, _, _, rfl⟩ | ⟨_, hexec⟩ := fallible_cases hexec
    · exact h
    · cases hexec
      exact hquiet hok rfl rfl

theorem step_body {β : Type} {c : BodyCmd β} {a : Answer} {b : β} (hphase : w.phase = .active)
    (hguar : bodyGuarantee World.state? LifecycleView.interface .supervisor (.inr c) a w)
    (hexec : execBody c a w = some (b, w')) (h : Recorded w) : Recorded w' := by
  cases hc : c.writesState with
  | false =>
    obtain ⟨hstate, hhistory⟩ := execBody_state hc hexec
    refine ⟨hhistory ▸ h.lifecycle, fun _ => ?_⟩
    rw [World.state?, hstate, hhistory]
    exact h.document (by rw [hphase]; decide)
  | true =>
    cases c with
    | persistState state =>
      obtain ⟨old, hold, hnext, hconsistent⟩ := hguar b w' hexec
      have hset := h.setState ((h.document (by rw [hphase]; decide)).symm.trans hold) hnext
        hconsistent
      obtain ⟨_, _, _, rfl | rfl⟩ | ⟨_, _, rfl⟩ := committed_cases hexec
      · exact h
      · exact hset
      · exact hset
    | _ => cases hc

theorem step {β : Type} {i : Thread} {c : i.Cmd β} {a : Answer} {b : β}
    (hok : launchProtocol setup.options i c a w)
    (hguar : bodyGuarantee World.state? LifecycleView.interface i c a w)
    (hexec : exec i c a w = some (b, w')) (h : Recorded w) : Recorded w' := by
  cases i with
  | start =>
    cases c with
    | inl c => exact step_start hok.1 hexec h
    | inr c => exact h.of_sameRun (execClient_sameRun hexec)
  | supervisor =>
    cases c with
    | inl c =>
      obtain rfl | hphase | hphase := execLock_phase (show execLock c a w = some (b, w') from hexec)
      · exact h
      all_goals
        rw [execLock_frame (show execLock c a w = some (b, w') from hexec)]
        exact ⟨h.lifecycle, fun _ => h.document (by rw [hphase.1]; decide)⟩
    | inr c => exact step_body hok.2 hguar hexec h
  | reader stream =>
    rw [execReader_frame (show execReader stream c a w = some (b, w') from hexec)]
    exact h.of_sameRun ⟨rfl, rfl, rfl, rfl, rfl⟩
  | client index => exact h.of_sameRun (execClient_sameRun hexec)

end Recorded

/-- Every run records its lifecycle. -/
theorem reach_recorded (h : Machine.Reach ok setup.initial cfg) : Recorded cfg.world :=
  Machine.Reach.invariant (M := system) (J := Recorded)
    (fun _ _ _ _ _ _ _ hok hexec hw => Recorded.step hok.1.2.1 hok.2 hexec hw) (reach_persist h)
    ⟨.nil, fun h => absurd rfl h⟩

/-- The successive contents of `state.json` follow the lifecycle, none of them
    is written after a terminal one, and the newest is what the file holds. -/
theorem lifecycle_of_run (setup : Setup) {cfg : system.Config}
    (h : Machine.Reach system.always setup.initial cfg) :
    Lifecycle cfg.world.history ∧ (∀ old ∈ cfg.world.history.tail, old.status.isTerminal = false) ∧
      (cfg.world.phase ≠ .unlaunched → cfg.world.state? = cfg.world.history.head?) := by
  have hrecorded := reach_recorded h
  refine ⟨hrecorded.lifecycle, fun old hold => ?_, hrecorded.document⟩
  cases hhistory : cfg.world.history with
  | nil => rw [hhistory] at hold; exact absurd hold List.not_mem_nil
  | cons state rest =>
    rw [hhistory] at hold
    have hl := hrecorded.lifecycle
    rw [hhistory] at hl
    exact hl.tail_live old hold

end Procherd

namespace Procherd.Reference

open Interaction

/-- A run of the reference setup that ends exited. -/
theorem lifecycle_of_run_finished : ∃ cfg : system.Config,
    cfg.world.history.map (·.status) = [.exited, .running, .starting, .starting, .created] ∧
    Lifecycle cfg.world.history := by
  have hrun : (Machine.run (setup idle).initial (startUp ++ finish)).map
      (fun cfg => cfg.world.history.map (·.status)) =
      some [.exited, .running, .starting, .starting, .created] := by decide +kernel
  obtain ⟨cfg, hcfg, hstatus⟩ := Option.map_eq_some_iff.mp hrun
  exact ⟨cfg, hstatus, (lifecycle_of_run (setup idle) (.of_run hcfg)).1⟩

end Procherd.Reference
