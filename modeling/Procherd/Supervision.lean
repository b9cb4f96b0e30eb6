-- SUMMARY: The rule of supervision: what an assertion needs to hold from the acquired leases to the end of the supervisor, if it looks at nothing of the supervisor's own state but the release times of the leases.
import Procherd.ControlFrame
import Procherd.OutputFrame

/-!
# Supervision

A supervisor that has acquired its leases captures no output at first. It spawns
the child, creates the log, and goes round its loop. Only four commands of it
write the state, the log file and the registry; the rest is plain. An assertion
that the plain commands keep, and for which these four do what is asked here, is
kept until the end, whatever fails on the way.
-/

namespace Procherd

open Interaction

/-- The commands that write nothing which outlives the supervisor. -/
def BodyCmd.plain {β : Type} : BodyCmd β → Bool
  | .persistState _ | .createLog | .reservePorts _ _ | .releaseRegistry _ => false
  | _ => true

theorem BodyCmd.plain_of_output {β : Type} {c : BodyCmd β} (h : c.output) : c.plain := by
  cases c <;> first | rfl | cases h

theorem BodyCmd.plain_of_steering {β : Type} {c : BodyCmd β} (h : c.steering) : c.plain := by
  cases c <;> first | rfl | cases h

theorem BodyCmd.plain_of_stopFile {β : Type} {c : BodyCmd β} (h : c.stopFile) : c.plain := by
  cases c <;> first | rfl | cases h

/-- The statuses that are written before the output is captured. -/
def RunStatus.uncaptured : RunStatus → Bool
  | .created | .starting | .running | .failed => true
  | .stopping | .exited | .stopped => false

/-- The release times of the port leases. -/
def RunState.released (state : RunState) : List (Option Nat) :=
  state.leases.ports.map (·.releasedAtMs)

theorem LeaseAllocation.handoffAt_released (allocation : LeaseAllocation) (handoffAtMs : Nat)
    (state : RunState) : (allocation.handoffAt handoffAtMs state).released = state.released := by
  have hset (name : String) (leases : List PortLease) :
      (setHandoff name handoffAtMs leases).map (·.releasedAtMs) = leases.map (·.releasedAtMs) := by
    induction leases with
    | nil => rfl
    | cons lease rest ih =>
      rw [setHandoff]
      split
      · rfl
      · exact congrArg (lease.releasedAtMs :: ·) ih
  simp only [handoffAt, RunState.released]
  generalize state.leases.ports = leases
  induction allocation.ports generalizing leases with
  | nil => rfl
  | cons reserved rest ih => exact (ih _).trans (hset reserved.name leases)

theorem recordSpawn_released (spawnedAtMs : Nat) (state : RunState) :
    (recordSpawn spawnedAtMs state).released = state.released := by
  simp only [recordSpawn, RunState.released, List.map_map]
  refine List.map_congr_left fun lease _ => ?_
  simp only [Function.comp_apply]
  split <;> rfl

/-- `K captured released` holds while the supervisor works, before and after the
    log is created; `E` holds once something has failed. -/
structure Supervision {O : Type} (L : Interface BodyCmd O) (runId : String)
    (K : Bool → List (Option Nat) → O → Prop) (E : O → Prop) : Prop where
  keeps : ∀ captured released, L.Keeps BodyCmd.plain (K captured released)
  keepsFailed : L.Keeps BodyCmd.plain E
  fails : ∀ {captured released o}, K captured released o → E o
  persist : ∀ {captured : Bool} {state o o' r o''}, captured ∨ state.status.uncaptured →
    K captured state.released o → L.rely o o' → L.step (.persistState state) o' r o'' →
    L.guar (.persistState state) o' r o'' ∧ E o'' ∧
      (r = .ok () → ∀ released, K captured released o → K captured released o'')
  createLog : ∀ {released o o' r o''}, K false released o → L.rely o o' →
    L.step .createLog o' r o'' →
    L.guar .createLog o' r o'' ∧ E o'' ∧
      (r = .ok () → ∀ released, K false released o → K true released o'')
  release : ∀ {captured released o o' r o''}, K captured released o → L.rely o o' →
    L.step (.releaseRegistry runId) o' r o'' →
    L.guar (.releaseRegistry runId) o' r o'' ∧ E o'' ∧
      (r = .ok () → ∀ released, K captured released o'')
  releaseFailed : ∀ {id o o' r o''}, E o → L.rely o o' → L.step (.releaseRegistry id) o' r o'' →
    L.guar (.releaseRegistry id) o' r o'' ∧ E o''

namespace Supervision

variable {O : Type} {L : Interface BodyCmd O} {runId : String}
  {K : Bool → List (Option Nat) → O → Prop} {E : O → Prop} {captured : Bool} {l : Locals} {o : O}

/-- The assertion on the locals: the state may be written as it is, and with any
    release times once the registry is released. -/
structure Holds (runId : String) (K : Bool → List (Option Nat) → O → Prop) (captured : Bool)
    (l : Locals) (o : O) : Prop where
  runId : l.leases.runId = runId
  holds : K captured l.state.released o
  status : captured ∨ l.state.status.uncaptured
  registry : l.leases.registryReleased → ∀ released, K captured released o

theorem Holds.command (F : Supervision L runId K E) {β : Type} {c : BodyCmd β} (hc : c.plain)
    (h : Holds runId K captured l o) {o' o'' : O} {b : β} (hrely : L.rely o o') (hs : L.step c o' b o'') :
    L.guar c o' b o'' ∧ Holds runId K captured l o'' :=
  have ⟨hguar, h'⟩ := F.keeps _ _ c hc h.holds hrely hs
  ⟨hguar, h.runId, h', h.status, fun hreleased released =>
    (F.keeps _ _ c hc (h.registry hreleased released) hrely hs).2⟩

/-- What the updates of the locals keep that leave the leases alone. -/
theorem Holds.congr {l' : Locals} (h : Holds runId K captured l o)
    (hreleased : l'.state.released = l.state.released) (hleases : l'.leases = l.leases)
    (hstatus : captured ∨ l'.state.status.uncaptured) : Holds runId K captured l' o :=
  ⟨hleases ▸ h.runId, hreleased ▸ h.holds, hstatus, hleases ▸ h.registry⟩

theorem wp_persistState (F : Supervision L runId K E) (h : Holds runId K captured l o) :
    Proc.wp L persistState (fun _ => Holds runId K captured) (fun _ _ => E) l o := by
  simp only [persistState, Proc.wp_get_bind]
  refine Proc.wp_attempt fun o' hrely r o'' hs => ?_
  obtain ⟨hguar, hfailed, hok⟩ := F.persist h.status h.holds hrely hs
  refine ⟨hguar, ?_⟩
  cases r with
  | ok u =>
    exact ⟨h.runId, hok rfl _ h.holds, h.status, fun hreleased released =>
      hok rfl released (h.registry hreleased released)⟩
  | error e => exact hfailed

theorem outputFrame (F : Supervision L runId K E) : OutputFrame L (Holds runId K true) fun _ _ => E where
  command _ hc _ _ _ _ _ h := h.command F (BodyCmd.plain_of_output hc)
  logs _ h := h.congr rfl rfl h.status
  readiness _ _ h := h.congr rfl rfl h.status
  appendFailed _ h hrely hs := F.fails (h.command F rfl hrely hs).2.holds
  drainTimeout h := F.fails h.holds

theorem loopFrame (F : Supervision L runId K E) (captured : Bool) :
    LoopFrame L (Holds runId K captured) fun _ _ => E where
  command _ hc _ _ _ _ _ h := h.command F (BodyCmd.plain_of_steering hc)
  failIo c _ _ _ _ _ _ h hrely hs :=
    F.fails (h.command F (BodyCmd.plain_of_steering c.steering) hrely hs).2.holds
  locals h hsteers := by
    rw [hsteers.frame]
    exact h.congr rfl rfl h.status
  touched h hrely hs := (h.command F rfl hrely hs).2.congr rfl rfl h.status
  persist := F.wp_persistState

/-- A plain command leaves the locals alone. -/
theorem wp_call (F : Supervision L runId K E) {β : Type} {c : BodyCmd β} (hc : c.plain)
    (h : Holds runId K captured l o) :
    Proc.wp L (Proc.call c : Supervised β) (fun _ l' o' => l' = l ∧ Holds runId K captured l o')
      (fun _ _ => E) l o :=
  Proc.wp_call fun _ hrely _ _ hs =>
    have ⟨hguar, h'⟩ := h.command F hc hrely hs
    ⟨hguar, rfl, h'⟩

/-- So does one that runs after a failure. -/
theorem wp_callFailed (F : Supervision L runId K E) {β : Type} {c : BodyCmd β} (hc : c.plain) (h : E o) :
    Proc.wp L (Proc.call c : Supervised β) (fun _ _ => E) (fun _ _ => E) l o :=
  Proc.wp_call fun _ hrely _ _ hs => F.keepsFailed c hc h hrely hs

theorem wp_releaseLeases (F : Supervision L runId K E) (h : Holds runId K captured l o) :
    Proc.wp L releaseLeases (fun _ => Holds runId K captured) (fun _ _ => E) l o := by
  simp only [releaseLeases, Proc.wp_get_bind]
  refine Proc.wp_seq
    (fun leases l' o' => leases.runId = runId ∧ l' = l ∧ ∀ released, K captured released o') ?_ ?_
  · unfold releaseRegistry
    split
    · rename_i hreleased
      exact Proc.wp_pure ⟨h.runId, rfl, h.registry hreleased⟩
    rw [h.runId]
    refine Proc.wp_bind (Proc.wp_attempt fun o' hrely r o'' hs => ?_)
    obtain ⟨hguar, hfailed, hok⟩ := F.release h.holds hrely hs
    refine ⟨hguar, ?_⟩
    cases r with
    | ok u => exact Proc.wp_pure ⟨rfl, rfl, hok rfl⟩
    | error e => exact hfailed
  rintro leases _ o ⟨hrunId, rfl, hall⟩
  simp only [Proc.wp_modify_bind]
  refine Proc.wp_bind (Proc.wp_call fun o' hrely now o'' hs => ?_)
  have hall released := F.keeps _ released .now rfl (hall released) hrely hs
  exact ⟨(hall []).1, Proc.wp_modify ⟨hrunId, (hall _).2, h.status, fun _ released => (hall released).2⟩⟩

theorem wp_attempt (F : Supervision L runId K E) {α : Type} {c : BodyCmd (Except AppError α)}
    (hc : c.plain) (h : Holds runId K captured l o) :
    Proc.wp L (Proc.attempt c : Supervised α) (fun _ l' o' => l' = l ∧ Holds runId K captured l o')
      (fun _ _ => E) l o := by
  refine Proc.wp_attempt fun o' hrely r o'' hs => ?_
  have ⟨hguar, h'⟩ := h.command F hc hrely hs
  cases r with
  | ok a => exact ⟨hguar, rfl, h'⟩
  | error e => exact ⟨hguar, F.fails h'.holds⟩

/-! ## The scopes -/

theorem wp_dropLogs (F : Supervision L runId K E) (h : E o) :
    Proc.wp L dropLogs (fun _ _ => E) (fun _ _ => E) l o := by
  simp only [dropLogs, Proc.wp_get_bind]
  split
  · exact Proc.wp_pure h
  · exact F.wp_callFailed rfl h

theorem wp_dropChild (F : Supervision L runId K E) (h : E o) :
    Proc.wp L dropChild (fun _ _ => E) (fun _ _ => E) l o := by
  simp only [dropChild, Proc.wp_get_bind]
  split
  · exact Proc.wp_seq _ (F.wp_callFailed rfl h) fun _ _ _ h => Proc.wp_pure h
  · exact Proc.wp_pure h

theorem wp_dropLeases (F : Supervision L runId K E) (h : E o) :
    Proc.wp L dropLeases (fun _ _ => E) (fun _ _ => E) l o := by
  simp only [dropLeases, Proc.wp_get_bind]
  refine Proc.wp_seq (fun _ _ => E) (Proc.wp_outcome ?_) fun _ _ _ h => Proc.wp_pure h
  unfold releaseRegistry
  split
  · exact Proc.wp_pure h
  refine Proc.wp_bind (Proc.wp_attempt fun o' hrely r o'' hs => ?_)
  obtain ⟨hguar, h⟩ := F.releaseFailed h hrely hs
  refine ⟨hguar, ?_⟩
  cases r with
  | ok u => exact Proc.wp_pure h
  | error e => exact h

/-! ## The loop -/

section Rounds

variable [Toolchain]

theorem wp_finishLogs (F : Supervision L runId K E) (h : Holds runId K true l o) :
    Proc.wp L finishLogs (fun _ => Holds runId K true) (fun _ _ => E) l o := by
  simp only [finishLogs, Proc.wp_modify_bind]
  refine Proc.wp_seq _ (F.wp_attempt rfl (h.congr rfl rfl (.inl rfl))) ?_
  rintro _ _ o ⟨rfl, h⟩
  exact Proc.wp_modify (h.congr rfl rfl (.inl rfl))

theorem wp_handleExit (F : Supervision L runId K E) (exitStatus : ExitStatus) (h : Holds runId K true l o) :
    Proc.wp L (handleExit exitStatus) (fun _ _ => E) (fun _ _ => E) l o := by
  refine Proc.wp_seq _ ((F.loopFrame true).wp_killRemaining h) fun _ l o h => ?_
  simp only [Proc.wp_modify_bind]
  have h : Holds runId K true { l with armed := false } o := h.congr rfl rfl h.status
  refine Proc.wp_seq _ (F.outputFrame.wp_drainUntilClosed _ h) fun _ l o h => ?_
  simp only [Proc.wp_modify_bind]
  refine Proc.wp_seq _ (F.wp_finishLogs (h.congr rfl rfl (.inl rfl))) fun _ l o h => ?_
  refine Proc.wp_seq _ (F.wp_releaseLeases h) fun _ l o h => ?_
  refine Proc.wp_seq _ ((F.loopFrame true).wp_touch h) fun _ l o h => ?_
  refine Proc.wp_seq _ (F.wp_call rfl h) ?_
  rintro finishedAtMs l o ⟨rfl, h⟩
  simp only [Proc.wp_modify_bind]
  have hfinal : Holds runId K true { l with
      state := finalState l.state l.stopping exitStatus finishedAtMs } o :=
    h.congr rfl rfl (.inl rfl)
  exact Proc.wp_mono (F.wp_persistState hfinal) (fun _ _ _ h => F.fails h.holds) fun _ _ _ => id

theorem wp_superviseStop (F : Supervision L runId K E) (path : PathBuf) (h : Holds runId K true l o) :
    Proc.wp L (superviseStop path) (fun _ => Holds runId K true) (fun _ _ => E) l o := by
  simp only [superviseStop, Proc.wp_get_bind]
  split
  · refine (F.loopFrame true).wp_watchTriggers (A := fun _ _ => True)
      (fun _ _ _ _ _ _ _ _ => trivial) (fun request now o _ h => h.congr rfl rfl (.inl rfl))
      (fun now o h => h.congr rfl rfl (.inl rfl)) ?_
    refine Proc.wp_mono (wp_readStopRequest_keeps (J := Holds runId K true l)
      (fun c hc _ _ _ _ h hrely hs => h.command F (BodyCmd.plain_of_stopFile hc) hrely hs)
      (fun _ _ h => F.fails h.holds) path l.spec h) ?_ fun _ _ _ => id
    rintro r _ _ ⟨rfl, h⟩
    exact ⟨rfl, h, fun _ _ => trivial⟩
  · exact (F.loopFrame true).wp_enforceStop _ h

theorem wp_superviseRound (F : Supervision L runId K E) (path : PathBuf) (h : Holds runId K true l o) :
    Proc.wp L (superviseRound path) (fun r l o => r.elim (Holds runId K true l o) fun _ => E o)
      (fun _ _ => E) l o := by
  have hloop := F.loopFrame true
  refine Proc.wp_seq _ (F.outputFrame.wp_drainAvailable h) fun drain l o h => ?_
  refine Proc.wp_seq _ (hloop.wp_pollReadiness
    (fun inputs o h => h.congr rfl rfl h.status) h) fun polled l o h => ?_
  refine Proc.wp_seq _ (hloop.wp_persistReadiness _ h) fun _ l o h => ?_
  refine Proc.wp_seq _ (F.wp_superviseStop path h) fun _ l o h => ?_
  refine Proc.wp_seq _ (hloop.wp_tryWaitRetry h) fun exited l o h => ?_
  cases exited with
  | some exitStatus =>
    exact Proc.wp_seq _ (F.wp_handleExit exitStatus h) fun _ l o h => Proc.wp_pure h
  | none =>
    refine Proc.wp_seq _ (hloop.wp_snapshotIfDue (fun o h => h.congr rfl rfl h.status) h)
      fun _ l o h => ?_
    refine Proc.wp_seq _ (F.wp_call rfl h) ?_
    rintro _ _ o ⟨rfl, h⟩
    exact Proc.wp_pure h

/-! ## The setup -/

/-- The log is created between the captured streams and the first round. -/
theorem wp_superviseOutput (F : Supervision L runId K E) (path : PathBuf) (h : Holds runId K false l o) :
    Proc.wp L (superviseOutput path) (fun _ _ => E) (fun _ _ => E) l o := by
  refine Proc.wp_ensuring (Proc.wp_mono (Q := fun _ _ => E) (E := fun _ _ => E) ?_
    (fun _ l o h => F.wp_callFailed rfl h) fun _ l o h => F.wp_callFailed rfl h)
  refine Proc.wp_seq _ (F.wp_call rfl h) ?_
  rintro _ _ o ⟨rfl, h⟩
  refine Proc.wp_seq _ (F.wp_call rfl h) ?_
  rintro _ _ o ⟨rfl, h⟩
  refine Proc.wp_seq _ (F.wp_call rfl h) ?_
  rintro _ _ o ⟨rfl, h⟩
  refine Proc.wp_seq _ (F.wp_call rfl h) ?_
  rintro _ l o ⟨rfl, h⟩
  refine Proc.wp_seq (fun _ => Holds runId K true) (Proc.wp_attempt fun o' hrely r o'' hs => ?_)
    fun _ l o h => ?_
  · obtain ⟨hguar, hfailed, hok⟩ := F.createLog h.holds hrely hs
    refine ⟨hguar, ?_⟩
    cases r with
    | ok u =>
      exact ⟨h.runId, hok rfl _ h.holds, .inl rfl, fun hreleased released =>
        hok rfl released (h.registry hreleased released)⟩
    | error e => exact hfailed
  refine Proc.wp_seq _ (F.wp_call rfl h) ?_
  rintro now l o ⟨rfl, h⟩
  simp only [Proc.wp_modify_bind]
  refine Proc.wp_ensuring (Proc.wp_mono (Q := fun _ _ => E) (E := fun _ _ => E) ?_
    (fun _ l o h => F.wp_dropLogs h) fun _ l o h => F.wp_dropLogs h)
  refine Proc.wp_repeatUntil (Holds runId K true) (fun l o h => ?_) (h.congr rfl rfl (.inl rfl))
  refine Proc.wp_mono (F.wp_superviseRound path h) (fun r l o h => ?_) fun _ _ _ => id
  cases r <;> exact h

theorem wp_superviseChild (F : Supervision L runId K E) (path : PathBuf) (pid : Nat)
    (h : Holds runId K false l o) :
    Proc.wp L (superviseChild path pid) (fun _ _ => E) (fun _ _ => E) l o := by
  refine Proc.wp_ensuring (Proc.wp_mono (Q := fun _ _ => E) (E := fun _ _ => E) ?_
    (fun _ l o h => F.wp_dropChild h) fun _ l o h => F.wp_dropChild h)
  simp only [Proc.wp_modify_bind]
  refine Proc.wp_seq _ (F.wp_call rfl (h.congr rfl rfl h.status)) ?_
  rintro spawnedAtMs _ o ⟨rfl, h⟩
  simp only [Proc.wp_modify_bind]
  refine Proc.wp_seq _ ((F.loopFrame false).wp_touch
    (h.congr (recordSpawn_released spawnedAtMs l.state) rfl (.inr rfl))) fun _ l o h => ?_
  simp only [Proc.wp_modify_bind]
  exact Proc.wp_seq _ (F.wp_persistState (h.congr rfl rfl h.status)) fun _ l o h =>
    F.wp_superviseOutput path h

omit [Toolchain] in
theorem wp_failSpawn (F : Supervision L runId K E) (error : IoError) (h : Holds runId K false l o) :
    Proc.wp L (failSpawn error) (fun _ _ => E) (fun _ _ => E) l o := by
  simp only [failSpawn, Proc.wp_modify_bind]
  refine Proc.wp_seq _ ((F.loopFrame false).wp_touch (h.congr rfl rfl (.inr rfl)))
    fun _ l o h => ?_
  refine Proc.wp_seq _ (F.wp_call rfl h) ?_
  rintro finishedAtMs _ o ⟨rfl, h⟩
  simp only [Proc.wp_modify_bind]
  refine Proc.wp_seq _ (F.wp_releaseLeases (h.congr rfl rfl h.status)) fun _ l o h => ?_
  refine Proc.wp_seq _ (F.wp_persistState h) fun _ l o h => ?_
  simp only [Proc.wp_get_bind]
  exact Proc.wp_throw (F.fails h.holds)

/-- The rule of supervision. -/
theorem wp_superviseLeased (F : Supervision L runId K E) (path : PathBuf) (h : Holds runId K false l o) :
    Proc.wp L (superviseLeased path) (fun _ _ => E) (fun _ _ => E) l o := by
  refine Proc.wp_ensuring (Proc.wp_mono (Q := fun _ _ => E) (E := fun _ _ => E) ?_
    (fun _ l o h => F.wp_dropLeases h) fun _ l o h => F.wp_dropLeases h)
  refine Proc.wp_seq _ (F.wp_persistState h) fun _ l o h => ?_
  refine Proc.wp_seq _ (F.wp_call rfl h) ?_
  rintro handoffAtMs l o ⟨rfl, h⟩
  simp only [Proc.wp_modify_bind, Proc.wp_get_bind]
  have h : Holds runId K false { l with state := l.leases.handoffAt handoffAtMs l.state } o :=
    h.congr (l.leases.handoffAt_released handoffAtMs l.state) rfl h.status
  refine Proc.wp_seq _ (F.wp_call rfl h) ?_
  rintro r _ o ⟨rfl, h⟩
  cases r with
  | ok pid => exact F.wp_superviseChild path pid h
  | error e => exact F.wp_failSpawn e h

end Rounds

end Supervision

/-! ## The whole of the supervisor -/

/-- The run has been given back none of its ports. -/
def RunState.Unreleased (state : RunState) : Prop := ∀ released ∈ state.released, released = none

theorem populateState_released [Toolchain] {ports : List ReservedPort} {state state' : RunState}
    {acquiredAtMs : Nat} {tempPaths : BTreeMap PathBuf} {environment : List (String × OsString)}
    (h : LeaseAllocation.populateState ports state acquiredAtMs tempPaths =
      .ok (state', environment)) : state'.released = state.released := by
  simp only [LeaseAllocation.populateState, bind, Except.bind] at h
  split at h
  · cases h
  split at h
  · cases h
  rename_i hports
  repeat' split at h
  all_goals cases h
  simp only [RunState.released, List.map_map]
  refine map_eq_of_forall₂ (fun lease entry hlease => ?_) (forall₂_of_mapM hports)
  split at hlease <;> cases hlease
  rfl

theorem initialState_unreleased [Toolchain] (options : StartOptions) (requests : LeaseRequests)
    (createdAtMs : Nat) : (options.initialState requests createdAtMs).Unreleased := by
  intro released hreleased
  obtain ⟨lease, hlease, rfl⟩ := List.mem_map.mp hreleased
  obtain ⟨name, -, rfl⟩ := List.mem_map.mp hlease
  rfl

/-- `P` holds until the leases are acquired, `M state` once the supervisor has
    failed and has read `state`. -/
structure SupervisorFrame {O : Type} (L : Interface BodyCmd O) (runId : String) (P : O → Prop)
    (K : Bool → List (Option Nat) → O → Prop) (E : O → Prop) (M : RunState → O → Prop) :
    Prop where
  supervision : Supervision L runId K E
  keeps : L.Keeps BodyCmd.plain P
  fails : ∀ {o}, P o → E o
  found : ∀ {o o' state o''}, P o → L.rely o o' → L.step .readState o' (.ok state) o'' →
    state.runId = runId ∧ state.Unreleased
  persist : ∀ {state o o' r o''}, state.runId = runId → state.Unreleased →
    state.status = .starting → P o → L.rely o o' → L.step (.persistState state) o' r o'' →
    L.guar (.persistState state) o' r o'' ∧ P o''
  reserve : ∀ {names o o' r o''}, P o → L.rely o o' → L.step (.reservePorts runId names) o' r o'' →
    L.guar (.reservePorts runId names) o' r o'' ∧ P o''
  release : ∀ {o o' r o''}, P o → L.rely o o' → L.step (.releaseRegistry runId) o' r o'' →
    L.guar (.releaseRegistry runId) o' r o'' ∧ P o''
  acquired : ∀ {state : RunState} {o}, state.Unreleased → P o → K false state.released o
  keepsRead : ∀ state, L.Keeps BodyCmd.plain (M state)
  read : ∀ {o o' state o''}, E o → L.rely o o' → L.step .readState o' (.ok state) o'' → M state o''
  mark : ∀ {state error updatedAtMs finishedAtMs o o' r o''}, M state o → L.rely o o' →
    L.step (.persistState (failedState error updatedAtMs finishedAtMs state)) o' r o'' →
    L.guar (.persistState (failedState error updatedAtMs finishedAtMs state)) o' r o''

namespace SupervisorFrame

variable {O : Type} {L : Interface BodyCmd O} {runId : String} {P : O → Prop}
  {K : Bool → List (Option Nat) → O → Prop} {E : O → Prop} {M : RunState → O → Prop} {σ : Type}
  {s : σ} {o : O}

theorem wp_call (F : SupervisorFrame L runId P K E M) {β : Type} {c : BodyCmd β} (hc : c.plain)
    (h : P o) : Proc.wp L (Proc.call c : Body σ β) (fun _ _ => P) (fun _ _ => E) s o :=
  Proc.wp_call fun _ hrely _ _ hs => F.keeps c hc h hrely hs

theorem wp_attempt (F : SupervisorFrame L runId P K E M) {α : Type}
    {c : BodyCmd (Except AppError α)} (hc : c.plain) (h : P o) :
    Proc.wp L (Proc.attempt c : Body σ α) (fun _ _ => P) (fun _ _ => E) s o := by
  refine Proc.wp_attempt fun o' hrely r o'' hs => ?_
  have ⟨hguar, h⟩ := F.keeps c hc h hrely hs
  cases r with
  | ok a => exact ⟨hguar, h⟩
  | error e => exact ⟨hguar, F.fails h⟩

theorem wp_releaseRegistry (F : SupervisorFrame L runId P K E M) {leases : LeaseAllocation}
    (hrunId : leases.runId = runId) (h : P o) :
    Proc.wp L (releaseRegistry leases) (fun _ _ => P) (fun _ _ => P) s o := by
  unfold releaseRegistry
  split
  · exact Proc.wp_pure h
  rw [hrunId]
  refine Proc.wp_bind (Proc.wp_attempt fun o' hrely r o'' hs => ?_)
  have ⟨hguar, h⟩ := F.release h hrely hs
  refine ⟨hguar, ?_⟩
  cases r with
  | ok u => exact Proc.wp_pure h
  | error e => exact h

variable [Toolchain]

theorem wp_acquire (F : SupervisorFrame L runId P K E M) {state : RunState}
    {requests : LeaseRequests} (hrunId : state.runId = runId) (hstatus : state.status = .starting)
    (hunreleased : state.Unreleased) (h : P o) :
    Proc.wp L (LeaseAllocation.acquire state requests)
      (fun r _ o => r.1.runId = runId ∧ r.1.registryReleased = false ∧ r.2.status = .starting ∧
        r.2.Unreleased ∧ P o)
      (fun _ _ => E) s o := by
  refine Proc.wp_bind (Proc.wp_ofExcept (fun id hid => ?_) fun _ _ => F.fails h)
  obtain rfl : id = runId := (canonicalRunId_eq hid).trans hrunId
  refine Proc.wp_bind (Proc.wp_ofExcept (fun _ _ => ?_) fun _ _ => F.fails h)
  refine Proc.wp_bind (Proc.wp_ofExcept (fun _ _ => ?_) fun _ _ => F.fails h)
  refine Proc.wp_seq _ (F.wp_call rfl h) fun acquiredAtMs s o h => ?_
  refine Proc.wp_seq (fun _ _ => P) ?_ fun tempPaths s o h => ?_
  · unfold createTempDirectories
    split
    · exact Proc.wp_pure h
    · exact F.wp_attempt rfl h
  refine Proc.wp_seq (fun _ _ => P) ?_ fun ports s o h => ?_
  · unfold reservePortNames
    split
    · exact Proc.wp_pure h
    refine Proc.wp_attempt fun o' hrely r o'' hs => ?_
    have ⟨hguar, h⟩ := F.reserve h hrely hs
    cases r with
    | ok a => exact ⟨hguar, h⟩
    | error e => exact ⟨hguar, F.fails h⟩
  split
  · exact Proc.wp_seq _ (wp_discardLeases (fun h => F.wp_releaseRegistry rfl h) h)
      fun _ _ _ h => Proc.wp_throw (F.fails h)
  · rename_i populated environment hpopulate
    refine Proc.wp_pure ⟨rfl, rfl, ?_, ?_, h⟩
    · rw [LeaseAllocation.populateState_frame hpopulate]
      exact hstatus
    · rw [RunState.Unreleased, populateState_released hpopulate]
      exact hunreleased

omit [Toolchain] in
theorem wp_loadSupervised (F : SupervisorFrame L runId P K E M) {s : Unit} (h : P o) :
    Proc.wp L loadSupervised (fun r _ o => r.2.runId = runId ∧ r.2.Unreleased ∧ P o) (fun _ _ => E)
      s o := by
  refine Proc.wp_seq _ (F.wp_attempt rfl h) fun spec s o h => ?_
  refine Proc.wp_bind (Proc.wp_throwIf (fun _ => F.fails h) fun _ => ?_)
  refine Proc.wp_bind (Proc.wp_attempt fun o' hrely r o'' hs => ?_)
  have ⟨hguar, h'⟩ := F.keeps .readState rfl h hrely hs
  refine ⟨hguar, ?_⟩
  cases r with
  | error e => exact F.fails h'
  | ok state =>
    have ⟨hrunId, hunreleased⟩ := F.found h hrely hs
    refine Proc.wp_bind (Proc.wp_throwIf (fun _ => F.fails h') fun _ => ?_)
    exact Proc.wp_pure ⟨hrunId, hunreleased, h'⟩

theorem wp_superviseLocked (F : SupervisorFrame L runId P K E M) (path : PathBuf) {s : Unit}
    (h : P o) : Proc.wp L (superviseLocked path) (fun _ _ => E) (fun _ _ => E) s o := by
  refine Proc.wp_seq _ (F.wp_loadSupervised h) ?_
  rintro ⟨spec, state⟩ s o ⟨hrunId, hunreleased, h⟩
  refine Proc.wp_seq _ (F.wp_attempt rfl h) fun _ s o h => ?_
  refine Proc.wp_seq _ (F.wp_call rfl h) fun updatedAtMs s o h => ?_
  refine Proc.wp_seq _ (F.wp_call rfl h) fun supervisorPid s o h => ?_
  refine Proc.wp_seq (fun _ _ => P) (Proc.wp_attempt fun o' hrely r o'' hs => ?_) fun _ s o h => ?_
  · have ⟨hguar, h⟩ := F.persist (by exact hrunId) (by exact hunreleased) rfl h hrely hs
    cases r with
    | ok u => exact ⟨hguar, h⟩
    | error e => exact ⟨hguar, F.fails h⟩
  refine Proc.wp_seq _ (F.wp_acquire hrunId rfl hunreleased h) ?_
  rintro ⟨leases, state⟩ s o ⟨hrunId, hkept, hstatus, hunreleased, h⟩
  have hholds : Supervision.Holds runId K false
      { spec, state, leases, logs := .create spec.maxLogBytes } o := by
    refine ⟨hrunId, F.acquired hunreleased h, .inr ?_, fun hreleased => ?_⟩
    · rw [hstatus]
      rfl
    · rw [hkept] at hreleased
      cases hreleased
  refine Proc.wp_seq (fun _ _ => E) (Proc.wp_withStore
    (Proc.wp_mono (F.supervision.wp_superviseLeased path hholds) ?_ ?_)) fun r s o h => ?_
  · exact fun _ _ _ h => h
  · exact fun _ _ _ h => h
  · exact Proc.wp_ofExcept (fun _ _ => h) fun _ _ => h

theorem wp_superviseAndMark (F : SupervisorFrame L runId P K E M) (path : PathBuf) {s : Unit}
    (h : P o) :
    Proc.wp L (superviseAndMark path) (fun _ _ _ => True) (fun _ _ _ => True) s o := by
  refine Proc.wp_seq (fun _ _ => E) (Proc.wp_outcome (F.wp_superviseLocked path h)) fun r s o h => ?_
  cases r with
  | ok u => exact Proc.wp_pure trivial
  | error e =>
    refine Proc.wp_seq (fun _ _ _ => True) ?_ fun _ _ _ _ => Proc.wp_throw trivial
    refine Proc.wp_bind (Proc.wp_call fun o' hrely r o'' hs => ?_)
    obtain ⟨hguar, -⟩ := F.supervision.keepsFailed .readState rfl h hrely hs
    refine ⟨hguar, ?_⟩
    cases r with
    | error e => exact Proc.wp_pure trivial
    | ok state =>
      have h := F.read h hrely hs
      simp only
      split
      · exact Proc.wp_pure trivial
      refine Proc.wp_bind (Proc.wp_call fun o' hrely updatedAtMs o'' hs => ?_)
      have ⟨hguar, h⟩ := F.keepsRead state .now rfl h hrely hs
      refine ⟨hguar, Proc.wp_bind (Proc.wp_call fun o' hrely finishedAtMs o'' hs => ?_)⟩
      have ⟨hguar, h⟩ := F.keepsRead state .now rfl h hrely hs
      refine ⟨hguar, Proc.wp_bind (Proc.wp_call fun o' hrely r o'' hs => ?_)⟩
      exact ⟨F.mark h hrely hs, Proc.wp_pure trivial⟩

end SupervisorFrame

end Procherd
