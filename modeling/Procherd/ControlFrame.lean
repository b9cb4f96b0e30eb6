-- SUMMARY: The frame rule of process control: what watching, stopping and reaping the child leave alone.
import Procherd.Protocol

/-!
# The frame of process control

Apart from the capture of output, a round of the supervisor signals and reaps
the child, releases its leases, and writes the state back. An assertion that
these updates of the locals keep, and that the commands of process control keep,
is kept by all of it.
-/

namespace Procherd

open Interaction

/-- The commands of process control, without those on the stop request. -/
def BodyCmd.control {β : Type} : BodyCmd β → Bool
  | .now | .instant | .sleep _ | .pollReadiness | .signal _ | .startKill | .tryWait
  | .releaseRegistry _ => true
  | _ => false

/-- The commands of process control that leave the registry alone. -/
def BodyCmd.steering {β : Type} : BodyCmd β → Bool
  | .now | .instant | .sleep _ | .pollReadiness | .signal _ | .startKill | .tryWait => true
  | _ => false

theorem BodyCmd.control_of_steering {β : Type} {c : BodyCmd β} (h : c.steering) : c.control := by
  cases c <;> first | rfl | cases h

/-- The calls on the child that may report an error. -/
inductive ChildCall : Type → Type where
  | signal (number : Nat) : ChildCall Unit
  | startKill : ChildCall Unit
  | tryWait : ChildCall (Option ExitStatus)

def ChildCall.command {α : Type} : ChildCall α → BodyCmd (Except IoError α)
  | .signal number => .signal number
  | .startKill => .startKill
  | .tryWait => .tryWait

/-- The errors that the supervisor does not propagate. -/
def ChildCall.tolerates {α : Type} : ChildCall α → IoError → Bool
  | .signal _, e | .startKill, e => isProcessGone e
  | .tryWait, e => e.kind = .interrupted

theorem ChildCall.steering {α : Type} (c : ChildCall α) : c.command.steering := by
  cases c <;> rfl

/-- What the updates of process control leave alone: everything but the leases,
    the child, the stop in progress, and what the state says of them. -/
structure Locals.Keeps (l l' : Locals) : Prop where
  frame : l' = { l with
    leases := l'.leases, armed := l'.armed, stopping := l'.stopping
    lastStateWrite := l'.lastStateWrite
    state := { l.state with
      exit := l'.state.exit, failure := l'.state.failure, leases := l'.state.leases
      cleanup := l'.state.cleanup } }
  requestedAtMs : l'.state.cleanup.requestedAtMs = l.state.cleanup.requestedAtMs
  names : l'.state.leases.names = l.state.leases.names

namespace Locals.Keeps

variable {l l' : Locals}

theorem spec (h : l.Keeps l') : l'.spec = l.spec := by rw [h.frame]

theorem logs (h : l.Keeps l') : l'.logs = l.logs := by rw [h.frame]

theorem readiness (h : l.Keeps l') : l'.readiness = l.readiness := by rw [h.frame]

theorem summary (h : l.Keeps l') : l'.state.logs = l.state.logs := by rw [h.frame]

theorem status (h : l.Keeps l') : l'.state.status = l.state.status := by rw [h.frame]

end Locals.Keeps

/-- What steering the child leaves alone, the leases included. -/
structure Locals.Steers (l l' : Locals) : Prop where
  frame : l' = { l with
    armed := l'.armed, stopping := l'.stopping, lastStateWrite := l'.lastStateWrite
    state := { l.state with
      exit := l'.state.exit, failure := l'.state.failure, cleanup := l'.state.cleanup } }
  requestedAtMs : l'.state.cleanup.requestedAtMs = l.state.cleanup.requestedAtMs

theorem Locals.Steers.keeps {l l' : Locals} (h : l.Steers l') : l.Keeps l' where
  frame := by
    rw [h.frame]
  requestedAtMs := h.requestedAtMs
  names := by rw [h.frame]

/-- `state.updated_at_ms = now`. -/
def Locals.touched (now : Nat) (l : Locals) : Locals :=
  { l with state := { l.state with updatedAtMs := now } }

/-- What `poll` leaves of the tracker and the readiness. -/
def Locals.polled (inputs : PollInputs) (l : Locals) : Locals :=
  { l with
    readiness := (l.readiness.poll l.state.readiness inputs).1
    state := { l.state with readiness := (l.readiness.poll l.state.readiness inputs).2.1 } }

variable {O : Type}

/-- `I` is kept by steering the child over `L`, which fails only with `E`. -/
structure LoopFrame (L : Interface BodyCmd O) (I : Locals → O → Prop)
    (E : AppError → Locals → O → Prop) : Prop where
  command : ∀ {β : Type} (c : BodyCmd β), c.steering → ∀ {l o o' b o''}, I l o → L.rely o o' →
    L.step c o' b o'' → L.guar c o' b o'' ∧ I l o''
  failIo : ∀ {α : Type} (c : ChildCall α) {l o o' e o''}, ¬ c.tolerates e → I l o → L.rely o o' →
    L.step c.command o' (.error e) o'' → E (.ofIo e) l o''
  locals : ∀ {l l' o}, I l o → l.Steers l' → I l' o
  touched : ∀ {l o o' now o''}, I l o → L.rely o o' → L.step .now o' now o'' → I (l.touched now) o''
  persist : ∀ {l o}, I l o → Proc.wp L persistState (fun _ => I) E l o

/-- `I` is kept by process control over `L`, which fails only with `E`. -/
structure ControlFrame (L : Interface BodyCmd O) (I : Locals → O → Prop)
    (E : AppError → Locals → O → Prop) : Prop where
  command : ∀ {β : Type} (c : BodyCmd β), c.control → ∀ {l o o' b o''}, I l o → L.rely o o' →
    L.step c o' b o'' → L.guar c o' b o'' ∧ I l o''
  fail : ∀ {runId l o o' e o''}, I l o → L.rely o o' →
    L.step (.releaseRegistry runId) o' (.error e) o'' → E e l o''
  failIo : ∀ {α : Type} (c : ChildCall α) {l o o' e o''}, ¬ c.tolerates e → I l o → L.rely o o' →
    L.step c.command o' (.error e) o'' → E (.ofIo e) l o''
  locals : ∀ {l l' o}, I l o → l.Keeps l' → I l' o
  touched : ∀ {l o o' now o''}, I l o → L.rely o o' → L.step .now o' now o'' → I (l.touched now) o''
  persist : ∀ {l o}, I l o → Proc.wp L persistState (fun _ => I) E l o

namespace ControlFrame

/-- The locals once a stop request is accepted. -/
def acceptedLocals (request : StopRequest) (now : Nat) (l : Locals) : Locals :=
  { l with state := { l.state with
      status := .stopping
      updatedAtMs := now
      cleanup := { l.state.cleanup with
        requestedAtMs := some request.requestedAtMs, graceMs := some request.graceMs } } }

/-- The locals once the runtime deadline has expired. -/
def expiredLocals (now : Nat) (l : Locals) : Locals :=
  { l with state := { l.state with
      status := .stopping
      updatedAtMs := now
      limits := { l.state.limits with runtimeLimitTriggeredAtMs := some now }
      cleanup := { l.state.cleanup with
        requestedAtMs := some now, graceMs := some l.spec.runtimeGraceMs } } }

end ControlFrame

namespace LoopFrame

variable {L : Interface BodyCmd O} {I : Locals → O → Prop} {E : AppError → Locals → O → Prop}
  {l : Locals} {o : O}

theorem wp_call (F : LoopFrame L I E) {β : Type} {c : BodyCmd β} (hc : c.steering) (h : I l o) :
    Proc.wp L (Proc.call c) (fun _ l' o' => l' = l ∧ I l o') E l o :=
  Proc.wp_call fun _ hrely _ _ hs =>
    ⟨(F.command c hc h hrely hs).1, rfl, (F.command c hc h hrely hs).2⟩

/-- A call whose error the caller looks at. -/
theorem wp_callIo (F : LoopFrame L I E) {α : Type} (c : ChildCall α) (h : I l o) :
    Proc.wp L (Proc.call c.command)
      (fun r l' o' => l' = l ∧ I l o' ∧ ∀ e, r = .error e → ¬ c.tolerates e → E (.ofIo e) l o')
      E l o := by
  apply Proc.wp_call
  intro o' hrely r o'' hs
  have ⟨hguar, h'⟩ := F.command c.command c.steering h hrely hs
  refine ⟨hguar, rfl, h', ?_⟩
  rintro e rfl htolerated
  exact F.failIo c htolerated h hrely hs

theorem wp_modify (F : LoopFrame L I E) {f : Locals → Locals} (hf : l.Steers (f l)) (h : I l o) :
    Proc.wp L (Proc.modify f) (fun _ => I) E l o :=
  Proc.wp_modify (F.locals h hf)

theorem wp_touch (F : LoopFrame L I E) (h : I l o) : Proc.wp L touch (fun _ => I) E l o := by
  refine Proc.wp_bind (Proc.wp_call fun o' hrely now o'' hs => ?_)
  exact ⟨(F.command .now rfl h hrely hs).1, Proc.wp_modify (F.touched h hrely hs)⟩

theorem wp_markStateWrite (F : LoopFrame L I E) (h : I l o) :
    Proc.wp L markStateWrite (fun _ => I) E l o := by
  refine Proc.wp_seq _ (F.wp_call rfl h) ?_
  rintro now _ o ⟨rfl, h⟩
  exact F.wp_modify ⟨rfl, rfl⟩ h

theorem wp_startKillTolerant (F : LoopFrame L I E) (h : I l o) :
    Proc.wp L startKillTolerant (fun _ => I) E l o := by
  refine Proc.wp_seq _ (F.wp_callIo .startKill h) ?_
  rintro r _ o ⟨rfl, h, hE⟩
  cases r with
  | ok u => exact Proc.wp_pure h
  | error e =>
    simp only
    split
    · exact Proc.wp_pure h
    · rename_i hgone
      exact Proc.wp_throw (hE e rfl hgone)

theorem wp_tryWaitRetry (F : LoopFrame L I E) (h : I l o) :
    Proc.wp L tryWaitRetry (fun _ => I) E l o := by
  refine Proc.wp_repeatUntil I (fun l o h => ?_) h
  refine Proc.wp_seq _ (F.wp_callIo .tryWait h) ?_
  rintro r _ o ⟨rfl, h, hE⟩
  cases r with
  | ok status => exact Proc.wp_pure h
  | error e =>
    simp only
    split
    · exact Proc.wp_pure h
    · rename_i hinterrupted
      exact Proc.wp_throw (hE e rfl (by simpa [ChildCall.tolerates] using hinterrupted))

theorem wp_pollReadiness (F : LoopFrame L I E)
    (hpoll : ∀ inputs o, I l o → I (l.polled inputs) o) (h : I l o) :
    Proc.wp L pollReadiness (fun _ => I) E l o := by
  refine Proc.wp_seq _ (F.wp_call rfl h) ?_
  rintro inputs _ o ⟨rfl, h⟩
  simp only [Proc.wp_get_bind, Proc.wp_modify_bind, Proc.wp_pure_iff]
  exact hpoll inputs o h

theorem wp_persistReadiness (F : LoopFrame L I E) (changed : Bool) (h : I l o) :
    Proc.wp L (persistReadiness changed) (fun _ => I) E l o := by
  unfold persistReadiness
  split
  · refine Proc.wp_seq _ (F.wp_touch h) fun _ l o h => ?_
    exact Proc.wp_seq _ (F.persist h) fun _ l o h => F.wp_markStateWrite h
  · exact Proc.wp_pure h

/-- The periodic snapshot, where the summary of the writer keeps `I`. -/
theorem wp_snapshotIfDue (F : LoopFrame L I E)
    (hsnapshot : ∀ o, I l o → I { l with state := { l.state with logs := l.logs.snapshot } } o)
    (h : I l o) : Proc.wp L snapshotIfDue (fun _ => I) E l o := by
  refine Proc.wp_seq _ (F.wp_call rfl h) ?_
  rintro now _ o ⟨rfl, h⟩
  simp only [Proc.wp_get_bind]
  split
  · simp only [Proc.wp_modify_bind]
    refine Proc.wp_seq _ (F.wp_touch (hsnapshot o h)) fun _ l o h => ?_
    exact Proc.wp_seq _ (F.persist h) fun _ l o h => F.wp_markStateWrite h
  · exact Proc.wp_pure h

theorem wp_killRemaining (F : LoopFrame L I E) (h : I l o) :
    Proc.wp L killRemaining (fun _ => I) E l o := by
  refine Proc.wp_seq _ (F.wp_startKillTolerant h) fun killed l o h => ?_
  cases killed with
  | false => exact Proc.wp_pure h
  | true => exact F.wp_modify ⟨rfl, rfl⟩ h

theorem wp_deadlineExpired (F : LoopFrame L I E) (h : I l o) :
    Proc.wp L deadlineExpired (fun _ l' o' => l' = l ∧ I l o') E l o := by
  simp only [deadlineExpired, Proc.wp_get_bind]
  split
  · exact Proc.wp_pure ⟨rfl, h⟩
  · refine Proc.wp_seq _ (F.wp_call rfl h) ?_
    rintro now _ o ⟨rfl, h⟩
    exact Proc.wp_pure ⟨rfl, h⟩

/-! ## The stop request -/

end LoopFrame

section StopRequest

variable [Toolchain] {L : Interface BodyCmd O} {J : O → Prop} {σ : Type}
  {E : AppError → σ → O → Prop} {s : σ} {o : O}

theorem wp_readStopJson_keeps (hJ : L.Keeps BodyCmd.stopFile J) (path : PathBuf) (h : J o) :
    Proc.wp L (readStopJson path) (fun _ s' o' => s' = s ∧ J o') (fun _ s' o' => s' = s ∧ J o')
      s o := by
  refine Proc.wp_seq _ (Proc.wp_attempt_keeps hJ rfl (fun _ _ h => ⟨rfl, h⟩) h) ?_
  rintro _ _ o ⟨rfl, h⟩
  refine Proc.wp_seq _ (Proc.wp_attempt_keeps hJ rfl (fun _ _ h => ⟨rfl, h⟩) h) ?_
  rintro file _ o ⟨rfl, h⟩
  refine Proc.wp_seq _ (Proc.wp_attempt_keeps hJ rfl (fun _ _ h => ⟨rfl, h⟩) h) ?_
  rintro bytes _ o ⟨rfl, h⟩
  exact Proc.wp_ofExcept (fun _ _ => ⟨rfl, h⟩) fun _ _ => ⟨rfl, h⟩

/-- The poll of the stop request, where its commands keep `J`. -/
theorem wp_readStopRequest_keeps (hJ : L.Keeps BodyCmd.stopFile J) (hE : ∀ e o, J o → E e s o)
    (path : PathBuf) (spec : SupervisorSpec) (h : J o) :
    Proc.wp L (readStopRequest path spec) (fun _ s' o' => s' = s ∧ J o') E s o := by
  refine Proc.wp_seq (fun _ s' o' => s' = s ∧ J o')
    (Proc.wp_outcome (wp_readStopJson_keeps hJ path h)) ?_
  rintro r _ o ⟨rfl, h⟩
  cases r with
  | ok request =>
    refine Proc.wp_bind (Proc.wp_ofExcept (fun _ _ => ?_) fun _ _ => hE _ _ h)
    refine Proc.wp_seq _ (Proc.wp_attempt_keeps hJ rfl hE h) ?_
    rintro _ _ o ⟨rfl, h⟩
    exact Proc.wp_pure ⟨rfl, h⟩
  | error e =>
    simp only
    split
    · refine Proc.wp_seq _ (Proc.wp_call_keeps hJ rfl h) ?_
      rintro found _ o ⟨rfl, h⟩
      split
      · exact Proc.wp_throw (hE _ _ h)
      · exact Proc.wp_pure ⟨rfl, h⟩
    · exact Proc.wp_throw (hE _ _ h)

end StopRequest

namespace LoopFrame

variable {L : Interface BodyCmd O} {I : Locals → O → Prop} {E : AppError → Locals → O → Prop}
  {l : Locals} {o : O}

/-! ## Stopping -/

section Stop

variable [Toolchain]

theorem wp_requestStop (F : LoopFrame L I E) (graceMs : Nat) (reason : ExitReason) (h : I l o) :
    Proc.wp L (requestStop graceMs reason) (fun _ => I) E l o := by
  simp only [requestStop, Proc.wp_modify_bind]
  have h' : I { l with
      state := { l.state with cleanup := { l.state.cleanup with
        descendantCleanupTriggered := true } } } o := F.locals h ⟨rfl, rfl⟩
  have hdeadline {l : Locals} {o : O} (f : Nat → Stopping) (h : I l o) :
      Proc.wp L (Proc.call BodyCmd.instant >>= fun now => pure (f now)) (fun _ => I) E l o := by
    refine Proc.wp_seq _ (F.wp_call rfl h) ?_
    rintro now _ o ⟨rfl, h⟩
    exact Proc.wp_pure h
  split
  · refine Proc.wp_seq _ (F.wp_callIo (.signal 15) h') ?_
    rintro r _ o ⟨rfl, h, hE⟩
    cases r with
    | ok u => exact hdeadline _ h
    | error e =>
      simp only
      split
      · exact hdeadline _ h
      · rename_i hgone
        exact Proc.wp_throw (hE e rfl hgone)
  · refine Proc.wp_seq _ (F.wp_startKillTolerant h') fun _ l o h => ?_
    simp only [Proc.wp_modify_bind]
    exact hdeadline _ (F.locals h ⟨rfl, rfl⟩)

theorem wp_persistTrigger (F : LoopFrame L I E) (graceMs : Nat) (reason : ExitReason)
    (h : I l o) :
    Proc.wp L (requestStop graceMs reason >>= fun stopping => do
        Proc.modify fun l => { l with stopping := some stopping }
        persistState) (fun _ => I) E l o := by
  refine Proc.wp_seq _ (F.wp_requestStop graceMs reason h) fun stopping l o h => ?_
  simp only [Proc.wp_modify_bind]
  exact F.persist (F.locals h ⟨rfl, rfl⟩)

theorem wp_acceptStop (F : LoopFrame L I E) (request : StopRequest) {A : O → Prop}
    (hstable : ∀ o o' now o'', A o → L.rely o o' → L.step .now o' now o'' → A o'')
    (haccept : ∀ now o, A o → I (l.touched now) o → I (ControlFrame.acceptedLocals request now l) o) (hA : A o)
    (h : I l o) :
    Proc.wp L (acceptStop request) (fun _ => I) E l o := by
  simp only [acceptStop, Proc.wp_modify_bind]
  refine Proc.wp_bind (Proc.wp_bind (Proc.wp_call fun o' hrely now o'' hs => ?_))
  refine ⟨(F.command .now rfl h hrely hs).1, ?_⟩
  simp only [Proc.wp_modify_iff, Proc.wp_modify_bind]
  exact F.wp_persistTrigger _ _
    (haccept now o'' (hstable o o' now o'' hA hrely hs) (F.touched h hrely hs))

theorem wp_expireRuntime (F : LoopFrame L I E)
    (hexpire : ∀ now o, I (l.touched now) o → I (ControlFrame.expiredLocals now l) o) (h : I l o) :
    Proc.wp L expireRuntime (fun _ => I) E l o := by
  refine Proc.wp_bind (Proc.wp_call fun o' hrely now o'' hs => ?_)
  refine ⟨(F.command .now rfl h hrely hs).1, ?_⟩
  simp only [Proc.wp_get_bind, Proc.wp_modify_bind]
  exact F.wp_persistTrigger _ _ (hexpire now o'' (F.touched h hrely hs))

/-- The watch for triggers, from what the poll of the stop request returns. -/
theorem wp_watchTriggers (F : LoopFrame L I E) {path : PathBuf} {A : StopRequest → O → Prop}
    (hstable : ∀ request o o' now o'', A request o → L.rely o o' → L.step .now o' now o'' →
      A request o'')
    (haccept : ∀ request now o, A request o → I (l.touched now) o →
      I (ControlFrame.acceptedLocals request now l) o)
    (hexpire : ∀ now o, I (l.touched now) o → I (ControlFrame.expiredLocals now l) o)
    (hread : Proc.wp L (readStopRequest path l.spec)
      (fun r l' o' => l' = l ∧ I l o' ∧ ∀ request, r = some request → A request o') E l o) :
    Proc.wp L (watchTriggers path) (fun _ => I) E l o := by
  simp only [watchTriggers, Proc.wp_get_bind]
  refine Proc.wp_seq _ hread ?_
  rintro r _ o ⟨rfl, h, hA⟩
  cases r with
  | some request =>
    exact F.wp_acceptStop request (hstable request) (haccept request) (hA request rfl) h
  | none =>
    refine Proc.wp_seq _ (F.wp_deadlineExpired h) ?_
    rintro expired _ o ⟨rfl, h⟩
    cases expired with
    | true => exact F.wp_expireRuntime hexpire h
    | false => exact Proc.wp_pure h

end Stop

theorem wp_enforceStop (F : LoopFrame L I E) (stopping : Stopping) (h : I l o) :
    Proc.wp L (enforceStop stopping) (fun _ => I) E l o := by
  have hforced : ∀ {l o}, I l o → Proc.wp L
      (do
        Proc.modify fun l => { l with
          stopping := some { stopping with forceSent := true }
          state := { l.state with cleanup := { l.state.cleanup with forceUsed := true } } }
        touch
        persistState) (fun _ => I) E l o := by
    intro l o h
    simp only [Proc.wp_modify_bind]
    exact Proc.wp_seq _ (F.wp_touch (F.locals h ⟨rfl, rfl⟩)) fun _ l o h =>
      F.persist h
  refine Proc.wp_seq (fun _ => I) ?_ fun due l o h => ?_
  · unfold forceDue
    split
    · exact Proc.wp_pure h
    · refine Proc.wp_seq _ (F.wp_call rfl h) ?_
      rintro now _ o ⟨rfl, h⟩
      exact Proc.wp_pure h
  cases due with
  | false => exact Proc.wp_pure h
  | true =>
    refine Proc.wp_seq _ (F.wp_startKillTolerant h) fun killed l o h => ?_
    cases killed with
    | false => exact hforced h
    | true =>
      exact Proc.wp_seq _ (F.wp_modify ⟨rfl, rfl⟩ h) fun _ l o h => hforced h

end LoopFrame

/-! ## The leases -/

namespace ControlFrame

variable {L : Interface BodyCmd O} {I : Locals → O → Prop} {E : AppError → Locals → O → Prop}
  {l : Locals} {o : O}

theorem loop (F : ControlFrame L I E) : LoopFrame L I E where
  command c hc := F.command c (BodyCmd.control_of_steering hc)
  failIo := F.failIo
  locals h hsteers := F.locals h hsteers.keeps
  touched := F.touched
  persist := F.persist

theorem wp_releaseRegistry (F : ControlFrame L I E) (leases : LeaseAllocation) (h : I l o) :
    Proc.wp L (releaseRegistry leases) (fun _ => I) E l o := by
  unfold releaseRegistry
  split
  · exact Proc.wp_pure h
  · refine Proc.wp_seq (fun _ => I) (Proc.wp_attempt fun o' hrely r o'' hs => ?_)
      fun _ _ _ h => Proc.wp_pure h
    have ⟨hguar, h'⟩ := F.command (.releaseRegistry leases.runId) rfl h hrely hs
    cases r with
    | ok u => exact ⟨hguar, h'⟩
    | error e => exact ⟨hguar, F.fail h hrely hs⟩

theorem wp_releaseLeases (F : ControlFrame L I E) (h : I l o) :
    Proc.wp L releaseLeases (fun _ => I) E l o := by
  simp only [releaseLeases, Proc.wp_get_bind]
  refine Proc.wp_seq _ (F.wp_releaseRegistry l.leases h) fun leases l o h => ?_
  simp only [Proc.wp_modify_bind]
  refine Proc.wp_seq _ (F.loop.wp_call rfl (F.locals h ⟨rfl, rfl, rfl⟩)) ?_
  rintro now _ o ⟨rfl, h⟩
  exact Proc.wp_modify (F.locals h ⟨rfl, rfl, releaseAt_names now l.state⟩)

end ControlFrame

end Procherd
