-- SUMMARY: Custody of the process tree: whatever answers the supervisor gets, it does not let go of a tree that it has not tried to kill.
import Procherd.Interaction.Trace
import Procherd.Reference
import Procherd.TreeFrame

/-!
# Custody

The supervisor owns the process tree from the spawn on. An observer of its
commands and their answers keeps whether a tree was spawned, whether the exit of
its root was seen, and how the calls that kill it were answered since. However
the supervisor comes to its end, it has tried to kill the tree before it writes a
terminal state, releases its lock or returns.
-/

namespace Procherd

open Interaction

/-! ## The observer -/

/-- What an observer of the supervisor keeps of the process tree. -/
structure Custody where
  /-- A process tree was spawned. -/
  spawned : Bool := false
  /-- A kill since the spawn reached the tree, or found it gone. -/
  killed : Bool := false
  /-- A kill since the spawn was refused. -/
  refused : Bool := false
  /-- The exit of the root of the tree was observed. -/
  exited : Bool := false
  /-- A kill since the exit reached the tree, or found it gone. -/
  swept : Bool := false
  /-- The document that the last command wrote. -/
  written : Option RunState := none
  /-- The lock was released. -/
  released : Bool := false

namespace Custody

def note (o : Custody) : {β : Type} → Either LockCmd BodyCmd β → β → Custody
  | _, .inl .release, _ => { o with released := true, written := none }
  | _, .inr (.spawn _ _), .ok _ =>
    { o with
      spawned := true, killed := false, refused := false, exited := false, swept := false
      written := none }
  | _, .inr .startKill, r =>
    { o with
      killed := o.killed || treeReached r, refused := o.refused || !treeReached r
      swept := o.swept || o.exited && treeReached r, written := none }
  | _, .inr .tryWait, .ok (some _) => { o with exited := true, written := none }
  | _, .inr (.persistState state), _ => { o with written := some state }
  | _, _, _ => { o with written := none }

/-- What an observer has kept after a trace. -/
def observe (trace : List (Event (Either LockCmd BodyCmd))) : Custody :=
  ledger (fun o _ c b => o.note c b) {} trace

/-- A kill of the tree was called for since the spawn, whatever came of it. -/
def tried (o : Custody) : Bool := o.killed || o.refused

/-- No tree is let go of before a kill was tried, and a run has only ended by itself
    or by a stop once the exit was seen and the rest of the tree was killed. -/
structure Kept (o : Custody) : Prop where
  released : o.released → o.spawned → o.tried
  terminal : ∀ state ∈ o.written, state.status.isTerminal → o.spawned → o.tried
  ended : ∀ state ∈ o.written, state.status = .exited ∨ state.status = .stopped →
    o.spawned ∧ o.exited ∧ o.swept

theorem Kept.of_silent {o : Custody} (hwritten : o.written = none)
    (hreleased : o.released → o.spawned → o.tried) : o.Kept where
  released := hreleased
  terminal _ hstate := by
    rw [hwritten] at hstate
    cases hstate
  ended _ hstate := by
    rw [hwritten] at hstate
    cases hstate

/-- The interface that keeps custody. -/
abbrev watching : Interface (Either LockCmd BodyCmd) Custody :=
  .observed (fun o _ c b => o.note c b) Kept

/-- That of the commands under the lock. -/
abbrev bodyWatching : Interface BodyCmd Custody := watching.comap .inr

theorem tried_startKill (o : Custody) (r : Except IoError Unit) :
    (o.note (.inr .startKill) r).tried := by
  cases hreached : treeReached r <;> simp [tried, note, hreached]

theorem note_quiet (o : Custody) {β : Type} {c : BodyCmd β} (hc : c.quiet) (b : β) :
    o.note (.inr c) b = { o with written := none } := by
  cases c <;> first | rfl | cases hc

/-! ## In custody -/

/-- A kill was tried, or the supervisor still owns the child. -/
structure Held (l : Locals) (o : Custody) : Prop where
  released : o.released = false
  held : o.tried ∨ l.armed

/-- The child runs, as far as the supervisor knows. -/
structure Attended (l : Locals) (o : Custody) : Prop where
  released : o.released = false
  spawned : o.spawned = true
  armed : l.armed = true
  live : l.state.status.isTerminal = false

/-- The child has exited and what was left of its tree was killed. -/
structure Swept (o : Custody) : Prop where
  released : o.released = false
  spawned : o.spawned = true
  tried : o.tried = true
  exited : o.exited = true
  swept : o.swept = true

variable {l : Locals} {o : Custody}

theorem Attended.held (h : Attended l o) : Held l o := ⟨h.released, .inr h.armed⟩

theorem Swept.held (h : Swept o) (l : Locals) : Held l o := ⟨h.released, .inl h.tried⟩

theorem Kept.of_unreleased (hwritten : o.written = none) (h : o.released = false) : o.Kept :=
  .of_silent hwritten fun hreleased => by
    rw [h] at hreleased
    cases hreleased

/-- The failures while the tree is in custody. -/
abbrev failed : AppError → Locals → Custody → Prop := fun _ => Held

theorem attendedFrame : TreeFrame bodyWatching Attended failed where
  quiet c hc l o o' b o'' h hrely hs := by
    cases hrely
    obtain rfl : o'' = { o with written := none } := Eq.trans hs (note_quiet o hc b)
    exact ⟨.of_unreleased rfl h.released, h.released, h.spawned, h.armed, h.live⟩
  aside h hl := ⟨h.released, h.spawned, hl.armed.trans h.armed, by rw [hl.status]; exact h.live⟩
  fail h := h.held

theorem sweptFrame : TreeFrame bodyWatching (fun _ => Swept) failed where
  quiet c hc l o o' b o'' h hrely hs := by
    cases hrely
    obtain rfl : o'' = { o with written := none } := Eq.trans hs (note_quiet o hc b)
    exact ⟨.of_unreleased rfl h.released, h.released, h.spawned, h.tried, h.exited, h.swept⟩
  aside h _ := h
  fail h := h.held _

/-! ## The calls on the tree -/

theorem wp_persistAttended (h : Attended l o) :
    Proc.wp bodyWatching persistState (fun _ => Attended) failed l o := by
  simp only [persistState, Proc.wp_get_bind]
  refine Proc.wp_attempt ?_
  rintro _ rfl r _ rfl
  refine ⟨⟨fun hreleased => ?_, ?_, ?_⟩, ?_⟩
  · cases h.released.symm.trans hreleased
  · rintro _ ⟨⟩ hterminal
    cases h.live.symm.trans hterminal
  · rintro _ ⟨⟩ hended
    have hlive := h.live
    obtain hstatus | hstatus := hended <;>
      · rw [hstatus] at hlive
        cases hlive
  · have h' : Attended l (o.note (.inr (.persistState l.state)) r) :=
      ⟨h.released, h.spawned, h.armed, h.live⟩
    cases r with
    | ok u => exact h'
    | error e => exact h'.held

/-- A call on the tree while the child is attended. -/
theorem wp_child {β : Type} {c : BodyCmd β} {Q : β → Locals → Custody → Prop} (h : Attended l o)
    (hnote : ∀ b, (o.note (.inr c) b).released = o.released ∧ (o.note (.inr c) b).written = none)
    (hQ : ∀ b, Q b l (o.note (.inr c) b)) :
    Proc.wp bodyWatching (Proc.call c) Q failed l o := by
  refine Proc.wp_call ?_
  rintro _ rfl b _ rfl
  obtain ⟨hreleased, hwritten⟩ := hnote b
  exact ⟨.of_unreleased hwritten (hreleased.trans h.released), hQ b⟩

/-- A kill that is not propagated as an error has reached the tree. -/
theorem wp_startKill (h : Attended l o) :
    Proc.wp bodyWatching startKillTolerant
      (fun _ l' o' => l' = l ∧ Attended l o' ∧ o'.tried ∧ o'.exited = o.exited ∧
        (o.exited → o'.swept)) failed l o := by
  refine Proc.wp_seq (fun r l' o' => l' = l ∧ o' = o.note (.inr .startKill) r)
    (wp_child h (fun _ => ⟨rfl, rfl⟩) fun _ => ⟨rfl, rfl⟩) ?_
  rintro r _ _ ⟨rfl, rfl⟩
  have h' : Attended _ (o.note (.inr .startKill) r) := ⟨h.released, h.spawned, h.armed, h.live⟩
  have hswept (hreached : treeReached r) (hexited : o.exited) :
      (o.note (.inr .startKill) r).swept := by
    simp [note, hreached, hexited]
  cases r with
  | ok u => exact Proc.wp_pure ⟨rfl, h', tried_startKill o _, rfl, hswept rfl⟩
  | error e =>
    simp only
    split
    · rename_i hgone
      exact Proc.wp_pure ⟨rfl, h', tried_startKill o _, rfl, hswept hgone⟩
    · exact Proc.wp_throw h'.held

/-- A kill whose outcome does not matter. -/
theorem wp_startKill_attended (h : Attended l o) :
    Proc.wp bodyWatching startKillTolerant (fun _ => Attended) failed l o := by
  refine Proc.wp_mono (wp_startKill h) ?_ fun _ _ _ => id
  rintro _ _ o ⟨rfl, h, -⟩
  exact h

theorem wp_tryWait (h : Attended l o) :
    Proc.wp bodyWatching tryWaitRetry
      (fun status l' o' => Attended l' o' ∧ (status.isSome → o'.exited)) failed l o := by
  refine Proc.wp_repeatUntil Attended (fun l o h => ?_) h
  have hnote (r : Except IoError (Option ExitStatus)) :
      (o.note (.inr .tryWait) r).released = o.released ∧
      (o.note (.inr .tryWait) r).spawned = o.spawned ∧
      (o.note (.inr .tryWait) r).written = none ∧
      ∀ status, r = .ok (some status) → (o.note (.inr .tryWait) r).exited := by
    cases r with
    | error e => exact ⟨rfl, rfl, rfl, fun _ h => by cases h⟩
    | ok status =>
      cases status with
      | none => exact ⟨rfl, rfl, rfl, fun _ h => by cases h⟩
      | some status => exact ⟨rfl, rfl, rfl, fun _ _ => rfl⟩
  refine Proc.wp_seq (fun r l' o' => Attended l' o' ∧ ∀ status, r = .ok (some status) → o'.exited)
    (wp_child h (fun r => ⟨(hnote r).1, (hnote r).2.2.1⟩) fun r => ?_) ?_
  · obtain ⟨hreleased, hspawned, -, hexited⟩ := hnote r
    exact ⟨⟨hreleased.trans h.released, hspawned.trans h.spawned, h.armed, h.live⟩, hexited⟩
  · rintro r l o ⟨h, hexited⟩
    cases r with
    | ok status =>
      refine Proc.wp_pure ⟨h, fun hsome => ?_⟩
      obtain ⟨exitStatus, rfl⟩ := Option.isSome_iff_exists.mp hsome
      exact hexited exitStatus rfl
    | error e =>
      simp only
      split
      · exact Proc.wp_pure h
      · exact Proc.wp_throw h.held

/-! ## Stopping -/

section Stop

variable [Toolchain]

theorem wp_requestStop (graceMs : Nat) (reason : ExitReason) (h : Attended l o) :
    Proc.wp bodyWatching (requestStop graceMs reason) (fun _ => Attended) failed l o := by
  have hdeadline {l : Locals} {o : Custody} (f : Nat → Stopping) (h : Attended l o) :
      Proc.wp bodyWatching (Proc.call BodyCmd.instant >>= fun now => pure (f now))
        (fun _ => Attended) failed l o := by
    refine Proc.wp_seq _ (attendedFrame.wp_call rfl h) ?_
    rintro now _ o ⟨rfl, h⟩
    exact Proc.wp_pure h
  simp only [requestStop, Proc.wp_modify_bind]
  have h : Attended { l with
      state := { l.state with cleanup := { l.state.cleanup with
        descendantCleanupTriggered := true } } } o := ⟨h.released, h.spawned, h.armed, h.live⟩
  split
  · refine Proc.wp_seq (fun _ => Attended) (wp_child h (fun _ => ⟨rfl, rfl⟩) fun r => ?_) ?_
    · exact ⟨h.released, h.spawned, h.armed, h.live⟩
    · intro r l o h
      cases r with
      | ok u => exact hdeadline _ h
      | error e =>
        simp only
        split
        · exact hdeadline _ h
        · exact Proc.wp_throw h.held
  · refine Proc.wp_seq _ (wp_startKill_attended h) fun _ l o h => ?_
    simp only [Proc.wp_modify_bind]
    exact hdeadline _ ⟨h.released, h.spawned, h.armed, h.live⟩

theorem wp_persistTrigger (graceMs : Nat) (reason : ExitReason) (h : Attended l o) :
    Proc.wp bodyWatching (requestStop graceMs reason >>= fun stopping => do
        Proc.modify fun l => { l with stopping := some stopping }
        persistState) (fun _ => Attended) failed l o := by
  refine Proc.wp_seq _ (wp_requestStop graceMs reason h) fun stopping l o h => ?_
  simp only [Proc.wp_modify_bind]
  exact wp_persistAttended ⟨h.released, h.spawned, h.armed, h.live⟩

theorem wp_acceptStop (request : StopRequest) (h : Attended l o) :
    Proc.wp bodyWatching (acceptStop request) (fun _ => Attended) failed l o := by
  simp only [acceptStop, Proc.wp_modify_bind]
  refine Proc.wp_seq _ (attendedFrame.wp_touch ⟨h.released, h.spawned, h.armed, rfl⟩)
    fun _ l o h => ?_
  simp only [Proc.wp_modify_bind]
  exact wp_persistTrigger _ _ ⟨h.released, h.spawned, h.armed, h.live⟩

theorem wp_expireRuntime (h : Attended l o) :
    Proc.wp bodyWatching expireRuntime (fun _ => Attended) failed l o := by
  refine Proc.wp_seq _ (attendedFrame.wp_call rfl h) ?_
  rintro triggeredAtMs l o ⟨rfl, h⟩
  simp only [Proc.wp_get_bind, Proc.wp_modify_bind]
  exact wp_persistTrigger _ _ ⟨h.released, h.spawned, h.armed, rfl⟩

omit [Toolchain] in
theorem wp_enforceStop (stopping : Stopping) (h : Attended l o) :
    Proc.wp bodyWatching (enforceStop stopping) (fun _ => Attended) failed l o := by
  have hforced {l : Locals} {o : Custody} (h : Attended l o) : Proc.wp bodyWatching
      (do
        Proc.modify fun l => { l with
          stopping := some { stopping with forceSent := true }
          state := { l.state with cleanup := { l.state.cleanup with forceUsed := true } } }
        touch
        persistState) (fun _ => Attended) failed l o := by
    simp only [Proc.wp_modify_bind]
    have h : Attended { l with
        stopping := some { stopping with forceSent := true }
        state := { l.state with cleanup := { l.state.cleanup with forceUsed := true } } } o :=
      ⟨h.released, h.spawned, h.armed, h.live⟩
    exact Proc.wp_seq _ (attendedFrame.wp_touch h) fun _ l o h => wp_persistAttended h
  refine Proc.wp_seq (fun _ => Attended) ?_ fun due l o h => ?_
  · unfold forceDue
    split
    · exact Proc.wp_pure h
    · refine Proc.wp_seq _ (attendedFrame.wp_call rfl h) ?_
      rintro now _ o ⟨rfl, h⟩
      exact Proc.wp_pure h
  cases due with
  | false => exact Proc.wp_pure h
  | true =>
    refine Proc.wp_seq _ (wp_startKill_attended h) fun killed l o h => ?_
    cases killed with
    | false => exact hforced h
    | true =>
      refine Proc.wp_seq (fun _ => Attended) (Proc.wp_modify ?_) fun _ l o h => hforced h
      exact ⟨h.released, h.spawned, h.armed, h.live⟩

theorem wp_superviseStop (path : PathBuf) (h : Attended l o) :
    Proc.wp bodyWatching (superviseStop path) (fun _ => Attended) failed l o := by
  simp only [superviseStop, Proc.wp_get_bind]
  split
  · simp only [watchTriggers, Proc.wp_get_bind]
    refine Proc.wp_seq _ (attendedFrame.wp_readStopRequest path l.spec h) ?_
    rintro r _ o ⟨rfl, h⟩
    cases r with
    | some request => exact wp_acceptStop request h
    | none =>
      refine Proc.wp_seq _ (attendedFrame.wp_deadlineExpired h) ?_
      rintro expired _ o ⟨rfl, h⟩
      cases expired with
      | true => exact wp_expireRuntime h
      | false => exact Proc.wp_pure h
  · exact wp_enforceStop _ h

/-! ## The exit -/

omit [Toolchain] in
theorem wp_killRemaining (h : Attended l o) (hexited : o.exited) :
    Proc.wp bodyWatching killRemaining (fun _ _ => Swept) failed l o := by
  refine Proc.wp_seq (fun _ _ => Swept) (Proc.wp_mono (wp_startKill h) ?_ fun _ _ _ => id)
    fun killed l o h => ?_
  · rintro _ _ o ⟨rfl, h, htried, hsame, hswept⟩
    exact ⟨h.released, h.spawned, htried, hsame.trans hexited, hswept hexited⟩
  · cases killed with
    | false => exact Proc.wp_pure h
    | true => exact Proc.wp_modify h

omit [Toolchain] in
/-- Once the tree is swept, any state may be written. -/
theorem wp_persistSwept (h : Swept o) :
    Proc.wp bodyWatching persistState (fun _ _ => Swept) failed l o := by
  simp only [persistState, Proc.wp_get_bind]
  refine Proc.wp_attempt ?_
  rintro _ rfl r _ rfl
  refine ⟨⟨fun _ _ => h.tried, fun _ _ _ _ => h.tried, fun _ _ _ => ?_⟩, ?_⟩
  · exact ⟨h.spawned, h.exited, h.swept⟩
  · have h' : Swept (o.note (.inr (.persistState l.state)) r) :=
      ⟨h.released, h.spawned, h.tried, h.exited, h.swept⟩
    cases r with
    | ok u => exact h'
    | error e => exact h'.held l

theorem wp_handleExit (exitStatus : ExitStatus) (h : Attended l o) (hexited : o.exited) :
    Proc.wp bodyWatching (handleExit exitStatus) (fun _ _ => Swept) failed l o := by
  refine Proc.wp_seq _ (wp_killRemaining h hexited) fun _ l o h => ?_
  simp only [Proc.wp_modify_bind]
  exact sweptFrame.wp_windUp h fun _ _ _ h => wp_persistSwept h

theorem wp_superviseRound (path : PathBuf) (h : Attended l o) :
    Proc.wp bodyWatching (superviseRound path)
      (fun r l o => r.elim (Attended l o) fun _ => Swept o) failed l o := by
  refine Proc.wp_seq _ (attendedFrame.output.wp_drainAvailable h) fun drain l o h => ?_
  refine Proc.wp_seq _ (attendedFrame.wp_pollReadiness h) fun polled l o h => ?_
  refine Proc.wp_seq _ (attendedFrame.wp_persistReadiness wp_persistAttended _ h)
    fun _ l o h => ?_
  refine Proc.wp_seq _ (wp_superviseStop path h) fun _ l o h => ?_
  refine Proc.wp_seq _ (wp_tryWait h) ?_
  rintro status l o ⟨h, hexited⟩
  cases status with
  | some exitStatus =>
    exact Proc.wp_seq _ (wp_handleExit exitStatus h (hexited rfl)) fun _ _ _ h => Proc.wp_pure h
  | none =>
    refine Proc.wp_seq _ (attendedFrame.wp_snapshotIfDue wp_persistAttended h) fun _ l o h => ?_
    refine Proc.wp_seq _ (attendedFrame.wp_call rfl h) ?_
    rintro _ _ o ⟨rfl, h⟩
    exact Proc.wp_pure h

/-! ## The scopes -/

omit [Toolchain] in
/-- A command of the cleanup of a scope, whatever the outcome of the scope was. -/
theorem wp_heldCall {β : Type} {c : BodyCmd β} {E : AppError → Locals → Custody → Prop}
    (hc : c.quiet) (h : Held l o) :
    Proc.wp bodyWatching (Proc.call c) (fun _ => Held) E l o := by
  refine Proc.wp_call ?_
  rintro _ rfl b o' hs
  obtain rfl : o' = { o with written := none } := Eq.trans hs (note_quiet o hc b)
  exact ⟨.of_unreleased rfl h.released, h.released, h.held⟩

omit [Toolchain] in
/-- A scope whose cleanup is quiet. -/
theorem wp_heldScope {m cleanup : Supervised Unit}
    (hcleanup : ∀ {E : AppError → Locals → Custody → Prop} {l o}, Held l o →
      Proc.wp bodyWatching cleanup (fun _ => Held) E l o)
    (hm : Proc.wp bodyWatching m (fun _ => Held) failed l o) :
    Proc.wp bodyWatching (Proc.ensuring m cleanup) (fun _ => Held) failed l o :=
  Proc.wp_ensuring (Proc.wp_mono hm (fun _ _ _ h => hcleanup h) fun _ _ _ h => hcleanup h)

theorem wp_superviseOutput (path : PathBuf) (h : Attended l o) :
    Proc.wp bodyWatching (superviseOutput path) (fun _ => Held) failed l o := by
  refine wp_heldScope (fun h => wp_heldCall rfl h) ?_
  refine Proc.wp_seq _ (attendedFrame.wp_call rfl h) ?_
  rintro _ _ o ⟨rfl, h⟩
  refine Proc.wp_seq _ (attendedFrame.wp_call rfl h) ?_
  rintro _ _ o ⟨rfl, h⟩
  refine Proc.wp_seq _ (attendedFrame.wp_call rfl h) ?_
  rintro _ _ o ⟨rfl, h⟩
  refine Proc.wp_seq _ (attendedFrame.wp_call rfl h) ?_
  rintro _ _ o ⟨rfl, h⟩
  refine Proc.wp_seq _ (attendedFrame.wp_attempt rfl h) ?_
  rintro _ _ o ⟨rfl, h⟩
  refine Proc.wp_seq _ (attendedFrame.wp_call rfl h) ?_
  rintro now _ o ⟨rfl, h⟩
  simp only [Proc.wp_modify_bind]
  refine wp_heldScope (fun {E l o} h => ?_) ?_
  · simp only [dropLogs, Proc.wp_get_bind]
    split
    · exact Proc.wp_pure h
    · exact wp_heldCall rfl h
  · refine Proc.wp_repeatUntil Attended (fun l o h => ?_) ⟨h.released, h.spawned, h.armed, h.live⟩
    refine Proc.wp_mono (wp_superviseRound path h) (fun r l o h => ?_) fun _ _ _ => id
    cases r with
    | none => exact h
    | some u => exact Swept.held h l

/-- What an end of the supervisor leaves. -/
structure Over (o : Custody) : Prop where
  released : o.released = false
  tried : o.spawned → o.tried

omit [Toolchain] in
/-- The drop of the child tries to kill what is still held. -/
theorem wp_dropChild {E : AppError → Locals → Custody → Prop} (h : Held l o) :
    Proc.wp bodyWatching dropChild (fun _ _ => Over) E l o := by
  simp only [dropChild, Proc.wp_get_bind]
  split
  · refine Proc.wp_seq (fun _ _ => Over) (Proc.wp_call ?_) fun _ _ _ h => Proc.wp_pure h
    rintro _ rfl r _ rfl
    exact ⟨.of_unreleased rfl h.released, h.released, fun _ => tried_startKill o r⟩
  · rename_i hdisarmed
    exact Proc.wp_pure ⟨h.released, fun _ => h.held.resolve_right hdisarmed⟩

theorem wp_superviseChild (path : PathBuf) (pid : Nat) (hreleased : o.released = false)
    (hspawned : o.spawned = true) :
    Proc.wp bodyWatching (superviseChild path pid) (fun _ _ => Over) (fun _ _ => Over) l o := by
  refine Proc.wp_ensuring (Proc.wp_mono ?_ (fun _ _ _ h => wp_dropChild h)
    fun _ _ _ h => wp_dropChild h)
  simp only [Proc.wp_modify_bind]
  refine Proc.wp_bind (Proc.wp_call ?_)
  rintro _ rfl spawnedAtMs _ rfl
  refine ⟨.of_unreleased rfl hreleased, ?_⟩
  simp only [Proc.wp_modify_bind]
  refine Proc.wp_seq _ (attendedFrame.wp_touch ⟨hreleased, hspawned, rfl, rfl⟩) fun _ l o h => ?_
  simp only [Proc.wp_modify_bind]
  refine Proc.wp_seq _ (wp_persistAttended ⟨h.released, h.spawned, h.armed, h.live⟩)
    fun _ l o h => ?_
  exact wp_superviseOutput path h

/-! ## Before the spawn -/

/-- No tree has been spawned. -/
structure Free (o : Custody) : Prop where
  released : o.released = false
  spawned : o.spawned = false

omit [Toolchain] in
theorem Free.over (h : Free o) : Over o :=
  ⟨h.released, fun hspawned => by cases h.spawned.symm.trans hspawned⟩

omit [Toolchain] in
theorem keeps_free : bodyWatching.Keeps BodyCmd.quiet Free := by
  rintro β c hc o _ b o' h rfl hs
  obtain rfl : o' = { o with written := none } := Eq.trans hs (note_quiet o hc b)
  exact ⟨.of_unreleased rfl h.released, h.released, h.spawned⟩

/-- No tree has been spawned, and the state does not tell of an end. -/
structure Unstarted (l : Locals) (o : Custody) : Prop where
  free : Free o
  unended : ¬ (l.state.status = .exited ∨ l.state.status = .stopped)

omit [Toolchain] in
theorem unstartedFrame : TreeFrame bodyWatching Unstarted (fun _ _ => Free) where
  quiet c hc _ _ _ _ _ h hrely hs :=
    have ⟨hguar, hfree⟩ := keeps_free c hc h.free hrely hs
    ⟨hguar, hfree, h.unended⟩
  aside h hl := ⟨h.free, by rw [hl.status]; exact h.unended⟩
  fail h := h.free

omit [Toolchain] in
/-- A state that does not tell of an end, before the spawn. -/
theorem wp_persistFree {σ : Type} {s : σ} {state : RunState} (h : Free o)
    (hstate : ¬ (state.status = .exited ∨ state.status = .stopped)) :
    Proc.wp bodyWatching (Proc.attempt (.persistState state)) (fun _ s' o' => s' = s ∧ Free o')
      (fun _ _ => Free) s o := by
  refine Proc.wp_attempt ?_
  rintro _ rfl r _ rfl
  have h' : Free (o.note (.inr (.persistState state)) r) := ⟨h.released, h.spawned⟩
  refine ⟨⟨fun hreleased => ?_, fun _ _ _ hspawned => ?_, ?_⟩, ?_⟩
  · cases h'.released.symm.trans hreleased
  · cases h'.spawned.symm.trans hspawned
  · rintro _ ⟨⟩ hended
    exact absurd hended hstate
  · cases r with
    | ok u => exact ⟨rfl, h'⟩
    | error e => exact h'

omit [Toolchain] in
theorem wp_failSpawn (error : IoError) (h : Free o) :
    Proc.wp bodyWatching (failSpawn error) (fun _ _ => Over) (fun _ _ => Free) l o := by
  simp only [failSpawn, Proc.wp_modify_bind]
  refine Proc.wp_seq _ (unstartedFrame.wp_touch ⟨h, by simp⟩) fun _ l o h => ?_
  refine Proc.wp_seq _ (unstartedFrame.wp_call rfl h) ?_
  rintro finishedAtMs l o ⟨rfl, h⟩
  simp only [Proc.wp_modify_bind]
  refine Proc.wp_seq _ (unstartedFrame.wp_releaseLeases ⟨h.free, h.unended⟩) fun _ l o h => ?_
  refine Proc.wp_seq _ (wp_persistFree h.free h.unended) ?_
  rintro _ _ o ⟨rfl, hfree⟩
  simp only [Proc.wp_get_bind]
  exact Proc.wp_throw hfree

omit [Toolchain] in
theorem wp_dropLeases {E : AppError → Locals → Custody → Prop} (h : Over o) :
    Proc.wp bodyWatching dropLeases (fun _ _ => Over) E l o := by
  simp only [dropLeases, Proc.wp_get_bind]
  refine Proc.wp_seq (fun _ _ => Over) (Proc.wp_outcome ?_) fun _ _ _ h => Proc.wp_pure h
  unfold releaseRegistry
  split
  · exact Proc.wp_pure h
  · refine Proc.wp_seq (fun _ _ => Over) (Proc.wp_attempt ?_) fun _ _ _ h => Proc.wp_pure h
    rintro _ rfl r _ rfl
    have h' : Over (o.note (.inr (.releaseRegistry l.leases.runId)) r) := ⟨h.released, h.tried⟩
    refine ⟨.of_unreleased rfl h.released, ?_⟩
    cases r with
    | ok u => exact h'
    | error e => exact h'

theorem wp_superviseLeased (path : PathBuf) (h : Unstarted l o) :
    Proc.wp bodyWatching (superviseLeased path) (fun _ _ => Over) (fun _ _ => Over) l o := by
  refine Proc.wp_ensuring (Proc.wp_mono ?_ (fun _ _ _ h => wp_dropLeases h)
    fun _ _ _ h => wp_dropLeases h)
  refine Proc.wp_seq _ (Proc.wp_mono (wp_persistFree h.free h.unended) (fun _ _ _ => id)
    fun _ _ _ h => h.over) ?_
  rintro _ l o ⟨rfl, hfree⟩
  refine Proc.wp_seq _ (Proc.wp_call_keeps keeps_free rfl hfree) ?_
  clear hfree h
  rintro handoffAtMs l o ⟨rfl, h⟩
  simp only [Proc.wp_modify_bind, Proc.wp_get_bind]
  refine Proc.wp_seq (fun r _ o => o.released = false ∧ (r.isOk → o.spawned = true) ∧
    (r.isOk = false → o.spawned = false)) (Proc.wp_call ?_) fun r l o h => ?_
  · rintro _ rfl r _ rfl
    cases r with
    | ok pid =>
      exact ⟨.of_unreleased rfl h.released, h.released, fun _ => rfl, fun h => by cases h⟩
    | error e =>
      exact ⟨.of_unreleased rfl h.released, h.released, (fun h => by cases h), fun _ => h.spawned⟩
  · obtain ⟨hreleased, hok, herror⟩ := h
    cases r with
    | ok pid => exact wp_superviseChild path pid hreleased (hok rfl)
    | error e =>
      exact Proc.wp_mono (wp_failSpawn e ⟨hreleased, herror rfl⟩) (fun _ _ _ => id)
        fun _ _ _ h => h.over

/-! ## The whole of the supervisor -/

/-- The allocation keeps the status of the state. -/
theorem wp_acquire {σ : Type} {s : σ} (state : RunState) (requests : LeaseRequests) (h : Free o) :
    Proc.wp bodyWatching (LeaseAllocation.acquire state requests)
      (fun r _ o => r.2.status = state.status ∧ Free o) (fun _ _ => Free) s o := by
  have hattempt {α : Type} {c : BodyCmd (Except AppError α)} (hc : c.quiet) {s : σ} {o : Custody}
      (h : Free o) :
      Proc.wp bodyWatching (Proc.attempt c) (fun _ _ => Free) (fun _ _ => Free) s o :=
    Proc.wp_mono (Proc.wp_attempt_keeps keeps_free hc (fun _ _ h => h) h) (fun _ _ _ h => h.2)
      fun _ _ _ => id
  refine Proc.wp_bind (Proc.wp_ofExcept (fun runId _ => ?_) fun _ _ => h)
  refine Proc.wp_bind (Proc.wp_ofExcept (fun _ _ => ?_) fun _ _ => h)
  refine Proc.wp_bind (Proc.wp_ofExcept (fun _ _ => ?_) fun _ _ => h)
  refine Proc.wp_seq _ (Proc.wp_call_keeps keeps_free rfl h) ?_
  rintro acquiredAtMs s o ⟨rfl, h⟩
  refine Proc.wp_seq (fun _ _ => Free) ?_ fun tempPaths s o h => ?_
  · unfold createTempDirectories
    split
    · exact Proc.wp_pure h
    · exact hattempt rfl h
  refine Proc.wp_seq (fun _ _ => Free) ?_ fun ports s o h => ?_
  · unfold reservePortNames
    split
    · exact Proc.wp_pure h
    · exact hattempt rfl h
  split
  · refine Proc.wp_seq (fun _ _ => Free) (wp_discardLeases ?_ h) fun _ _ _ h => Proc.wp_throw h
    intro s o h
    unfold releaseRegistry
    split
    · exact Proc.wp_pure h
    · exact Proc.wp_seq (fun _ _ => Free) (hattempt rfl h) fun _ _ _ h => Proc.wp_pure h
  · rename_i populated environment hpopulate
    refine Proc.wp_pure ⟨?_, h⟩
    rw [LeaseAllocation.populateState_frame hpopulate]

theorem wp_superviseLocked (path : PathBuf) (h : Free o) :
    Proc.wp bodyWatching (superviseLocked path) (fun _ _ => Over) (fun _ _ => Over) () o := by
  have hover (_ : AppError) (o : Custody) (h : Free o) : Over o := h.over
  refine Proc.wp_seq (fun _ _ => Free) ?_ fun r s o h => ?_
  · refine Proc.wp_seq _ (Proc.wp_attempt_keeps keeps_free rfl hover h) ?_
    rintro spec _ o ⟨rfl, h⟩
    refine Proc.wp_bind (Proc.wp_throwIf (fun _ => h.over) fun _ => ?_)
    refine Proc.wp_seq _ (Proc.wp_attempt_keeps keeps_free rfl hover h) ?_
    rintro state _ o ⟨rfl, h⟩
    exact Proc.wp_bind (Proc.wp_throwIf (fun _ => h.over) fun _ => Proc.wp_pure h)
  obtain ⟨spec, state⟩ := r
  refine Proc.wp_seq _ (Proc.wp_attempt_keeps keeps_free rfl hover h) ?_
  rintro _ _ o ⟨rfl, h⟩
  refine Proc.wp_seq _ (Proc.wp_call_keeps keeps_free rfl h) ?_
  rintro updatedAtMs _ o ⟨rfl, h⟩
  refine Proc.wp_seq _ (Proc.wp_call_keeps keeps_free rfl h) ?_
  rintro supervisorPid _ o ⟨rfl, h⟩
  refine Proc.wp_seq _ (Proc.wp_mono (wp_persistFree h (by simp)) (fun _ _ _ => id)
    fun _ _ _ h => h.over) ?_
  rintro _ _ o ⟨rfl, h⟩
  refine Proc.wp_seq _ (Proc.wp_mono (wp_acquire _ _ h) (fun _ _ _ => id) fun _ _ _ h => h.over) ?_
  rintro ⟨leases, state⟩ s o ⟨hstatus, h⟩
  refine Proc.wp_seq (fun _ _ => Over) (Proc.wp_withStore (wp_superviseLeased path ⟨h, ?_⟩)) ?_
  · rw [hstatus]
    simp
  · exact fun _ _ _ h => Proc.wp_ofExcept (fun _ _ => h) fun _ _ => h

omit [Toolchain] in
theorem keeps_over : bodyWatching.Keeps BodyCmd.quiet Over := by
  rintro β c hc o _ b o' h rfl hs
  obtain rfl : o' = { o with written := none } := Eq.trans hs (note_quiet o hc b)
  exact ⟨.of_unreleased rfl h.released, h.released, h.tried⟩

/-- The failed state is written after the scopes of the supervisor. -/
theorem wp_superviseAndMark (path : PathBuf) (h : Free o) :
    Proc.wp bodyWatching (superviseAndMark path) (fun _ _ => Over) (fun _ _ => Over) () o := by
  refine Proc.wp_seq (fun _ _ => Over) (Proc.wp_outcome (wp_superviseLocked path h))
    fun r s o h => ?_
  cases r with
  | ok u => exact Proc.wp_pure h
  | error e =>
    refine Proc.wp_seq (fun _ _ => Over) ?_ fun _ _ _ h => Proc.wp_throw h
    refine Proc.wp_seq _ (Proc.wp_call_keeps keeps_over rfl h) ?_
    rintro r s o ⟨rfl, h⟩
    cases r with
    | error e => exact Proc.wp_pure h
    | ok state =>
      simp only
      split
      · exact Proc.wp_pure h
      refine Proc.wp_seq _ (Proc.wp_call_keeps keeps_over rfl h) ?_
      rintro updatedAtMs s o ⟨rfl, h⟩
      refine Proc.wp_seq _ (Proc.wp_call_keeps keeps_over rfl h) ?_
      rintro finishedAtMs s o ⟨rfl, h⟩
      refine Proc.wp_seq (fun _ _ => Over) (Proc.wp_call ?_) fun _ _ _ h => Proc.wp_pure h
      rintro _ rfl r _ rfl
      refine ⟨⟨fun _ => h.tried, fun _ _ _ => h.tried, ?_⟩, h.released, h.tried⟩
      rintro _ ⟨⟩ hended
      obtain hstatus | hstatus := hended <;> cases hstatus

/-- The whole of the supervisor, the lock included. -/
theorem wp_supervise (path : PathBuf) :
    Proc.wp watching (supervise path) (fun _ _ o => o.spawned → o.tried)
      (fun _ _ o => o.spawned → o.tried) () {} := by
  refine Proc.wp_seq (fun _ _ => Free) (Proc.wp_attempt ?_) fun _ s o h => ?_
  · rintro _ rfl r _ rfl
    have h' : Free (({} : Custody).note (.inl .acquire) r) := ⟨rfl, rfl⟩
    refine ⟨.of_unreleased rfl rfl, ?_⟩
    cases r with
    | ok u => exact h'
    | error e => exact h'.over.tried
  refine Proc.wp_seq (fun _ _ => Over)
    (Proc.wp_outcome (Proc.wp_hoist (wp_superviseAndMark path h))) fun r s o h => ?_
  refine Proc.wp_seq (fun _ _ o => o.spawned → o.tried) (Proc.wp_call ?_) fun _ s o h =>
    Proc.wp_ofExcept (fun _ _ => h) fun _ _ => h
  rintro _ rfl b _ rfl
  exact ⟨.of_silent rfl fun _ => h.tried, h.tried⟩

end Stop

/-- What an observer of the supervisor has kept after a run. -/
def ofRun [Toolchain] (setup : Setup) (ms : List system.Move) : Custody :=
  observe (Machine.trace (M := system) .supervisor setup.initial ms)

end Custody

variable [Toolchain]

/-- In every run, whatever fails: as long as the supervisor has not tried to kill
    the tree that it spawned, it neither writes a terminal state nor releases its
    lock nor ends, and it reports an exit or a stop only after a kill that reached
    the tree, or found it gone, when it had seen the exit. -/
theorem tree_custody (setup : Setup) {ms : List system.Move} {cfg : system.Config}
    (h : Machine.run setup.initial ms = some cfg) :
    (Custody.ofRun setup ms).Kept ∧
    ∀ r, cfg.thread .supervisor = .ret r →
      (Custody.ofRun setup ms).spawned → (Custody.ofRun setup ms).tried := by
  have hwp : (setup.initial.thread .supervisor).wp Custody.watching
      (fun _ o => o.spawned → o.tried) ({} : Custody) := by
    refine Prog.wp_bind (Prog.wp_mono ?_ (Custody.wp_supervise _))
    rintro ⟨e | u, s⟩ o htried
    · exact Prog.wp_ret htried
    · exact Prog.wp_ret htried
  have hkept : ({} : Custody).Kept := .of_unreleased rfl rfl
  obtain ⟨hgood, hrest⟩ := (Machine.emits_of_run (i := Thread.supervisor) h).wp hwp hkept
  refine ⟨hgood, fun r hr => ?_⟩
  rw [hr] at hrest
  exact Prog.wp_ret_elim hrest

end Procherd

/-! ## Reference runs -/

namespace Procherd.Reference

open Interaction

/-- A run from its creation to the release of the lock. -/
theorem tree_custody_finished : ∃ (ms : List system.Move) (cfg : system.Config),
    Machine.run (setup idle).initial ms = some cfg ∧ cfg.world.phase = .released ∧
    (Custody.ofRun (setup idle) ms).spawned ∧ (Custody.ofRun (setup idle) ms).tried := by
  have hrun : ((Machine.run (setup idle).initial (startUp ++ finish)).map fun cfg =>
      (cfg.world.phase, (Custody.ofRun (setup idle) (startUp ++ finish)).released,
        (Custody.ofRun (setup idle) (startUp ++ finish)).spawned)) =
      some (.released, true, true) := by decide +kernel
  obtain ⟨cfg, hcfg, hfound⟩ := Option.map_eq_some_iff.mp hrun
  obtain ⟨hphase, hfound⟩ := Prod.mk.inj hfound
  obtain ⟨hreleased, hspawned⟩ := Prod.mk.inj hfound
  exact ⟨_, cfg, hcfg, hphase, hspawned,
    (tree_custody (setup idle) hcfg).1.released hreleased hspawned⟩

end Procherd.Reference
