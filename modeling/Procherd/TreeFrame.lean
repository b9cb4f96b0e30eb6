-- SUMMARY: The frame rule of the process tree: what the supervisor does besides signalling and killing it.
import Procherd.ControlFrame
import Procherd.OutputFrame

/-!
# The frame of the process tree

Between the calls that start, signal, kill and reap the process tree, the
supervisor drains output, polls the readiness and the stop request, releases the
leases and takes snapshots. An assertion on the tree and on what the state tells
of it is kept by all of that.
-/

namespace Procherd

open Interaction

/-- The commands that neither touch the process tree nor write the state. -/
def BodyCmd.quiet {β : Type} : BodyCmd β → Bool
  | .spawn _ _ | .signal _ | .startKill | .tryWait | .persistState _ => false
  | _ => true

theorem BodyCmd.quiet_of_stopFile {β : Type} {c : BodyCmd β} (h : c.stopFile) : c.quiet := by
  cases c <;> first | rfl | cases h

theorem BodyCmd.quiet_of_output {β : Type} {c : BodyCmd β} (h : c.output) : c.quiet := by
  cases c <;> first | rfl | cases h

/-- The updates that have nothing to do with the tree. -/
structure Locals.Aside (l l' : Locals) : Prop where
  spec : l'.spec = l.spec
  armed : l'.armed = l.armed
  stopping : l'.stopping = l.stopping
  status : l'.state.status = l.state.status
  process : l'.state.process = l.state.process
  cleanup : l'.state.cleanup = l.state.cleanup
  limits : l'.state.limits = l.state.limits
  exit : l'.state.exit = l.state.exit

variable {O : Type}

/-- `I` is kept by what the supervisor does besides, over `L`, and every failure
    of it is a failure in `E`. -/
structure TreeFrame (L : Interface BodyCmd O) (I : Locals → O → Prop)
    (E : AppError → Locals → O → Prop) : Prop where
  quiet : ∀ {β : Type} (c : BodyCmd β), c.quiet → ∀ {l o o' b o''}, I l o → L.rely o o' →
    L.step c o' b o'' → L.guar c o' b o'' ∧ I l o''
  aside : ∀ {l l' o}, I l o → l.Aside l' → I l' o
  fail : ∀ {e l o}, I l o → E e l o

namespace TreeFrame

variable {L : Interface BodyCmd O} {I : Locals → O → Prop} {E : AppError → Locals → O → Prop}
  {l : Locals} {o : O}

theorem wp_call (F : TreeFrame L I E) {β : Type} {c : BodyCmd β} (hc : c.quiet) (h : I l o) :
    Proc.wp L (Proc.call c) (fun _ l' o' => l' = l ∧ I l o') E l o :=
  Proc.wp_call fun _ hrely _ _ hs =>
    have ⟨hguar, h'⟩ := F.quiet c hc h hrely hs
    ⟨hguar, rfl, h'⟩

theorem wp_attempt (F : TreeFrame L I E) {α : Type} {c : BodyCmd (Except AppError α)}
    (hc : c.quiet) (h : I l o) :
    Proc.wp L (Proc.attempt c) (fun _ l' o' => l' = l ∧ I l o') E l o := by
  refine Proc.wp_attempt fun o' hrely r o'' hs => ?_
  have ⟨hguar, h'⟩ := F.quiet c hc h hrely hs
  cases r with
  | ok a => exact ⟨hguar, rfl, h'⟩
  | error e => exact ⟨hguar, F.fail h'⟩

theorem output (F : TreeFrame L I E) : OutputFrame L I E where
  command c hc := F.quiet c (BodyCmd.quiet_of_output hc)
  logs _ h := F.aside h ⟨rfl, rfl, rfl, rfl, rfl, rfl, rfl, rfl⟩
  readiness _ _ h := F.aside h ⟨rfl, rfl, rfl, rfl, rfl, rfl, rfl, rfl⟩
  appendFailed _ h hrely hs :=
    have ⟨_, h'⟩ := F.quiet _ rfl h hrely hs
    F.fail (F.aside h' ⟨rfl, rfl, rfl, rfl, rfl, rfl, rfl, rfl⟩)
  drainTimeout h := F.fail h

theorem wp_touch (F : TreeFrame L I E) (h : I l o) : Proc.wp L touch (fun _ => I) E l o := by
  refine Proc.wp_seq _ (F.wp_call rfl h) ?_
  rintro now _ o ⟨rfl, h⟩
  exact Proc.wp_modify (F.aside h ⟨rfl, rfl, rfl, rfl, rfl, rfl, rfl, rfl⟩)

theorem wp_markStateWrite (F : TreeFrame L I E) (h : I l o) :
    Proc.wp L markStateWrite (fun _ => I) E l o := by
  refine Proc.wp_seq _ (F.wp_call rfl h) ?_
  rintro now _ o ⟨rfl, h⟩
  exact Proc.wp_modify (F.aside h ⟨rfl, rfl, rfl, rfl, rfl, rfl, rfl, rfl⟩)

theorem wp_pollReadiness (F : TreeFrame L I E) (h : I l o) :
    Proc.wp L pollReadiness (fun _ => I) E l o := by
  refine Proc.wp_seq _ (F.wp_call rfl h) ?_
  rintro inputs _ o ⟨rfl, h⟩
  simp only [Proc.wp_get_bind, Proc.wp_modify_bind, Proc.wp_pure_iff]
  exact F.aside h ⟨rfl, rfl, rfl, rfl, rfl, rfl, rfl, rfl⟩

theorem wp_deadlineExpired (F : TreeFrame L I E) (h : I l o) :
    Proc.wp L deadlineExpired (fun _ l' o' => l' = l ∧ I l o') E l o := by
  simp only [deadlineExpired, Proc.wp_get_bind]
  split
  · exact Proc.wp_pure ⟨rfl, h⟩
  · refine Proc.wp_seq _ (F.wp_call rfl h) ?_
    rintro now _ o ⟨rfl, h⟩
    exact Proc.wp_pure ⟨rfl, h⟩

theorem wp_releaseLeases (F : TreeFrame L I E) (h : I l o) :
    Proc.wp L releaseLeases (fun _ => I) E l o := by
  simp only [releaseLeases, Proc.wp_get_bind]
  refine Proc.wp_seq (fun _ => I) ?_ fun leases l o h => ?_
  · unfold releaseRegistry
    split
    · exact Proc.wp_pure h
    · refine Proc.wp_seq _ (F.wp_attempt rfl h) ?_
      rintro _ _ o ⟨rfl, h⟩
      exact Proc.wp_pure h
  simp only [Proc.wp_modify_bind]
  refine Proc.wp_seq _ (F.wp_call rfl (F.aside h ⟨rfl, rfl, rfl, rfl, rfl, rfl, rfl, rfl⟩)) ?_
  rintro now _ o ⟨rfl, h⟩
  exact Proc.wp_modify (F.aside h ⟨rfl, rfl, rfl, rfl, rfl, rfl, rfl, rfl⟩)

section Persist

variable (hpersist : ∀ {l o}, I l o → Proc.wp L persistState (fun _ => I) E l o)

include hpersist

theorem wp_persistReadiness (F : TreeFrame L I E) (changed : Bool) (h : I l o) :
    Proc.wp L (persistReadiness changed) (fun _ => I) E l o := by
  unfold persistReadiness
  split
  · refine Proc.wp_seq _ (F.wp_touch h) fun _ l o h => ?_
    exact Proc.wp_seq _ (hpersist h) fun _ l o h => F.wp_markStateWrite h
  · exact Proc.wp_pure h

theorem wp_snapshotIfDue (F : TreeFrame L I E) (h : I l o) :
    Proc.wp L snapshotIfDue (fun _ => I) E l o := by
  refine Proc.wp_seq _ (F.wp_call rfl h) ?_
  rintro now l o ⟨rfl, h⟩
  simp only [Proc.wp_get_bind]
  split
  · simp only [Proc.wp_modify_bind]
    have h : I { l with state := { l.state with logs := l.logs.snapshot } } o :=
      F.aside h ⟨rfl, rfl, rfl, rfl, rfl, rfl, rfl, rfl⟩
    refine Proc.wp_seq _ (F.wp_touch h) fun _ l o h => ?_
    exact Proc.wp_seq _ (hpersist h) fun _ l o h => F.wp_markStateWrite h
  · exact Proc.wp_pure h

end Persist

section Rounds

variable [Toolchain]

theorem wp_finishLogs (F : TreeFrame L I E) (h : I l o) :
    Proc.wp L finishLogs (fun _ => I) E l o := by
  simp only [finishLogs, Proc.wp_modify_bind]
  refine Proc.wp_seq _ (F.wp_attempt rfl (F.aside h ⟨rfl, rfl, rfl, rfl, rfl, rfl, rfl, rfl⟩)) ?_
  rintro _ _ o ⟨rfl, h⟩
  exact Proc.wp_modify (F.aside h ⟨rfl, rfl, rfl, rfl, rfl, rfl, rfl, rfl⟩)

theorem wp_readStopRequest (F : TreeFrame L I E) (path : PathBuf) (spec : SupervisorSpec)
    (h : I l o) :
    Proc.wp L (readStopRequest path spec) (fun _ l' o' => l' = l ∧ I l o') E l o :=
  wp_readStopRequest_keeps (J := I l)
    (fun _ hc _ _ _ _ h hrely hs => F.quiet _ (BodyCmd.quiet_of_stopFile hc) h hrely hs)
    (fun _ _ h => F.fail h) path spec h

/-- What follows the last kill, up to the last state. -/
theorem wp_windUp (F : TreeFrame L I E) {f : Nat → Locals → Locals}
    {Q : Unit → Locals → O → Prop} (h : I l o)
    (hlast : ∀ finishedAtMs l o, I l o → Proc.wp L persistState Q E (f finishedAtMs l) o) :
    Proc.wp L (do
        drainUntilClosed LOG_DRAIN_LIMIT
        Proc.modify fun l => { l with state := { l.state with
          readiness := (ReadinessTracker.processExited l.state.readiness).1 } }
        finishLogs
        releaseLeases
        touch
        let finishedAtMs ← Proc.call .now
        Proc.modify (f finishedAtMs)
        persistState) Q E l o := by
  refine Proc.wp_seq _ (F.output.wp_drainUntilClosed _ h) fun _ l o h => ?_
  simp only [Proc.wp_modify_bind]
  refine Proc.wp_seq _ (F.wp_finishLogs (F.aside h ⟨rfl, rfl, rfl, rfl, rfl, rfl, rfl, rfl⟩)) fun _ l o h => ?_
  refine Proc.wp_seq _ (F.wp_releaseLeases h) fun _ l o h => ?_
  refine Proc.wp_seq _ (F.wp_touch h) fun _ l o h => ?_
  refine Proc.wp_seq _ (F.wp_call rfl h) ?_
  rintro finishedAtMs _ o ⟨rfl, h⟩
  exact hlast finishedAtMs _ o h

end Rounds

end TreeFrame

end Procherd
