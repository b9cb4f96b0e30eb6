-- SUMMARY: The frame rule of output capture: what draining the channel into the log leaves alone.
import Procherd.Protocol

/-!
# The frame of output capture

Draining the channel only touches the log writer and the readiness of the state.
An assertion that does not depend on them, and that the commands of the capture
keep, is kept by the two drain loops.
-/

namespace Procherd

open Interaction

/-- The commands that the drain loops use. -/
def BodyCmd.output {β : Type} : BodyCmd β → Bool
  | .now | .clock | .instant | .appendLog _ | .tryRecv | .recvTimeout _ => true
  | _ => false

variable {O : Type}

/-- `I` is kept by the capture of output over `L`, which fails only with `E`. -/
structure OutputFrame (L : Interface BodyCmd O) (I : Locals → O → Prop)
    (E : AppError → Locals → O → Prop) : Prop where
  command : ∀ {β : Type} (c : BodyCmd β), c.output → ∀ {l o o' b o''}, I l o → L.rely o o' →
    L.step c o' b o'' → L.guar c o' b o'' ∧ I l o''
  logs : ∀ {l o} logs, I l o → I { l with logs } o
  readiness : ∀ {l o} tracker readiness, I l o →
    I { l with readiness := tracker, state := { l.state with readiness } } o
  appendFailed : ∀ {l o o' o'' bytes e kept} logs, I l o → L.rely o o' →
    L.step (.appendLog bytes) o' (.failed e kept) o'' → E e { l with logs } o''
  drainTimeout : ∀ {l o}, I l o → E logDrainTimeout l o

namespace OutputFrame

variable {L : Interface BodyCmd O} {I : Locals → O → Prop} {E : AppError → Locals → O → Prop}
  {l : Locals} {o : O}

theorem wp_call (F : OutputFrame L I E) {β : Type} {c : BodyCmd β} (hc : c.output) (h : I l o) :
    Proc.wp L (Proc.call c) (fun _ => I) E l o :=
  Proc.wp_call fun _ hrely _ _ hs => F.command c hc h hrely hs

theorem wp_writeBuffer (F : OutputFrame L I E) (h : I l o) :
    Proc.wp L writeBuffer (fun _ => I) E l o := by
  refine Proc.wp_repeatUntil I (fun l o h => ?_) h
  simp only [Proc.wp_get_bind]
  split
  · exact Proc.wp_pure h
  refine Proc.wp_bind (Proc.wp_call fun o' hrely r o'' hs => ?_)
  obtain ⟨hguar, h'⟩ := F.command (.appendLog _) rfl h hrely hs
  refine ⟨hguar, ?_⟩
  cases r with
  | wrote count =>
    simp only [Proc.wp_modify_bind, Proc.wp_pure_iff]
    exact F.logs _ h'
  | failed e kept =>
    simp only [Proc.wp_modify_bind, Proc.wp_throw_iff]
    exact F.appendFailed _ h hrely hs

theorem wp_recordCaptured (F : OutputFrame L I E) (chunk : LogChunk) (h : I l o) :
    Proc.wp L (recordCaptured chunk) (fun _ => I) E l o := by
  refine Proc.wp_seq _ (F.wp_call rfl h) fun timestampMs l o h => ?_
  simp only [Proc.wp_get_bind, Proc.wp_modify_bind]
  refine Proc.wp_seq _ (F.wp_writeBuffer (F.logs _ h)) fun _ l o h => ?_
  simp only [Proc.wp_modify_iff]
  exact F.logs _ h

theorem wp_record (F : OutputFrame L I E) (chunk : LogChunk) (h : I l o) :
    Proc.wp L (record chunk) (fun _ => I) E l o := by
  simp only [record, Proc.wp_modify_bind, Proc.wp_get_bind]
  have h' := F.logs (l.logs.updateDigest chunk) h
  have hrest : ∀ l o n, I l o →
      Proc.wp L (Proc.modify fun l => { l with logs := l.logs.drop n }) (fun _ => I) E l o := by
    intro l o n h
    simp only [Proc.wp_modify_iff]
    exact F.logs _ h
  split
  · exact Proc.wp_seq _ (F.wp_recordCaptured chunk h') fun _ l o h => hrest l o _ h
  · exact hrest _ _ _ h'

theorem wp_recordChunk (F : OutputFrame L I E) (chunk : LogChunk) (h : I l o) :
    Proc.wp L (recordChunk chunk) (fun _ => I) E l o := by
  refine Proc.wp_seq _ (F.wp_call rfl h) fun clock l o h => ?_
  simp only [Proc.wp_get_bind, Proc.wp_modify_bind]
  exact Proc.wp_seq _ (F.wp_record chunk (F.readiness _ _ h)) fun _ _ _ h => Proc.wp_pure h

theorem wp_drainBatch (F : OutputFrame L I E) (n : Nat) (changed : Bool) (h : I l o) :
    Proc.wp L (drainBatch n changed) (fun _ => I) E l o := by
  induction n generalizing changed l o with
  | zero => exact Proc.wp_pure h
  | succ n ih =>
    refine Proc.wp_seq _ (F.wp_call rfl h) fun received l o h => ?_
    cases received with
    | chunk chunk =>
      exact Proc.wp_seq _ (F.wp_recordChunk chunk h) fun changed' l o h => ih _ h
    | empty => exact Proc.wp_pure h
    | disconnected => exact Proc.wp_pure h

theorem wp_drainAvailable (F : OutputFrame L I E) (h : I l o) :
    Proc.wp L drainAvailable (fun _ => I) E l o :=
  F.wp_drainBatch _ _ h

theorem wp_drainRound (F : OutputFrame L I E) (deadline : Nat) (h : I l o) :
    Proc.wp L (drainRound deadline) (fun _ => I) E l o := by
  refine Proc.wp_seq _ (F.wp_call rfl h) fun now l o h => ?_
  simp only
  split
  · refine Proc.wp_seq _ (F.wp_call rfl h) fun received l o h => ?_
    cases received with
    | disconnected => exact Proc.wp_pure h
    | chunk chunk => exact Proc.wp_throw (F.drainTimeout h)
    | empty => exact Proc.wp_throw (F.drainTimeout h)
  · refine Proc.wp_seq _ (F.wp_call rfl h) fun received l o h => ?_
    cases received with
    | disconnected => exact Proc.wp_pure h
    | chunk chunk =>
      exact Proc.wp_seq _ (F.wp_recordChunk chunk h) fun _ _ _ h => Proc.wp_pure h
    | empty => exact Proc.wp_pure h

theorem wp_drainUntilClosed (F : OutputFrame L I E) (limit : Nat) (h : I l o) :
    Proc.wp L (drainUntilClosed limit) (fun _ => I) E l o := by
  refine Proc.wp_seq _ (F.wp_call rfl h) fun now l o h => ?_
  refine Proc.wp_repeatUntil I (fun l o h => ?_) h
  refine Proc.wp_mono (F.wp_drainRound _ h) (fun r l o h => ?_) fun _ _ _ => id
  cases r <;> exact h

end OutputFrame

end Procherd
