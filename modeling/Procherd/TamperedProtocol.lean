-- SUMMARY: The launch protocol of a run whose stop request is tampered with: the rules of `Protocol` for runs in which somebody changes `stop.request.json` between the steps.
import Procherd.ForgedStop

/-!
# The launch protocol under tampering

Neither the phase of the supervisor nor the documents that `start` writes depend
on `stop.request.json`. What is verified of `start` and of the supervisor
therefore holds, too, of the runs in which somebody changes this file between the
steps, as long as the supervisor may rely on the changes.
-/

namespace Procherd

open Interaction Machine

/-- Every change is one of `stop.request.json`. -/
def TampersStop (tamper : World → World → Prop) : Prop :=
  ∀ w w', tamper w w' → ∃ file, w' = w.withStop file

theorem sameRun_withStop (w : World) (file : Option Bytes) : SameRun w (w.withStop file) :=
  ⟨rfl, rfl, rfl, rfl, rfl⟩

variable [Toolchain] {setup : Setup} {ok : system.Condition} {tamper : World → World → Prop}
  {ms : List system.Move} {cfg : system.Config}

theorem tampersStop_plants (options : StartOptions) : TampersStop (plants options) := by
  rintro w w' ⟨bytes, -, rfl⟩
  exact ⟨some bytes, rfl⟩

theorem tampered_supervisorProtocol (htamper : TampersStop tamper)
    (h : TamperedRun (M := system) ok tamper setup.initial ms cfg) :
    TamperedRun (M := system) (fun i _ c a w => ok i c a w ∧ supervisorProtocol i c a w) tamper
      setup.initial ms cfg := by
  refine TamperedRun.strengthen (M := system) (t := fun _ : Unit => Thread.supervisor)
    (L := fun _ => SupervisorPhase.interface) (Q := fun _ _ _ => True)
    (fun _ => SupervisorPhase.describes.mono fun _ _ _ _ _ _ => trivial) (fun _ _ _ _ _ _ => trivial)
    (fun _ w w' ht => ?_)
    (fun _ => Prog.wp_bind (Prog.wp_mono ?_ (SupervisorPhase.wp_supervise _ _)))
    (fun _ β c a w b w' hok _ hguar => ⟨hok, hguar a⟩) (fun j hj β c a w hok => ⟨hok, ?_⟩) h
  · obtain ⟨file, rfl⟩ := htamper w w' ht
    exact id
  · exact fun _ _ _ => Prog.wp_ret trivial
  · cases j with
    | supervisor => exact absurd rfl (hj ())
    | _ => trivial

theorem tampered_launchProtocol (htamper : TampersStop tamper)
    (h : TamperedRun (M := system) ok tamper setup.initial ms cfg) :
    TamperedRun (M := system) (fun i _ c a w => ok i c a w ∧ launchProtocol setup.options i c a w)
      tamper setup.initial ms cfg := by
  refine TamperedRun.strengthen (M := system) (t := fun _ : Unit => Thread.start)
    (L := fun _ => StartPhase.interface setup.options) (Q := fun _ _ _ => True)
    (fun _ => (StartPhase.describes setup.options).mono fun _ _ _ _ _ h => h.2)
    (fun _ _ _ _ _ _ => trivial) (fun _ w w' ht => ?_)
    (fun _ => Prog.wp_bind (Prog.wp_mono ?_ (StartPhase.wp_start ⟨rfl, rfl⟩)))
    (fun _ β c a w b w' hok _ hguar => ⟨hok.1, hguar a, hok.2⟩)
    (fun j hj β c a w hok => ⟨hok.1, ?_, hok.2⟩) (tampered_supervisorProtocol htamper h)
  · obtain ⟨file, rfl⟩ := htamper w w' ht
    exact ⟨fun _ => sameRun_withStop w file, id⟩
  · exact fun _ _ _ => Prog.wp_ret trivial
  · cases j with
    | start => exact absurd rfl (hj ())
    | _ => trivial

/-- Every tampered run keeps the launch protocol and what follows from it. -/
theorem tampered_launched (htamper : TampersStop tamper)
    (h : TamperedRun (M := system) ok tamper setup.initial ms cfg) :
    TamperedRun (M := system) (fun i _ c a w => ok i c a w ∧
      launchProtocol setup.options i c a w ∧ Launched setup.options w)
      tamper setup.initial ms cfg := by
  refine ((tampered_launchProtocol htamper h).with_invariant (J := Launched setup.options)
    ?_ ?_ ?_).mono ?_
  · exact fun i _ c a w b w' hok hexec => Launched.step hok.2 hexec
  · intro w w' ht hw
    obtain ⟨file, rfl⟩ := htamper w w' ht
    exact hw.of_sameRun (sameRun_withStop w file) .rfl
  · exact ⟨⟨(fun h => by cases h), fun h => by cases h⟩, fun h => by cases h⟩
  · exact fun i _ c a w h => ⟨h.1.1, h.1.2, h.2⟩

/-- The rule of the supervisor in a tampered run. -/
theorem tampered_bodyGuarantee {O : Type} {V : World → O} {L : Interface BodyCmd O}
    (pre : O → Prop)
    (hself : ∀ {β : Type} (c : BodyCmd β) a w b w', ok .supervisor (.inr c) a w →
      execBody c a w = some (b, w') → L.step c (V w) b (V w'))
    (hother : ∀ {β : Type} j, j ≠ .supervisor → ∀ (c : system.Cmd j β) a w b w', ok j c a w →
      exec j c a w = some (b, w') → w.phase = .active → L.rely (V w) (V w'))
    (hpre : ∀ a w w', ok .supervisor (.inl .acquire) a w →
      execLock .acquire a w = some (.ok (), w') → pre (V w'))
    (hwp : ∀ path o, pre o →
      Proc.wp L (superviseAndMark path) (fun _ _ _ => True) (fun _ _ _ => True) () o)
    (htamper : ∀ w w', tamper w w' → L.rely (V w) (V w')) (hfile : TampersStop tamper)
    (h : TamperedRun (M := system) ok tamper setup.initial ms cfg) :
    TamperedRun (M := system) (fun i _ c a w => ok i c a w ∧ bodyGuarantee V L i c a w) tamper
      setup.initial ms cfg := by
  refine TamperedRun.strengthen (M := system) (t := fun _ : Unit => Thread.supervisor)
    (V := fun _ => id) (L := fun _ => SupervisorPhase.viewInterface ok V L)
    (Q := fun _ _ _ => True) (fun _ => SupervisorPhase.describes_view hother)
    (fun _ _ _ _ _ _ => trivial) (fun _ w w' ht hw => ⟨?_, htamper w w' ht⟩)
    (fun _ => SupervisorPhase.wp_initial pre hself hpre hwp _)
    (fun _ β c a w b w' hok hexec hguar => ⟨hok, ?_⟩) (fun j hj β c a w hok => ⟨hok, ?_⟩) h
  · obtain ⟨file, rfl⟩ := hfile w w' ht
    exact hw
  · cases c with
    | inl c => trivial
    | inr c =>
      intro b' w'' h
      have heq : some (b, w') = some (b', w'') := hexec.symm.trans h
      cases heq
      exact hguar
  · cases j with
    | supervisor => exact absurd rfl (hj ())
    | _ => trivial

end Procherd
