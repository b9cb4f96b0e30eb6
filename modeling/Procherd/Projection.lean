-- SUMMARY: One run of the store by itself: until its removal begins, a run goes through what a run with clients of its own goes through.
import Procherd.Interaction.Open
import Procherd.StoreSystem
import Procherd.Observation

/-!
# Projection

A store with many runs, seen from one of them. The other runs and the commands
of the clients on the state root only change its copy of the port registry, as a
client of its own may do. What holds of every run therefore holds of the runs of
a store, until a client begins to remove the directory.
-/

namespace Procherd

open Interaction

def Thread.isClient : Thread → Bool
  | .client _ => true
  | _ => false

/-- As which thread a thread of the store acts on a run, if it does. -/
def StoreThread.as (id : String) : StoreThread → Option Thread
  | .run j t => if j = id then some t else none
  | .client n => some (.client n)

namespace StoreWorld

variable (w : StoreWorld) (id : String) (run : World)

@[simp] theorem run_setRun : (w.setRun id run).run id = run := by
  simp only [StoreWorld.run, setRun, Function.update_self]

@[simp] theorem run_setRun_of_ne {j : String} (hj : j ≠ id) :
    (w.setRun id run).run j = { w.run j with registry := run.registry } := by
  simp only [StoreWorld.run, setRun, Function.update_of_ne hj]

@[simp] theorem removal_setRun : (w.setRun id run).removal = w.removal := rfl
@[simp] theorem observedAtMs_setRun : (w.setRun id run).observedAtMs = w.observedAtMs := rfl

@[simp] theorem run_noteRemoval (client : Nat) (j : String) :
    (w.noteRemoval client id).run j = w.run j := by
  unfold noteRemoval
  split <;> rfl

@[simp] theorem observedAtMs_noteRemoval (client : Nat) :
    (w.noteRemoval client id).observedAtMs = w.observedAtMs := by
  unfold noteRemoval
  split <;> rfl

theorem removal_noteRemoval_of_ne (client : Nat) {j : String} (hj : j ≠ id) :
    (w.noteRemoval client id).removal j = w.removal j := by
  unfold noteRemoval
  split
  · rfl
  · exact Function.update_of_ne hj ..

/-- A removal is noted when it begins, and kept from then on. -/
theorem removal_noteRemoval (client : Nat) :
    (w.noteRemoval client id).removal id =
      some ((w.removal id).getD { client, observedAtMs := w.observedAtMs client, run := w.run id }) := by
  unfold noteRemoval
  split
  · rename_i removal hremoval
    rw [hremoval]
    rfl
  · rename_i hremoval
    rw [hremoval]
    exact Function.update_self ..

variable {w id}

theorem unlink_cases (w : StoreWorld) (id : String) (entry : RunEntry) :
    ((w.unlink id entry).1 = true ∧ (w.run id).emptied ∧
      (w.unlink id entry).2.run id = { w.run id with dir := false }) ∨
    ((w.unlink id entry).1 = false ∧ (w.unlink id entry).2.run id = (w.run id).unlink entry) := by
  unfold unlink
  split
  · rename_i hempty
    exact .inl ⟨rfl, hempty, w.run_setRun id _⟩
  · exact .inr ⟨rfl, w.run_setRun id _⟩

theorem registry_unlink (w : World) (entry : RunEntry) : (w.unlink entry).registry = w.registry := by
  cases entry <;> rfl

theorem run_unlink_of_ne (w : StoreWorld) {id j : String} (hj : j ≠ id) (entry : RunEntry) :
    (w.unlink id entry).2.run j = w.run j := by
  unfold unlink
  split
  · exact w.run_setRun_of_ne id _ hj
  · rw [w.run_setRun_of_ne id _ hj, registry_unlink]
    rfl

theorem removal_unlink (w : StoreWorld) (id : String) (entry : RunEntry) :
    (w.unlink id entry).2.removal = w.removal ∧
      (w.unlink id entry).2.observedAtMs = w.observedAtMs := by
  unfold unlink
  split <;> exact ⟨rfl, rfl⟩

end StoreWorld

variable [Toolchain]

/-- The port registry is only ever replaced. -/
theorem exec_registry {β : Type} {t : Thread} {c : t.Cmd β} {a : Answer} {w w' : World} {b : β}
    (h : exec t c a w = some (b, w')) :
    w'.registry = w.registry ∨ ∃ registry, w'.registry = some registry := by
  cases t with
  | start =>
    cases c with
    | inl c =>
      rw [execCreate_frame (show execCreate c a w = some (b, w') from h)]
      exact .inl rfl
    | inr c =>
      cases c <;> simp only [exec, execEither, execClient, fallible, committed, fallibleIo] at h <;>
        repeat' split at h
      all_goals cases h
      all_goals first | exact .inl rfl | exact .inr ⟨_, rfl⟩
  | supervisor =>
    cases c with
    | inl c =>
      rw [execLock_frame (show execLock c a w = some (b, w') from h)]
      exact .inl rfl
    | inr c =>
      cases c <;> simp only [exec, execEither, execBody, fallible, committed, fallibleIo, receive] at h <;>
        repeat' split at h
      all_goals cases h
      all_goals first | exact .inl rfl | exact .inr ⟨_, rfl⟩
  | reader stream =>
    rw [execReader_frame (show execReader stream c a w = some (b, w') from h)]
    exact .inl rfl
  | client index =>
    cases c <;> simp only [exec, execClient, fallible, committed, fallibleIo] at h <;>
      repeat' split at h
    all_goals cases h
    all_goals first | exact .inl rfl | exact .inr ⟨_, rfl⟩

/-! ## One command of the store -/

/-- Every command on a run meets a condition on the commands of runs. -/
def onRuns (ok : system.Condition) : storeSystem.Condition
  | .run id t, _, c, a, w => ok t c a.toAnswer (w.run id)
  | .client n, _, .inr c, a, w => ok (.client n) c.cmd a.toAnswer (w.run c.id)
  | .client _, _, .inl _, _, _ => True

theorem onRuns_always {i : StoreThread} {β : Type} {c : i.Cmd β} {a : StoreAnswer} {w : StoreWorld} :
    onRuns system.always i c a w := by
  cases i with
  | run id t => trivial
  | client n => cases c <;> trivial

/-- What a command of the store does to one run, where the thread acts on the run
    as `actor`. -/
inductive RunStep (ok : system.Condition) (actor : Option Thread) (a : Answer) (removing : Prop)
    (w : World) : World → Prop where
  | idle : RunStep ok actor a removing w w
  | command {t : Thread} {β : Type} {c : t.Cmd β} {b : β} {w' : World} (ht : actor = some t)
      (hok : ok t c a w) (h : exec t c a w = some (b, w')) : RunStep ok actor a removing w w'
  /-- Another run replaces the port registry. -/
  | registry (registry : PortRegistry) :
      RunStep ok actor a removing w { w with registry := some registry }
  | unlink (h : removing) (entry : RunEntry) : RunStep ok actor a removing w (w.unlink entry)
  | removeDir (h : removing) (hempty : w.emptied) :
      RunStep ok actor a removing w { w with dir := false }

section RunStep

variable {ok : system.Condition} {w w' : StoreWorld} {a : StoreAnswer}

omit [Toolchain] in
theorem storeFallible_cases {α : Type} {success : Except AppError α × StoreWorld}
    {r : Except AppError α} (h : storeFallible a w success = some (r, w')) :
    (∃ fault, a.fault = some fault ∧ r = .error fault.error ∧ w' = w) ∨
      (a.fault = none ∧ success = (r, w')) := by
  unfold storeFallible at h
  split at h
  · rename_i fault hfault
    cases h
    exact .inl ⟨fault, hfault, rfl, rfl⟩
  · rename_i hnone
    exact .inr ⟨hnone, Option.some.inj h⟩

/-- A command of run `j` seen from run `id`. -/
theorem runStep_setRun {t : Thread} {actor : Option Thread} {β : Type} {c : t.Cmd β} {b : β}
    {j : String} {run : World} (hok : ok t c a.toAnswer (w.run j))
    (h : exec t c a.toAnswer (w.run j) = some (b, run)) (removing : Prop) (id : String)
    (hactor : id = j → actor = some t) :
    RunStep ok actor a.toAnswer removing (w.run id) ((w.setRun j run).run id) := by
  by_cases hid : id = j
  · subst hid
    rw [w.run_setRun]
    exact .command (hactor rfl) hok h
  · rw [w.run_setRun_of_ne j run hid]
    obtain hregistry | ⟨registry, hregistry⟩ := exec_registry h
    · rw [hregistry]
      exact .idle
    · rw [hregistry]
      exact .registry registry

omit [Toolchain] in
theorem execRoot_unlink {n : Nat} {id : String} {r : Except AppError Bool}
    (h : execRoot n (.unlink id) a w = some (r, w')) :
    ((∃ e, r = .error e ∧ (e.kind = "io" ∨ e.kind = "integrity")) ∧ w' = w) ∨
      ((w.run id).dir = true ∧ r = .ok ((w.noteRemoval n id).unlink id a.entry).1 ∧
        w' = ((w.noteRemoval n id).unlink id a.entry).2) := by
  obtain ⟨fault, -, rfl, rfl⟩ | ⟨-, h⟩ := storeFallible_cases h
  · refine .inl ⟨⟨_, rfl, ?_⟩, rfl⟩
    cases fault with
    | io error => exact .inl rfl
    | document message => exact .inr rfl
  · split at h
    · rename_i hdir
      cases h
      exact .inr ⟨hdir, rfl, rfl⟩
    · cases h
      exact .inl ⟨⟨_, rfl, .inl rfl⟩, rfl⟩

theorem StoreThread.exec_runStep {i : StoreThread} {β : Type} {c : i.Cmd β} {b : β}
    (hok : onRuns ok i c a w) (h : i.exec c a w = some (b, w')) (id : String) :
    RunStep ok (i.as id) a.toAnswer ((w'.removal id).isSome) (w.run id) (w'.run id) := by
  cases i with
  | run j t =>
    have hexec : (Procherd.exec t c a.toAnswer (w.run j)).map (fun r => (r.1, w.setRun j r.2)) =
        some (b, w') := by
      cases t with
      | client n => cases h
      | _ => exact h
    obtain ⟨⟨b', run⟩, hstep, hw⟩ := Option.map_eq_some_iff.mp hexec
    cases hw
    exact runStep_setRun hok hstep _ id fun hid => if_pos hid.symm
  | client n =>
    cases c with
    | inr c =>
      obtain ⟨⟨b', run⟩, hstep, hw⟩ := Option.map_eq_some_iff.mp h
      cases hw
      exact runStep_setRun (t := .client n) hok hstep _ id fun _ => rfl
    | inl c =>
      cases c with
      | unlink j =>
        obtain ⟨-, rfl⟩ | ⟨-, -, rfl⟩ :=
          execRoot_unlink (show execRoot n (.unlink j) a w = some (b, w') from h)
        · exact .idle
        by_cases hid : id = j
        · subst hid
          have hremoving : (((w.noteRemoval n id).unlink id a.entry).2.removal id).isSome := by
            rw [(StoreWorld.removal_unlink _ id a.entry).1, StoreWorld.removal_noteRemoval]
            rfl
          obtain ⟨-, hempty, hrun⟩ | ⟨-, hrun⟩ :=
            StoreWorld.unlink_cases (w.noteRemoval n id) id a.entry
          · rw [hrun, StoreWorld.run_noteRemoval]
            rw [StoreWorld.run_noteRemoval] at hempty
            exact .removeDir hremoving hempty
          · rw [hrun, StoreWorld.run_noteRemoval]
            exact .unlink hremoving a.entry
        · rw [StoreWorld.run_unlink_of_ne _ hid, StoreWorld.run_noteRemoval]
          exact .idle
      | now => cases h; exact .idle
      | _ =>
        obtain ⟨_, -, -, rfl⟩ | ⟨-, h⟩ := storeFallible_cases h
        · exact .idle
        · cases h; exact .idle

/-- A removal begins with a client's command, and is never forgotten. -/
theorem StoreThread.exec_removal {i : StoreThread} {β : Type} {c : i.Cmd β} {b : β}
    (h : i.exec c a w = some (b, w')) (id : String) :
    w'.removal id = w.removal id ∨ ∃ n, i = .client n ∧ w.removal id = none ∧
      w'.removal id = some
        { client := n, observedAtMs := w.observedAtMs n, run := w.run id } := by
  cases i with
  | run j t =>
    cases t with
    | client n => cases h
    | _ =>
      obtain ⟨r, -, hw⟩ := Option.map_eq_some_iff.mp h
      cases hw
      exact .inl rfl
  | client n =>
    cases c with
    | inr c =>
      obtain ⟨r, -, hw⟩ := Option.map_eq_some_iff.mp h
      cases hw
      exact .inl rfl
    | inl c =>
      cases c with
      | unlink j =>
        obtain ⟨-, rfl⟩ | ⟨-, -, rfl⟩ :=
          execRoot_unlink (show execRoot n (.unlink j) a w = some (b, w') from h)
        · exact .inl rfl
        rw [(StoreWorld.removal_unlink _ j a.entry).1]
        by_cases hid : id = j
        · subst hid
          rw [StoreWorld.removal_noteRemoval]
          cases hremoval : w.removal id with
          | some removal => exact .inl rfl
          | none => exact .inr ⟨n, rfl, rfl, rfl⟩
        · exact .inl (StoreWorld.removal_noteRemoval_of_ne _ _ _ hid)
      | now => cases h; exact .inl rfl
      | _ =>
        obtain ⟨_, -, -, rfl⟩ | ⟨-, h⟩ := storeFallible_cases h
        · exact .inl rfl
        · cases h; exact .inl rfl

end RunStep

/-! ## One run of a store -/

/-- The configuration of one run. -/
def project (id : String) (cfg : storeSystem.Config) : system.Config :=
  { world := cfg.world.run id, thread := fun t => cfg.thread (.run id t) }

/-- A condition that does not restrict how other runs use the port registry. -/
def AllowsRegistry (ok : system.Condition) : Prop :=
  ∀ n update a w, ok (.client n) (.updateRegistry update) a w

section Project

variable {ok : system.Condition} {setup : StoreSetup} {cfg cfg' : storeSystem.Config}
  {init : system.Config} {id : String}

/-- What the other runs and the clients do to one run. -/
theorem openReach_runStep (hregistry : AllowsRegistry ok) {actor : Option Thread}
    (hactor : ∀ t, actor = some t → t.isClient) {a : Answer} {removing : Prop}
    (hremoving : ¬ removing)
    (hstep : RunStep ok actor a removing (cfg.world.run id) (cfg'.world.run id))
    (hthread : ∀ t, cfg'.thread (.run id t) = cfg.thread (.run id t))
    (h : Machine.OpenReach Thread.isClient ok init (project id cfg)) :
    Machine.OpenReach Thread.isClient ok init (project id cfg') := by
  have hproject : project id cfg' = { project id cfg with world := cfg'.world.run id } := by
    simp only [project, hthread]
  rw [hproject]
  generalize cfg'.world.run id = w' at hstep
  cases hstep with
  | idle => exact h
  | @command t _ _ _ _ ht hok hexec => exact h.exec (hactor t ht) hok hexec
  | registry registry =>
    exact Machine.OpenReach.exec (M := system) (i := .client 0) (c := .updateRegistry fun _ => registry)
      (a := {}) h rfl (hregistry 0 _ {} _) rfl
  | unlink hr => exact (hremoving hr).elim
  | removeDir hr => exact (hremoving hr).elim

theorem removal_eq_none {i : StoreThread} {β : Type} {c : i.Cmd β} {a : StoreAnswer}
    {w w' : StoreWorld} {b : β} (h : i.exec c a w = some (b, w')) (hnone : w'.removal id = none) :
    w.removal id = none := by
  obtain hkeep | ⟨n, -, hnone', -⟩ := StoreThread.exec_removal h id
  · exact hkeep.symm.trans hnone
  · exact hnone'

/-- A step of a run's own thread is a step of the run. -/
theorem step_project {id : String} {t : Thread} {a : StoreAnswer} {β : Type} {c : t.Cmd β}
    {k : β → Prog t.Cmd t.Result} {b : β} (hp : cfg.thread (.run id t) = .exec c k)
    (he : StoreThread.exec (.run id t) c a cfg.world = some (b, cfg'.world))
    (hk : cfg'.thread (.run id t) = k b)
    (hothers : ∀ j, j ≠ .run id t → cfg'.thread j = cfg.thread j) :
    t.isClient = false ∧
      Machine.step (M := system) (project id cfg) (t, a.toAnswer) = some (project id cfg') := by
  have hexec : t.isClient = false ∧ (exec t c a.toAnswer (cfg.world.run id)).map
      (fun r => (r.1, cfg.world.setRun id r.2)) = some (b, cfg'.world) := by
    cases t with
    | client n => cases he
    | _ => exact ⟨rfl, he⟩
  obtain ⟨hinner, hexec⟩ := hexec
  obtain ⟨⟨b', run⟩, hrun, hw⟩ := Option.map_eq_some_iff.mp hexec
  obtain ⟨rfl, hworld⟩ := Prod.mk.inj hw
  refine ⟨hinner, Machine.step_of_exec (M := system) (m := (t, a.toAnswer)) hp ?_ hk fun t' ht' =>
    hothers (.run id t') fun h => ht' (StoreThread.run.inj h).2⟩
  change exec t c a.toAnswer (cfg.world.run id) = some (b', cfg'.world.run id)
  rw [← hworld, StoreWorld.run_setRun]
  exact hrun

/-- A run has no clients of its own. -/
theorem run_client_idle {ok : storeSystem.Condition} (h : Machine.Reach ok setup.initial cfg)
    (id : String) (n : Nat) :
    cfg.thread (.run id (.client n)) = setup.initial.thread (.run id (.client n)) := by
  induction h with
  | init => rfl
  | @step cfg cfg' m _ hs _ ih =>
    obtain ⟨i, a⟩ := m
    obtain ⟨hothers, h⟩ := Machine.step_cases hs
    by_cases hi : StoreThread.run id (.client n) = i
    · subst hi
      obtain ⟨_, _, _, _, hp, -⟩ | ⟨_, _, _, _, _, hp, -⟩ := h <;> exact nomatch ih.symm.trans hp
    · exact (hothers _ hi).trans ih

theorem reach_project (hregistry : AllowsRegistry ok)
    (h : Machine.Reach (onRuns ok) setup.initial cfg) (hremoval : cfg.world.removal id = none) :
    Machine.OpenReach Thread.isClient ok (setup.run id).initial (project id cfg) := by
  induction h with
  | init => exact .init
  | @step cfg cfg' m hr hs hm ih =>
    obtain ⟨i, a⟩ := m
    obtain ⟨hothers, ⟨β, c, k, b, hp, he, hk⟩ | ⟨σ, β, body, s, k, hp, hworld, hk⟩⟩ :=
      Machine.step_cases hs
    · have hnone : cfg.world.removal id = none := removal_eq_none he hremoval
      have hstep := StoreThread.exec_runStep (hm β c k hp) he id
      have hnot : ¬ (cfg'.world.removal id).isSome := by simp [hremoval]
      -- Every thread of the run, unless it moves itself, stays where it is.
      have houter (hactor : ∀ t, i.as id = some t → t.isClient)
          (hne : ∀ t, StoreThread.run id t ≠ i) :
          Machine.OpenReach Thread.isClient ok (setup.run id).initial (project id cfg') :=
        openReach_runStep hregistry hactor hnot hstep (fun t => hothers (.run id t) (hne t)) (ih hnone)
      cases i with
      | client n => exact houter (fun t ht => by cases ht; rfl) nofun
      | run j t =>
        by_cases hid : j = id
        · subst hid
          have ⟨hinner, hstep⟩ := step_project hp he hk hothers
          exact (ih hnone).step hinner hstep hm
        · refine houter (fun t' ht' => ?_) fun t' h => hid (StoreThread.run.inj h).1.symm
          simp only [StoreThread.as, if_neg hid] at ht'
          cases ht'
    · have hnone : cfg.world.removal id = none := hworld ▸ hremoval
      obtain ⟨j, t, rfl, hid, hinner⟩ | hne : (∃ j t, i = .run j t ∧ j = id ∧ t.isClient = false) ∨
          ∀ t, StoreThread.run id t ≠ i := by
        cases i with
        | client n => exact .inr nofun
        | run j t =>
          by_cases hid : j = id
          · subst hid
            cases t with
            | client n => exact nomatch (run_client_idle hr j n).symm.trans hp
            | _ => exact .inl ⟨j, _, rfl, rfl, rfl⟩
          · exact .inr fun t' h => hid (StoreThread.run.inj h).1.symm
      · subst hid
        refine (ih hnone).step (m := (t, a.toAnswer)) hinner (Machine.step_of_loop (M := system)
          (m := (t, a.toAnswer)) hp ?_ hk fun t' ht' => ?_) fun β' c' k' hp' => ?_
        · simp only [project, hworld]
        · exact hothers (.run j t') fun h => ht' (StoreThread.run.inj h).2
        · exact nomatch hp.symm.trans hp'
      · have hproject : project id cfg' = project id cfg := by
          simp only [project, hworld]
          congr 1
          funext t
          exact hothers _ (hne t)
        rw [hproject]
        exact ih hnone

/-- Whatever holds of every run holds of a run of a store whose directory nobody
    has begun to remove: its threads and its world are those of a run with
    clients of its own. -/
theorem reach_run (hregistry : AllowsRegistry ok)
    (h : Machine.Reach (onRuns ok) setup.initial cfg) (hremoval : cfg.world.removal id = none) :
    ∃ (setup' : Setup) (cfg' : system.Config), setup'.options = setup.options id ∧
      Machine.Reach ok setup'.initial cfg' ∧ cfg'.world = cfg.world.run id ∧
      ∀ t, t.isClient = false → cfg'.thread t = cfg.thread (.run id t) := by
  obtain ⟨k₀, hreach⟩ := (reach_project hregistry h hremoval).close (setup.run id).thread
  let setup' : Setup := { setup.run id with clients := fun n => k₀ (.client n) }
  have hinit : (setup.run id).initial.setOuter Thread.isClient k₀ = setup'.initial := by
    simp only [Machine.Config.setOuter, Setup.initial]
    congr 1
    funext t
    cases t <;> rfl
  rw [hinit] at hreach
  exact ⟨setup', _, rfl, hreach, rfl, fun t ht => Machine.Config.setOuter_inner ht⟩

end Project

end Procherd
