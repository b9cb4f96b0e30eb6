-- SUMMARY: Open runs: some threads of a machine execute any commands at any time, and how such a run is one of a closed machine.
import Procherd.Interaction.Machine

/-!
# Open runs

A machine that is a part of a larger system shares its world with threads whose
programs also do other things. Of these outer threads only the commands matter
that they execute here. Every open run is a run of the machine with some
programs for the outer threads, so what holds of all programs holds of it.
-/

namespace Interaction

universe u

namespace Machine

variable {M : Machine.{u}} [DecidableEq M.Thread]

/-! ## Steps from their parts -/

section Step

variable {cfg cfg' : M.Config} {m : M.Move}

/-- Two configurations of which one thread differs. -/
theorem Config.ext_update {w : M.World} {p : Prog (M.Cmd m.1) (M.Result m.1)} (hworld : w = cfg'.world)
    (hthread : cfg'.thread m.1 = p) (hothers : ∀ j, j ≠ m.1 → cfg'.thread j = cfg.thread j) :
    { world := w, thread := Function.update cfg.thread m.1 p } = cfg' := by
  obtain ⟨w', thread'⟩ := cfg'
  subst hworld hthread
  congr 1
  funext j
  by_cases hj : j = m.1
  · subst hj
    exact Function.update_self ..
  · rw [Function.update_of_ne hj]
    exact (hothers j hj).symm

theorem step_of_exec {β : Type} {c : M.Cmd m.1 β} {k : β → Prog (M.Cmd m.1) (M.Result m.1)} {b : β}
    (hp : cfg.thread m.1 = .exec c k) (he : M.exec m.1 c m.2 cfg.world = some (b, cfg'.world))
    (hk : cfg'.thread m.1 = k b) (hothers : ∀ j, j ≠ m.1 → cfg'.thread j = cfg.thread j) :
    Machine.step cfg m = some cfg' := by
  unfold Machine.step
  rw [hp]
  simp only [Prog.step, he, Option.map_some]
  rw [Config.ext_update rfl hk hothers]

theorem step_of_loop {σ β : Type} {body : σ → Prog (M.Cmd m.1) (σ ⊕ β)} {s : σ}
    {k : β → Prog (M.Cmd m.1) (M.Result m.1)} (hp : cfg.thread m.1 = .loop body s k)
    (hworld : cfg'.world = cfg.world) (hk : cfg'.thread m.1 = Prog.unroll body s k)
    (hothers : ∀ j, j ≠ m.1 → cfg'.thread j = cfg.thread j) : Machine.step cfg m = some cfg' := by
  unfold Machine.step
  rw [hp]
  simp only [Prog.step, Option.map_some]
  rw [Config.ext_update hworld.symm hk hothers]

end Step

/-! ## Open runs -/

omit [DecidableEq M.Thread] in
/-- The configuration with other programs for the outer threads. -/
def Config.setOuter (cfg : M.Config) (outer : M.Thread → Bool)
    (k : (i : M.Thread) → Prog (M.Cmd i) (M.Result i)) : M.Config :=
  { world := cfg.world, thread := fun i => if outer i then k i else cfg.thread i }

omit [DecidableEq M.Thread] in
theorem Config.setOuter_inner {cfg : M.Config} {outer : M.Thread → Bool}
    {k : (i : M.Thread) → Prog (M.Cmd i) (M.Result i)} {i : M.Thread} (h : outer i = false) :
    (cfg.setOuter outer k).thread i = cfg.thread i :=
  if_neg (by rw [h]; decide)

/-- The runs in which the outer threads execute any commands that meet the
    condition. -/
inductive OpenReach (outer : M.Thread → Bool) (ok : M.Condition) (init : M.Config) :
    M.Config → Prop where
  | init : OpenReach outer ok init init
  | step {cfg cfg' : M.Config} {m : M.Move} : OpenReach outer ok init cfg → outer m.1 = false →
      Machine.step cfg m = some cfg' → Meets ok cfg m → OpenReach outer ok init cfg'
  | exec {cfg : M.Config} {i : M.Thread} {β : Type} {c : M.Cmd i β} {a : M.Answer} {b : β}
      {w' : M.World} : OpenReach outer ok init cfg → outer i → ok i c a cfg.world →
      M.exec i c a cfg.world = some (b, w') → OpenReach outer ok init { cfg with world := w' }

namespace OpenReach

variable {outer : M.Thread → Bool} {ok : M.Condition} {init cfg : M.Config}

theorem step_setOuter {cfg cfg' : M.Config} {m : M.Move} (hinner : outer m.1 = false)
    (h : Machine.step cfg m = some cfg') (k : (i : M.Thread) → Prog (M.Cmd i) (M.Result i)) :
    Machine.step (cfg.setOuter outer k) m = some (cfg'.setOuter outer k) := by
  obtain ⟨hothers, h⟩ := step_cases h
  have hothers (j : M.Thread) (hj : j ≠ m.1) :
      (cfg'.setOuter outer k).thread j = (cfg.setOuter outer k).thread j := by
    simp only [Config.setOuter, hothers j hj]
  obtain ⟨β, c, k', b, hp, he, hk⟩ | ⟨σ, β, body, s, k', hp, hworld, hk⟩ := h
  · exact step_of_exec ((Config.setOuter_inner hinner).trans hp) he
      ((Config.setOuter_inner hinner).trans hk) hothers
  · exact step_of_loop ((Config.setOuter_inner hinner).trans hp) hworld
      ((Config.setOuter_inner hinner).trans hk) hothers

/-- The commands of the outer threads so far may be put before any programs. -/
theorem close (h : OpenReach outer ok init cfg)
    (k : (i : M.Thread) → Prog (M.Cmd i) (M.Result i)) :
    ∃ k₀, Reach ok (init.setOuter outer k₀) (cfg.setOuter outer k) := by
  induction h generalizing k with
  | init => exact ⟨k, .init⟩
  | @step cfg cfg' m _ hinner hs hm ih =>
    obtain ⟨k₀, hr⟩ := ih k
    refine ⟨k₀, hr.step (step_setOuter hinner hs k) fun β c k' hp => hm β c k' ?_⟩
    exact (Config.setOuter_inner hinner).symm.trans hp
  | @exec cfg i β c a b w' _ houter hok he ih =>
    -- The program of `i` begins with the command.
    obtain ⟨k₀, hr⟩ := ih (Function.update k i (.exec c fun _ => k i))
    have hthread : (cfg.setOuter outer (Function.update k i (.exec c fun _ => k i))).thread i =
        .exec c fun _ => k i := by
      simp only [Config.setOuter, houter, if_true, Function.update_self]
    refine ⟨k₀, Reach.step (m := (i, a)) hr ?_ fun β' c' k' hp => ?_⟩
    · refine step_of_exec hthread he ?_ fun j hj => ?_
      · simp only [Config.setOuter, houter, if_true]
      · simp only [Config.setOuter, Function.update_of_ne hj]
    · obtain ⟨rfl, hc, -⟩ := Prog.exec.inj (hthread.symm.trans hp)
      cases hc
      exact hok

end OpenReach

end Machine

end Interaction
