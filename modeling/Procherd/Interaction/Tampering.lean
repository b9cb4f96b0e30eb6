-- SUMMARY: Tampering: runs whose world somebody else changes between the steps, and when such a run is the run without the changes.
import Procherd.Interaction.Machine

/-!
# Tampering

Two runs of a machine make the same moves, one of them in a world that is changed
between the moves. If no step depends on what was changed, the threads of both
runs execute the same commands and get the same answers.
-/

namespace Interaction

universe u v w

namespace Machine

variable {M : Machine.{u}} [DecidableEq M.Thread]

theorem run_concat {init cfg cfg' : M.Config} {ms : List M.Move} {m : M.Move}
    (h : run init ms = some cfg) (hs : Machine.step cfg m = some cfg') :
    run init (ms ++ [m]) = some cfg' := by
  induction ms generalizing init with
  | nil =>
    cases h
    simp only [List.nil_append, run, hs, Option.bind_some]
  | cons first ms ih =>
    obtain ⟨next, hfirst, hrest⟩ := Option.bind_eq_some_iff.mp h
    simp only [List.cons_append, run, hfirst, Option.bind_some]
    exact ih hrest

theorem run_append {init cfg cfg' : M.Config} {ms ms' : List M.Move} (h : run init ms = some cfg)
    (h' : run cfg ms' = some cfg') : run init (ms ++ ms') = some cfg' := by
  induction ms generalizing init with
  | nil =>
    cases h
    exact h'
  | cons first ms ih =>
    obtain ⟨next, hfirst, hrest⟩ := Option.bind_eq_some_iff.mp h
    simp only [List.cons_append, run, hfirst, Option.bind_some]
    exact ih hrest

/-- A run with its moves, in which the world may change between the moves. -/
inductive TamperedRun (ok : M.Condition) (tamper : M.World → M.World → Prop) (init : M.Config) :
    List M.Move → M.Config → Prop where
  | init : TamperedRun ok tamper init [] init
  | step {ms : List M.Move} {cfg cfg' : M.Config} {m : M.Move} :
      TamperedRun ok tamper init ms cfg → Machine.step cfg m = some cfg' → Meets ok cfg m →
      TamperedRun ok tamper init (ms ++ [m]) cfg'
  | tamper {ms : List M.Move} {cfg : M.Config} {w : M.World} :
      TamperedRun ok tamper init ms cfg → tamper cfg.world w →
      TamperedRun ok tamper init ms { cfg with world := w }

/-- A relation between the worlds with and without the changes that no change and
    no step breaks, where every step does the same in both. What is `known` of the
    run without the changes may be used. -/
structure Hides (ok known : M.Condition) (tamper R : M.World → M.World → Prop) : Prop where
  tampered : ∀ {w w' v : M.World}, R w v → tamper w w' → R w' v
  step : ∀ {i : M.Thread} {β : Type} {c : M.Cmd i β} {a : M.Answer} {w v w' : M.World} {b : β},
    ok i c a w → known i c a v → M.exec i c a w = some (b, w') → R w v →
    ∃ v', M.exec i c a v = some (b, v') ∧ R w' v'

variable {ok known : M.Condition} {tamper R : M.World → M.World → Prop} {init cfg : M.Config}
  {ms : List M.Move}

/-- One move in both worlds. -/
theorem Hides.move (hR : Hides ok known tamper R) {cfg cfg' cfg₀ : M.Config} {m : M.Move}
    (hthread : cfg₀.thread = cfg.thread) (hworld : R cfg.world cfg₀.world)
    (hs : Machine.step cfg m = some cfg') (hm : Meets ok cfg m) (hknown : Meets known cfg₀ m) :
    ∃ cfg₁, Machine.step cfg₀ m = some cfg₁ ∧ cfg₁.thread = cfg'.thread ∧
      R cfg'.world cfg₁.world := by
  unfold Meets at hknown
  unfold Machine.step at hs ⊢
  rw [hthread] at hknown ⊢
  cases hp : cfg.thread m.1 with
  | ret a =>
    rw [hp] at hs
    cases hs
  | exec c k =>
    rw [hp] at hs
    obtain ⟨⟨p, w'⟩, hstep, rfl⟩ := Option.map_eq_some_iff.mp hs
    obtain ⟨⟨b, w''⟩, hexec, hnext⟩ := Option.map_eq_some_iff.mp hstep
    cases hnext
    obtain ⟨v', hexec', hworld'⟩ := hR.step (hm _ c k hp) (hknown _ c k hp) hexec hworld
    refine ⟨{ world := v', thread := Function.update cfg.thread m.1 (k b) }, ?_, rfl, hworld'⟩
    simp only [Prog.step, hexec', Option.map_some]
  | loop body s k =>
    rw [hp] at hs
    obtain ⟨⟨p, w'⟩, hstep, rfl⟩ := Option.map_eq_some_iff.mp hs
    cases hstep
    exact ⟨{ world := cfg₀.world, thread := Function.update cfg.thread m.1 (Prog.unroll body s k) },
      rfl, rfl, hworld⟩

/-- The moves of a tampered run lead to the same configuration without the
    changes, up to what they hide. -/
theorem TamperedRun.untampered (hR : Hides ok known tamper R)
    (hknown : ∀ cfg, Reach M.always init cfg → ∀ m, Meets known cfg m)
    (h : TamperedRun ok tamper init ms cfg) (hinit : R init.world init.world) :
    ∃ cfg₀, run init ms = some cfg₀ ∧ cfg₀.thread = cfg.thread ∧ R cfg.world cfg₀.world := by
  induction h with
  | init => exact ⟨init, rfl, rfl, hinit⟩
  | step _ hs hm ih =>
    obtain ⟨cfg₀, hrun, hthread, hworld⟩ := ih
    obtain ⟨cfg₁, hs₀, hthread₁, hworld₁⟩ :=
      hR.move hthread hworld hs hm (hknown cfg₀ (.of_run hrun) _)
    exact ⟨cfg₁, run_concat hrun hs₀, hthread₁, hworld₁⟩
  | tamper _ htamper ih =>
    obtain ⟨cfg₀, hrun, hthread, hworld⟩ := ih
    exact ⟨cfg₀, hrun, hthread, hR.tampered hworld htamper⟩

/-- A run goes on from a tampered run. -/
theorem TamperedRun.runChecked {check : M.Config → M.Move → Bool}
    (hcheck : ∀ cfg m, check cfg m → Meets ok cfg m) {cfg' : M.Config} {ms' : List M.Move}
    (h : TamperedRun ok tamper init ms cfg) (hrun : Machine.runChecked check cfg ms' = some cfg') :
    TamperedRun ok tamper init (ms ++ ms') cfg' := by
  induction ms' generalizing ms cfg with
  | nil =>
    cases hrun
    rw [List.append_nil]
    exact h
  | cons m ms' ih =>
    simp only [Machine.runChecked] at hrun
    split at hrun
    · rename_i hm
      obtain ⟨next, hs, hrest⟩ := Option.bind_eq_some_iff.mp hrun
      rw [List.append_cons]
      exact ih (h.step hs (hcheck cfg m hm)) hrest
    · cases hrun

/-! ## The verification of threads

What is verified of a thread holds in a tampered run too, if the changes are
among what the thread relies on. -/

theorem TamperedRun.mono {ok' : M.Condition}
    (hok : ∀ i {β : Type} (c : M.Cmd i β) a w, ok i c a w → ok' i c a w)
    (h : TamperedRun ok tamper init ms cfg) : TamperedRun ok' tamper init ms cfg := by
  induction h with
  | init => exact .init
  | step _ hs hm ih => exact ih.step hs fun β c k hc => hok _ c _ _ (hm β c k hc)
  | tamper _ htamper ih => exact ih.tamper htamper

section Invariants

variable {J : M.World → Prop}
  (hJ : ∀ i {β : Type} (c : M.Cmd i β) a w b w', ok i c a w →
    M.exec i c a w = some (b, w') → J w → J w')
  (htamper : ∀ w w', tamper w w' → J w → J w')

include hJ htamper

/-- An assertion that every command and every change keeps. -/
theorem TamperedRun.invariant (h : TamperedRun ok tamper init ms cfg) (h0 : J init.world) :
    J cfg.world := by
  induction h with
  | init => exact h0
  | step _ hs hm ih =>
    obtain ⟨-, ⟨β, c, k, b, hp, he, -⟩ | ⟨_, _, _, _, _, -, hw, -⟩⟩ := step_cases hs
    · exact hJ _ c _ _ b _ (hm β c k hp) he ih
    · rw [hw]
      exact ih
  | tamper _ ht ih => exact htamper _ _ ht ih

theorem TamperedRun.with_invariant (h : TamperedRun ok tamper init ms cfg) (h0 : J init.world) :
    TamperedRun (fun i _ c a w => ok i c a w ∧ J w) tamper init ms cfg := by
  induction h with
  | init => exact .init
  | step hr hs hm ih =>
    exact ih.step hs fun β c k hp => ⟨hm β c k hp, hr.invariant hJ htamper h0⟩
  | tamper _ ht ih => exact ih.tamper ht

end Invariants

/-- A run is one in which nobody changes the world. -/
theorem Reach.tamperedRun (h : Reach ok init cfg) :
    ∃ ms, TamperedRun ok (fun _ _ => False) init ms cfg := by
  induction h with
  | init => exact ⟨[], .init⟩
  | step _ hs hm ih =>
    obtain ⟨ms, h⟩ := ih
    exact ⟨_, h.step hs hm⟩

theorem TamperedRun.reach (h : TamperedRun ok (fun _ _ => False) init ms cfg) :
    Reach ok init cfg := by
  induction h with
  | init => exact .init
  | step _ hs hm ih => exact ih.step hs hm
  | tamper _ ht _ => exact ht.elim

/-- A thread that meets its weakest precondition keeps meeting it. -/
theorem TamperedRun.wp {i : M.Thread} {O : Type v} {V : M.World → O}
    {L : Interface (M.Cmd i) O} {Q : M.Result i → O → Prop} (hL : Describes ok i V L)
    (hQ : ∀ a o o', L.rely o o' → Q a o → Q a o')
    (htamper : ∀ w w', tamper w w' → L.rely (V w) (V w'))
    (h0 : (init.thread i).wp L Q (V init.world)) (h : TamperedRun ok tamper init ms cfg) :
    (cfg.thread i).wp L Q (V cfg.world) := by
  induction h with
  | init => exact h0
  | step _ hs hm ih => exact hL.wp_step hQ hs hm ih
  | tamper _ ht ih => exact Prog.wp_rely hQ (htamper _ _ ht) ih

/-- The condition on the steps may be strengthened by what the interfaces of
    verified threads promise. -/
theorem TamperedRun.strengthen {ι : Type w} {t : ι → M.Thread} {O : ι → Type v}
    {V : ∀ x, M.World → O x} {L : ∀ x, Interface (M.Cmd (t x)) (O x)}
    {Q : ∀ x, M.Result (t x) → O x → Prop} {ok' : M.Condition}
    (hL : ∀ x, Describes ok (t x) (V x) (L x))
    (hQ : ∀ x a o o', (L x).rely o o' → Q x a o → Q x a o')
    (htamper : ∀ x w w', tamper w w' → (L x).rely (V x w) (V x w'))
    (h0 : ∀ x, (init.thread (t x)).wp (L x) (Q x) (V x init.world))
    (hself : ∀ x {β : Type} (c : M.Cmd (t x) β) a w b w', ok (t x) c a w →
      M.exec (t x) c a w = some (b, w') → (L x).guar c (V x w) b (V x w') →
      ok' (t x) c a w)
    (hother : ∀ j, (∀ x, j ≠ t x) → ∀ {β : Type} (c : M.Cmd j β) a w, ok j c a w → ok' j c a w)
    (h : TamperedRun ok tamper init ms cfg) : TamperedRun ok' tamper init ms cfg := by
  induction h with
  | init => exact .init
  | step hr hs hm ih =>
    have hwp x := hr.wp (hL x) (hQ x) (htamper x) (h0 x)
    exact ih.step hs (Describes.meets hL hself hother hwp hs hm)
  | tamper _ ht ih => exact ih.tamper ht

/-! ## Threads that rely on each other -/

section Cooperate

variable {O : M.Thread → Type v} {V : ∀ i, M.World → O i} {L : ∀ i, Interface (M.Cmd i) (O i)}
  {Q : ∀ i, M.Result i → O i → Prop}

omit [DecidableEq M.Thread] in
/-- The steps in `ok` that do what the interface of their thread promises. -/
def guaranteed (ok : M.Condition) (V : ∀ i, M.World → O i)
    (L : ∀ i, Interface (M.Cmd i) (O i)) : M.Condition := fun i {_} c a w =>
  ok i c a w ∧ ∀ b w', M.exec i c a w = some (b, w') → (L i).guar c (V i w) b (V i w')

variable (hself : ∀ i {β : Type} (c : M.Cmd i β) a w b w', ok i c a w →
    M.exec i c a w = some (b, w') → (L i).step c (V i w) b (V i w'))
  (hother : ∀ i j, j ≠ i → ∀ {β : Type} (c : M.Cmd j β) a w b w', ok j c a w →
    M.exec j c a w = some (b, w') → (L j).guar c (V j w) b (V j w') → (L i).rely (V i w) (V i w'))

include hself hother

omit [DecidableEq M.Thread] in
theorem describes_guaranteed (i : M.Thread) : Describes (guaranteed ok V L) i (V i) (L i) where
  self c a w b w' hok := hself i c a w b w' hok.1
  other j hj c a w b w' hok he := hother i j hj c a w b w' hok.1 he (hok.2 b w' he)

/-- Threads each of which is verified relying on what the others promise keep all
    their promises. -/
theorem TamperedRun.cooperate (hQ : ∀ i a o o', (L i).rely o o' → Q i a o → Q i a o')
    (htamper : ∀ i w w', tamper w w' → (L i).rely (V i w) (V i w'))
    (h0 : ∀ i, (init.thread i).wp (L i) (Q i) (V i init.world))
    (h : TamperedRun ok tamper init ms cfg) :
    TamperedRun (guaranteed ok V L) tamper init ms cfg := by
  induction h with
  | init => exact .init
  | @step ms cfg cfg' m hr hs hm ih =>
    refine ih.step hs fun β c k hp => ⟨hm β c k hp, fun b w' he => ?_⟩
    have hwp := ih.wp (describes_guaranteed hself hother m.1) (hQ m.1) (htamper m.1) (h0 m.1)
    rw [hp] at hwp
    exact (Prog.wp_exec_elim hwp (hself m.1 c m.2 _ b w' (hm β c k hp) he)).1
  | tamper _ ht ih => exact ih.tamper ht

theorem Reach.cooperate (hQ : ∀ i a o o', (L i).rely o o' → Q i a o → Q i a o')
    (h0 : ∀ i, (init.thread i).wp (L i) (Q i) (V i init.world)) (h : Reach ok init cfg) :
    Reach (guaranteed ok V L) init cfg := by
  obtain ⟨ms, h⟩ := h.tamperedRun
  exact (h.cooperate hself hother hQ (fun _ _ _ ht => ht.elim) h0).reach

end Cooperate

end Machine

end Interaction
