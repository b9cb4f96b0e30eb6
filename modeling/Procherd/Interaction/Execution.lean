-- SUMMARY: Executions: how a thread executes a part of its program while the other threads take steps of their own.
import Procherd.Interaction.Machine
import Procherd.Interaction.Proc

/-!
# Executions

`Executes ok i f cfg p cfg' p'` says that thread `i`, which is at `p` in `cfg`
and goes on with `f` once `p` has returned, comes to `p'` in `cfg'`. Between its
commands the other threads make any moves. What a weakest precondition claims of
the result of `p` holds of the value that an execution of `p` ends with.
-/

namespace Interaction

universe u v

namespace Prog

variable {C : Type → Type} {W : Type*} {exec : ∀ {β : Type}, C β → W → Option (β × W)}
  {α β : Type} {w w' : W}

/-- A step of a program is a step of everything that begins with it. -/
theorem step_bind {p p' : Prog C α} {f : α → Prog C β} (h : p.step exec w = some (p', w')) :
    (p.bind f).step exec w = some (p'.bind f, w') := by
  cases p with
  | ret a => cases h
  | exec c k =>
    obtain ⟨⟨b, w''⟩, hexec, hp⟩ := Option.map_eq_some_iff.mp h
    cases hp
    simp only [bind_exec, step, hexec, Option.map_some]
  | loop body s k =>
    cases h
    simp only [bind_loop, step, unroll_bind]

/-! ## Programs that nobody interferes with -/

section Advance

variable {A : Type*} {D : Type → Type} {exec : ∀ {β : Type}, C β → A → W → Option (β × W)}
  {execD : ∀ {β : Type}, D β → A → W → Option (β × W)} {as : List A} {p p' : Prog C α}

/-- What is left of a program after a step for each of the answers. -/
def advance (exec : ∀ {β : Type}, C β → A → W → Option (β × W)) :
    List A → Prog C α → W → Option (Prog C α × W)
  | [], p, w => some (p, w)
  | a :: as, p, w => (p.step (fun c => exec c a) w).bind fun r => advance exec as r.1 r.2

theorem advance_exec {a : A} {c : C β} {k : β → Prog C α} {b : β} (h : exec c a w = some (b, w')) :
    advance exec (a :: as) (.exec c k) w = advance exec as (k b) w' := by
  simp only [advance, step, h, Option.map_some, Option.bind_some]

theorem advance_append {as' : List A} (h : advance exec as p w = some (p', w')) :
    advance exec (as ++ as') p w = advance exec as' p' w' := by
  induction as generalizing p w with
  | nil => cases h; rfl
  | cons a as ih =>
    obtain ⟨⟨p₁, w₁⟩, hstep, hrest⟩ := Option.bind_eq_some_iff.mp h
    simp only [List.cons_append, advance, hstep, Option.bind_some]
    exact ih hrest

theorem advance_bind {f : α → Prog C β} (h : advance exec as p w = some (p', w')) :
    advance exec as (p.bind f) w = some (p'.bind f, w') := by
  induction as generalizing p w with
  | nil => cases h; rfl
  | cons a as ih =>
    obtain ⟨⟨p₁, w₁⟩, hstep, hrest⟩ := Option.bind_eq_some_iff.mp h
    simp only [advance, step_bind hstep, Option.bind_some]
    exact ih hrest

theorem step_hoist {f : ∀ {β : Type}, C β → D β} {a : A}
    (hf : ∀ {β : Type} (c : C β) w, execD (f c) a w = exec c a w)
    (h : p.step (fun c => exec c a) w = some (p', w')) :
    (p.hoist f).step (fun c => execD c a) w = some (p'.hoist f, w') := by
  cases p with
  | ret a => cases h
  | exec c k =>
    obtain ⟨⟨b, w''⟩, hexec, hp⟩ := Option.map_eq_some_iff.mp h
    cases hp
    simp only [hoist, step, hf, hexec, Option.map_some]
  | loop body s k =>
    cases h
    simp only [hoist, step, unroll, hoist_bind]
    refine congrArg (fun g => some (Prog.bind _ g, w)) (funext fun r => ?_)
    cases r <;> rfl

/-- A program advances by itself as it does under a renaming of its commands. -/
theorem advance_hoist {f : ∀ {β : Type}, C β → D β}
    (hf : ∀ {β : Type} (c : C β) a w, execD (f c) a w = exec c a w)
    (h : advance exec as p w = some (p', w')) :
    advance execD as (p.hoist f) w = some (p'.hoist f, w') := by
  induction as generalizing p w with
  | nil => cases h; rfl
  | cons a as ih =>
    obtain ⟨⟨p₁, w₁⟩, hstep, hrest⟩ := Option.bind_eq_some_iff.mp h
    simp only [advance, step_hoist (fun c w => hf c a w) hstep, Option.bind_some]
    exact ih hrest

end Advance

end Prog

namespace Proc

variable {C : Type → Type} {ε σ α β : Type} {A W : Type*}
  {exec : ∀ {β : Type}, C β → A → W → Option (β × W)} {a : A} {as : List A} {w w' : W} {s s' : σ}

theorem advance_pure {a : α} {f : α → Proc C ε σ β} :
    Prog.advance exec as ((pure a >>= f) s) w = Prog.advance exec as (f a s) w := rfl

theorem advance_call {c : C α} {f : α → Proc C ε σ β} {b : α} (h : exec c a w = some (b, w')) :
    Prog.advance exec (a :: as) ((call c >>= f) s) w = Prog.advance exec as (f b s) w' :=
  Prog.advance_exec h

theorem advance_attempt {c : C (Except ε α)} {f : α → Proc C ε σ β} {b : α}
    (h : exec c a w = some (.ok b, w')) :
    Prog.advance exec (a :: as) ((attempt c >>= f) s) w = Prog.advance exec as (f b s) w' :=
  Prog.advance_exec h

theorem advance_throwIf {c : Prop} [Decidable c] {e : ε} {f : Unit → Proc C ε σ β} (h : ¬ c) :
    Prog.advance exec as ((throwIf c e >>= f) s) w = Prog.advance exec as (f () s) w := by
  rw [throwIf, if_neg h]
  rfl

theorem advance_ofExcept {r : Except ε α} {f : α → Proc C ε σ β} {b : α} (h : r = .ok b) :
    Prog.advance exec as ((ofExcept r >>= f) s) w = Prog.advance exec as (f b s) w := by
  rw [h]
  rfl

/-- A part that returns. -/
theorem advance_seq {m : Proc C ε σ α} {f : α → Proc C ε σ β} {b : α} {as' : List A}
    (h : Prog.advance exec as (m s) w = some (.ret (.ok b, s'), w')) :
    Prog.advance exec (as ++ as') ((m >>= f) s) w = Prog.advance exec as' (f b s') w' :=
  Prog.advance_append (Prog.advance_bind h)

/-- The answers lead to a world, where something may be left to do. -/
def Comes (exec : ∀ {β : Type}, C β → A → W → Option (β × W)) (as : List A) (m : Proc C ε σ α)
    (s : σ) (w w' : W) : Prop :=
  ∃ p, Prog.advance exec as (m s) w = some (p, w')

theorem Comes.of_advance {m m' : Proc C ε σ α} {as' : List A} {w₁ : W}
    (h : Prog.advance exec as (m s) w = Prog.advance exec as' (m' s') w₁)
    (h' : Comes exec as' m' s' w₁ w') : Comes exec as m s w w' :=
  h'.imp fun _ hp => h.trans hp

theorem Comes.rfl {m : Proc C ε σ α} : Comes exec [] m s w w := ⟨_, Eq.refl _⟩

theorem Comes.bind {m : Proc C ε σ α} {f : α → Proc C ε σ β} (h : Comes exec as m s w w') :
    Comes exec as (m >>= f) s w w' :=
  h.elim fun _ hp => ⟨_, Prog.advance_bind hp⟩

theorem Comes.outcome {m : Proc C ε σ α} (h : Comes exec as m s w w') :
    Comes exec as (Proc.outcome m) s w w' :=
  h.elim fun _ hp => ⟨_, Prog.advance_bind hp⟩

theorem Comes.ensuring {m : Proc C ε σ α} {cleanup : Proc C ε σ Unit} (h : Comes exec as m s w w') :
    Comes exec as (Proc.ensuring m cleanup) s w w' :=
  h.outcome.bind

theorem Comes.withStore {τ : Type} {m : Proc C ε τ α} {t : τ} (h : Comes exec as m t w w') :
    Comes exec as (Proc.withStore t m : Proc C ε σ (Except ε α × τ)) s w w' :=
  h.elim fun _ hp => ⟨_, Prog.advance_bind hp⟩

end Proc

namespace Machine

variable {M : Machine.{u}} [DecidableEq M.Thread]

/-- A run whose moves meet the condition in every world. -/
theorem reach_of_run {ok : M.Condition} {init cfg : M.Config} {ms : List M.Move}
    (hok : ∀ m ∈ ms, ∀ {β : Type} (c : M.Cmd m.1 β) w, ok m.1 c m.2 w)
    (h : run init ms = some cfg) : Reach ok init cfg := by
  induction ms generalizing init with
  | nil => cases h; exact .init
  | cons m ms ih =>
    obtain ⟨cfg', hs, hr⟩ := Option.bind_eq_some_iff.mp h
    have hrest := ih (fun m hm => hok m (List.mem_cons_of_mem _ hm)) hr
    exact (Reach.init.step hs fun _ c _ _ => hok m List.mem_cons_self c _).trans hrest

/-- The moves of one thread alone. -/
theorem run_advance {cfg : M.Config} {i : M.Thread} {as : List M.Answer}
    {p : Prog (M.Cmd i) (M.Result i)} {w : M.World}
    (h : (cfg.thread i).advance (M.exec i) as cfg.world = some (p, w)) :
    run cfg (as.map (i, ·)) = some { world := w, thread := Function.update cfg.thread i p } := by
  induction as generalizing cfg with
  | nil =>
    obtain ⟨rfl, rfl⟩ := Prod.mk.inj (Option.some.inj h)
    rw [Function.update_eq_self]
    rfl
  | cons a as ih =>
    obtain ⟨⟨p₁, w₁⟩, hstep, hrest⟩ := Option.bind_eq_some_iff.mp h
    have hmove : Machine.step cfg (i, a) =
        some { world := w₁, thread := Function.update cfg.thread i p₁ } := by
      simp only [Machine.step, hstep, Option.map_some]
    simp only [List.map_cons, run, hmove, Option.bind_some]
    rw [ih (by simpa only [Function.update_self] using hrest), Function.update_idem]

inductive Executes (ok : M.Condition) (i : M.Thread) {α : Type}
    (f : α → Prog (M.Cmd i) (M.Result i)) (cfg : M.Config) (p : Prog (M.Cmd i) α) :
    M.Config → Prog (M.Cmd i) α → Prop where
  | start : cfg.thread i = p.bind f → Executes ok i f cfg p cfg p
  | other {cfg₁ cfg₂ : M.Config} {p₁ : Prog (M.Cmd i) α} {m : M.Move} :
      Executes ok i f cfg p cfg₁ p₁ → m.1 ≠ i → Machine.step cfg₁ m = some cfg₂ →
      Meets ok cfg₁ m → Executes ok i f cfg p cfg₂ p₁
  | own {cfg₁ : M.Config} {p₁ p₂ : Prog (M.Cmd i) α} {a : M.Answer} {w : M.World} :
      Executes ok i f cfg p cfg₁ p₁ →
      p₁.step (fun c w => M.exec i c a w) cfg₁.world = some (p₂, w) → Meets ok cfg₁ (i, a) →
      Executes ok i f cfg p
        { world := w, thread := Function.update cfg₁.thread i (p₂.bind f) } p₂

variable {ok : M.Condition} {i : M.Thread} {α : Type} {f : α → Prog (M.Cmd i) (M.Result i)}
  {cfg cfg' : M.Config} {p p' : Prog (M.Cmd i) α}

/-- The thread is at what is left of the part. -/
theorem Executes.thread (h : Executes ok i f cfg p cfg' p') : cfg'.thread i = p'.bind f := by
  induction h with
  | start hp => exact hp
  | other _ hi hs _ ih => exact ((step_cases hs).1 i (Ne.symm hi)).trans ih
  | own _ _ _ _ => exact Function.update_self ..

/-- An execution is a run of the machine. -/
theorem Executes.reach (h : Executes ok i f cfg p cfg' p') : Reach ok cfg cfg' := by
  induction h with
  | start _ => exact .init
  | other _ _ hs hm ih => exact ih.step hs hm
  | @own cfg₁ p₁ p₂ a w h hstep hm ih =>
    refine ih.step (m := (i, a)) ?_ hm
    simp only [Machine.step, h.thread, Prog.step_bind hstep, Option.map_some]

variable {O : Type v} {V : M.World → O} {L : Interface (M.Cmd i) O} {Q : α → O → Prop}

/-- What is verified of the part is verified of what is left of it. -/
theorem Executes.wp (hL : Describes ok i V L) (hQ : ∀ a o o', L.rely o o' → Q a o → Q a o')
    (h : Executes ok i f cfg p cfg' p') (h0 : p.wp L Q (V cfg.world)) :
    p'.wp L Q (V cfg'.world) := by
  induction h with
  | start _ => exact h0
  | @other cfg₁ cfg₂ p₁ m _ hi hs hm ih =>
    obtain ⟨-, ⟨β, c, k, b, hc, he, -⟩ | ⟨_, _, _, _, _, -, hw, -⟩⟩ := step_cases hs
    · exact Prog.wp_rely hQ (hL.other m.1 hi c m.2 _ b _ (hm β c k hc) he) ih
    · rw [hw]
      exact ih
  | @own cfg₁ p₁ p₂ a w h hstep hm ih =>
    cases p₁ with
    | ret x => cases hstep
    | exec c k =>
      obtain ⟨⟨b, w'⟩, hexec, hp⟩ := Option.map_eq_some_iff.mp hstep
      cases hp
      have hok : ok i c a cfg₁.world := hm _ c _ h.thread
      exact (Prog.wp_exec_elim ih (hL.self c a _ b _ hok hexec)).2
    | loop body s k =>
      cases hstep
      exact Prog.wp_unroll ih

/-- What is verified of the result holds of the value that is returned. -/
theorem Executes.result (hL : Describes ok i V L)
    (hQ : ∀ a o o', L.rely o o' → Q a o → Q a o') {a : α}
    (h : Executes ok i f cfg p cfg' (.ret a)) (h0 : p.wp L Q (V cfg.world)) :
    Q a (V cfg'.world) :=
  Prog.wp_ret_elim (h.wp hL hQ h0)

end Machine

end Interaction
