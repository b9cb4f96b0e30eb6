-- SUMMARY: Runs of a program by itself: the commands it executes and the results it returns, for any answers or for a given meaning of the commands.
import Procherd.Interaction.Proc

/-!
# Runs

Which commands a program may execute, and what it may return, are properties of
its tree alone: they cover every world, every failure and every interference.
Where the commands have a meaning, a run goes from a world to a world. The rules
of `wp` are rules about all of these runs.
-/

namespace Interaction

variable {C : Type → Type} {ε σ α β γ : Type}

/-! ## Arbitrary answers -/

/-- The interface that may answer anything, and allows the commands in `P`. -/
@[reducible] def Interface.allowing (P : ∀ {β : Type}, C β → Prop) : Interface C Unit :=
  .isolated (fun _ _ _ _ => True) (fun c _ _ _ => P c)

/-- Some run of the program executes the command. -/
inductive Prog.Executes : {α : Type} → Prog C α → {β : Type} → C β → Prop where
  | here {α β : Type} (c : C β) (k : β → Prog C α) (b : β) : Executes (.exec c k) c
  | next {α β γ : Type} {c' : C γ} (c : C β) (k : β → Prog C α) (b : β) :
      Executes (k b) c' → Executes (.exec c k) c'
  | loop {α β γ τ : Type} {c' : C γ} (body : τ → Prog C (τ ⊕ β)) (s : τ) (k : β → Prog C α) :
      Executes (unroll body s k) c' → Executes (.loop body s k) c'

theorem Prog.wp_allowing_exec {P : ∀ {β : Type}, C β → Prop} {c : C β} {k : β → Prog C α}
    {Q : α → Unit → Prop} (hp : wp (@Interface.allowing C P) (.exec c k) Q ()) (b : β) :
    P c ∧ wp (@Interface.allowing C P) (k b) Q () :=
  wp_exec_elim hp trivial

theorem Prog.wp_allowing_mono {P P' : ∀ {β : Type}, C β → Prop}
    (hP : ∀ {β : Type} (c : C β), P c → P' c) {p : Prog C α} {Q : α → Unit → Prop}
    (hp : wp (@Interface.allowing C P) p Q ()) : wp (@Interface.allowing C P') p Q () := by
  intro n
  induction n generalizing p with
  | zero => trivial
  | succ n ih =>
    cases p with
    | ret a => exact hp 1
    | exec c k =>
      intro _ _ b _ _
      have ⟨hc, hk⟩ := wp_allowing_exec hp b
      exact ⟨hP c hc, ih hk⟩
    | loop body s k => exact ih (wp_unroll hp)

theorem Prog.Executes.allowed {P : ∀ {β : Type}, C β → Prop} {p : Prog C α} {c : C β}
    (h : p.Executes c) {Q : α → Unit → Prop} (hp : wp (.allowing P) p Q ()) : P c := by
  induction h with
  | here c k b => exact (wp_allowing_exec hp b).1
  | next c k b _ ih => exact ih (wp_allowing_exec hp b).2
  | loop body s k _ ih => exact ih (wp_unroll hp)

/-- Some run of the program returns the result. -/
inductive Prog.Returns : {α : Type} → Prog C α → α → Prop where
  | ret {α : Type} (a : α) : Returns (.ret a) a
  | exec {α β : Type} {a : α} (c : C β) (k : β → Prog C α) (b : β) :
      Returns (k b) a → Returns (.exec c k) a
  | loop {α β τ : Type} {a : α} (body : τ → Prog C (τ ⊕ β)) (s : τ) (k : β → Prog C α) :
      Returns (unroll body s k) a → Returns (.loop body s k) a

theorem Prog.Returns.satisfies {P : ∀ {β : Type}, C β → Prop} {p : Prog C α} {a : α}
    (h : p.Returns a) {Q : α → Unit → Prop} (hp : wp (.allowing P) p Q ()) : Q a () := by
  induction h with
  | ret a => exact wp_ret_elim hp
  | exec c k b _ ih => exact ih (wp_allowing_exec hp b).2
  | loop body s k _ ih => exact ih (wp_unroll hp)

/-! ## Runs in a world -/

/-- A complete run of a program that nobody interferes with. -/
inductive Prog.Runs {W : Type*} (step : ∀ {β : Type}, C β → W → β → W → Prop) :
    {α : Type} → Prog C α → W → α → W → Prop where
  | ret {α : Type} (a : α) (w : W) : Runs step (.ret a) w a w
  | exec {α β : Type} {c : C β} {k : β → Prog C α} {w w₁ w' : W} {a : α} (b : β) :
      step c w b w₁ → Runs step (k b) w₁ a w' → Runs step (.exec c k) w a w'
  | loop {α β τ : Type} {body : τ → Prog C (τ ⊕ β)} {s : τ} {k : β → Prog C α} {w w' : W}
      {a : α} : Runs step (unroll body s k) w a w' → Runs step (.loop body s k) w a w'

section Runs

variable {W : Type*} {step guar : ∀ {β : Type}, C β → W → β → W → Prop} {w w' : W}

theorem Prog.Runs.satisfies {p : Prog C α} {a : α} (h : p.Runs step w a w') {Q : α → W → Prop}
    (hp : wp (@Interface.isolated C W step guar) p Q w) : Q a w' := by
  induction h with
  | ret a w => exact wp_ret_elim hp
  | exec b hstep _ ih => exact ih (wp_exec_elim hp hstep).2
  | loop _ ih => exact ih (wp_unroll hp)

/-- An execution with given answers is a run, if its commands have the meaning
    that the answers give them. -/
theorem Prog.runs_of_execute {A : Type*} {exec : ∀ {β : Type}, C β → A → W → Option (β × W)}
    {as : List A} {p : Prog C α} {a : α}
    (hstep : ∀ a ∈ as, ∀ {β : Type} (c : C β) w b w', exec c a w = some (b, w') → step c w b w')
    (h : execute exec as p w = some (a, w')) : p.Runs step w a w' := by
  induction as generalizing p w with
  | nil =>
    obtain ⟨a', ha, heq⟩ := Option.map_eq_some_iff.mp h
    cases heq
    rw [eq_ret_of_result? ha]
    exact .ret _ _
  | cons a₁ as ih =>
    have ⟨hfirst, hrest⟩ := List.forall_mem_cons.mp hstep
    cases p with
    | ret a' => cases h
    | exec c k =>
      obtain ⟨a', as', b, w₁, heq, hexec, hk⟩ := execute_exec h
      cases heq
      exact .exec b (hfirst c w b w₁ hexec) (ih hrest hk)
    | loop body s k => exact .loop (ih hrest h)

end Runs

namespace Proc

variable {P : ∀ {β : Type}, C β → Prop}

/-- Whatever it is answered, the procedure executes only commands in `P`, and
    its results satisfy `Q`. -/
def Only (P : ∀ {β : Type}, C β → Prop) (m : Proc C ε σ α) (s : σ)
    (Q : α → Prop := fun _ => True) : Prop :=
  wp (.allowing P) m (fun a _ _ => Q a) (fun _ _ _ => True) s ()

theorem Only.allowed {m : Proc C ε σ α} {s : σ} {Q : α → Prop} {c : C β} (h : Only P m s Q)
    (hc : (m s).Executes c) : P c :=
  hc.allowed h

theorem Only.satisfies {m : Proc C ε σ α} {s s' : σ} {Q : α → Prop} {a : α} (h : Only P m s Q)
    (ha : (m s).Returns (.ok a, s')) : Q a :=
  ha.satisfies h

theorem Only.mono {m : Proc C ε σ α} {s : σ} {Q Q' : α → Prop} (h : Only P m s Q)
    (hQ : ∀ a, Q a → Q' a) : Only P m s Q' :=
  wp_mono h (fun a _ _ => hQ a) fun _ _ _ => id

theorem Only.weaken {P' : ∀ {β : Type}, C β → Prop} {m : Proc C ε σ α} {s : σ} {Q : α → Prop}
    (h : Only P m s Q) (hP : ∀ {β : Type} (c : C β), P c → P' c) : Only P' m s Q :=
  Prog.wp_allowing_mono hP h

theorem only_bind {m : Proc C ε σ α} {f : α → Proc C ε σ β} {s : σ} {Q : β → Prop}
    (R : α → Prop) (hm : Only P m s R) (hf : ∀ a s, R a → Only P (f a) s Q) :
    Only P (m >>= f) s Q :=
  wp_seq _ hm fun a s _ => hf a s

theorem only_pure {a : α} {s : σ} {Q : α → Prop} (h : Q a) :
    Only P (pure a : Proc C ε σ α) s Q :=
  wp_pure h

theorem only_throw {e : ε} {s : σ} {Q : α → Prop} : Only P (throw e : Proc C ε σ α) s Q :=
  wp_throw trivial

theorem only_ofExcept {r : Except ε α} {s : σ} :
    Only P (ofExcept r : Proc C ε σ α) s fun a => r = .ok a :=
  wp_ofExcept (fun _ h => h) fun _ _ => trivial

theorem only_call {c : C α} {s : σ} (h : P c) : Only P (call c : Proc C ε σ α) s :=
  wp_call fun _ _ _ _ _ => ⟨h, trivial⟩

theorem only_attempt {c : C (Except ε α)} {s : σ} (h : P c) :
    Only P (attempt c : Proc C ε σ α) s :=
  wp_attempt fun _ _ r _ _ => ⟨h, by cases r <;> trivial⟩

theorem only_outcome {m : Proc C ε σ α} {s : σ} (h : Only P m s) : Only P (outcome m) s :=
  wp_outcome h

end Proc

end Interaction
