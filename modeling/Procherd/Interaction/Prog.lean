-- SUMMARY: Sequential programs over a command signature, as trees whose branching is the answer to a command.
import Mathlib.Logic.Function.Basic

/-!
# Interaction programs

A program over a command signature `C` is a tree. A node executes one command
and continues with the answer, or runs a loop. What a command does is not part
of the program: a machine (`Interaction.Machine`) or an interface of the logic
(`Interaction.Interface`) supplies the meaning.
-/

namespace Interaction

inductive Prog (C : Type → Type) : Type → Type 1 where
  | ret {α : Type} (a : α) : Prog C α
  | exec {α β : Type} (c : C β) (k : β → Prog C α) : Prog C α
  /-- Run `body` from `s`. A result `.inl s'` repeats it from `s'`, a result
      `.inr b` leaves the loop with `b`. -/
  | loop {α β σ : Type} (body : σ → Prog C (σ ⊕ β)) (s : σ) (k : β → Prog C α) : Prog C α

namespace Prog

variable {C : Type → Type} {α β γ σ : Type}

/-! ## Prog.bind -/

def bind : Prog C α → (α → Prog C β) → Prog C β
  | .ret a, f => f a
  | .exec c k, f => .exec c (fun b => (k b).bind f)
  | .loop body s k, f => .loop body s (fun b => (k b).bind f)

instance : Monad (Prog C) where
  pure := ret
  bind := bind

@[simp] theorem pure_eq (a : α) : (pure a : Prog C α) = .ret a := rfl
@[simp] theorem bind_eq (p : Prog C α) (f : α → Prog C β) : p >>= f = p.bind f := rfl

@[simp] theorem bind_ret (a : α) (f : α → Prog C β) : (ret a).bind f = f a := rfl
@[simp] theorem bind_exec (c : C γ) (k : γ → Prog C α) (f : α → Prog C β) :
    (exec c k).bind f = .exec c (fun b => (k b).bind f) := rfl
@[simp] theorem bind_loop (body : σ → Prog C (σ ⊕ γ)) (s : σ) (k : γ → Prog C α)
    (f : α → Prog C β) :
    (loop body s k).bind f = .loop body s (fun b => (k b).bind f) := rfl

theorem bind_assoc (p : Prog C α) (f : α → Prog C β) (g : β → Prog C γ) :
    (p.bind f).bind g = p.bind (fun a => (f a).bind g) := by
  induction p with
  | ret a => rfl
  | exec c k ih => simp only [bind_exec, ih]
  | loop body s k _ ih => simp only [bind_loop, ih]

/-- The program that executes a single command. -/
def call (c : C α) : Prog C α := .exec c .ret

/-- The program that runs a loop and returns its result. -/
def iterate (body : σ → Prog C (σ ⊕ β)) (s : σ) : Prog C β := .loop body s .ret

/-- One unfolding of a loop. -/
def unroll (body : σ → Prog C (σ ⊕ β)) (s : σ) (k : β → Prog C α) : Prog C α :=
  (body s).bind fun
    | .inl s' => .loop body s' k
    | .inr b => k b

theorem unroll_bind (body : σ → Prog C (σ ⊕ β)) (s : σ) (k : β → Prog C α)
    (f : α → Prog C γ) :
    (unroll body s k).bind f = unroll body s (fun b => (k b).bind f) := by
  simp only [unroll, bind_assoc]
  congr 1
  funext r
  cases r <;> rfl

/-! ## Translating the commands -/

/-- Run a program over `C` with its commands read as commands of `D`. -/
def hoist {D : Type → Type} (f : ∀ {β : Type}, C β → D β) : {α : Type} → Prog C α → Prog D α
  | _, .ret a => .ret a
  | _, .exec c k => .exec (f c) (fun b => (k b).hoist f)
  | _, .loop body s k => .loop (fun s' => (body s').hoist f) s (fun b => (k b).hoist f)

/-! ## One step of a program

A step executes the next command with the meaning `exec`, or unfolds a loop.
Unfolding is a step of its own: a loop whose body executes no command then
still has one successor. -/

def step {W : Type*} (exec : ∀ {β : Type}, C β → W → Option (β × W)) :
    Prog C α → W → Option (Prog C α × W)
  | .ret _, _ => none
  | .exec c k, w => (exec c w).map fun r => (k r.1, r.2)
  | .loop body s k, w => some (unroll body s k, w)

/-- The result of a program that has returned. -/
def result? : Prog C α → Option α
  | .ret a => some a
  | _ => none

theorem eq_ret_of_result? {p : Prog C α} {a : α} (h : p.result? = some a) : p = .ret a := by
  cases p with
  | ret b => exact congrArg ret (Option.some.inj h)
  | exec c k => cases h
  | loop body s k => cases h

/-! ## Executions by themselves

A complete execution of a program that nobody interferes with takes one answer
for each of its steps. -/

section Execute

variable {A W : Type*} {exec : ∀ {β : Type}, C β → A → W → Option (β × W)} {w : W}

def execute (exec : ∀ {β : Type}, C β → A → W → Option (β × W)) :
    List A → Prog C α → W → Option (α × W)
  | [], p, w => p.result?.map fun a => (a, w)
  | a :: as, p, w => (p.step (fun c => exec c a) w).bind fun r => execute exec as r.1 r.2

theorem execute_ret {as : List A} {a : α} {r : α × W} (h : execute exec as (.ret a) w = some r) :
    as = [] ∧ r = (a, w) := by
  cases as with
  | nil => exact ⟨rfl, (Option.some.inj h).symm⟩
  | cons a as => cases h

theorem execute_exec {as : List A} {c : C β} {k : β → Prog C α} {r : α × W}
    (h : execute exec as (.exec c k) w = some r) :
    ∃ a as' b w', as = a :: as' ∧ exec c a w = some (b, w') ∧
      execute exec as' (k b) w' = some r := by
  cases as with
  | nil => cases h
  | cons a as =>
    obtain ⟨⟨p, w'⟩, hstep, hrest⟩ := Option.bind_eq_some_iff.mp h
    obtain ⟨⟨b, w''⟩, hexec, hp⟩ := Option.map_eq_some_iff.mp hstep
    cases hp
    exact ⟨a, as, b, w'', rfl, hexec, hrest⟩

theorem execute_cons {a : A} {as : List A} {c : C β} {k : β → Prog C α} (b : β) (w' : W)
    (h : exec c a w = some (b, w')) :
    execute exec (a :: as) (.exec c k) w = execute exec as (k b) w' := by
  simp only [execute, step, h, Option.map_some, Option.bind_some]

/-- What every command keeps, an execution keeps. -/
theorem execute_invariant {I : W → Prop}
    (hI : ∀ {β : Type} (c : C β) a w b w', exec c a w = some (b, w') → I w → I w')
    {as : List A} {p : Prog C α} {r : α × W} (h : execute exec as p w = some r) (hw : I w) :
    I r.2 := by
  induction as generalizing p w with
  | nil =>
    obtain ⟨a, -, rfl⟩ := Option.map_eq_some_iff.mp h
    exact hw
  | cons a as ih =>
    obtain ⟨⟨p', w'⟩, hstep, hrest⟩ := Option.bind_eq_some_iff.mp h
    refine ih hrest ?_
    cases p with
    | ret a => cases hstep
    | exec c k =>
      obtain ⟨⟨b, w''⟩, hexec, hp⟩ := Option.map_eq_some_iff.mp hstep
      cases hp
      exact hI c a w b w'' hexec hw
    | loop body s k => cases hstep; exact hw

/-- An execution of a program and then of what it continues with. -/
theorem execute_bind {as : List A} {p : Prog C α} {f : α → Prog C β} {r : β × W}
    (h : execute exec as (p.bind f) w = some r) :
    ∃ as₁ as₂ a w', as = as₁ ++ as₂ ∧ execute exec as₁ p w = some (a, w') ∧
      execute exec as₂ (f a) w' = some r := by
  induction as generalizing p w with
  | nil =>
    cases p with
    | ret a => exact ⟨[], [], a, w, rfl, rfl, h⟩
    | exec c k => cases h
    | loop body s k => cases h
  | cons a as ih =>
    cases p with
    | ret x => exact ⟨[], a :: as, x, w, rfl, rfl, h⟩
    | exec c k =>
      obtain ⟨a', as', b, w', heq, hexec, hrest⟩ := execute_exec h
      cases heq
      obtain ⟨as₁, as₂, x, w'', rfl, hp, hf⟩ := ih hrest
      exact ⟨a :: as₁, as₂, x, w'', rfl, (execute_cons _ _ hexec).trans hp, hf⟩
    | loop body s k =>
      have hrest : execute exec as ((unroll body s k).bind f) w = some r := by
        rw [unroll_bind]
        exact h
      obtain ⟨as₁, as₂, x, w'', rfl, hp, hf⟩ := ih hrest
      exact ⟨a :: as₁, as₂, x, w'', rfl, hp, hf⟩

theorem execute_append {as₁ as₂ : List A} {p : Prog C α} {f : α → Prog C β} {a : α} {w' : W}
    (h : execute exec as₁ p w = some (a, w')) :
    execute exec (as₁ ++ as₂) (p.bind f) w = execute exec as₂ (f a) w' := by
  induction as₁ generalizing p w with
  | nil =>
    cases p with
    | ret x => cases h; rfl
    | exec c k => cases h
    | loop body s k => cases h
  | cons a₁ as₁ ih =>
    cases p with
    | ret x => cases h
    | exec c k =>
      obtain ⟨a', as', b, w'', heq, hexec, hrest⟩ := execute_exec h
      cases heq
      exact (execute_cons _ _ hexec).trans (ih hrest)
    | loop body s k =>
      change execute exec (as₁ ++ as₂) (unroll body s fun b => (k b).bind f) w = _
      rw [← unroll_bind]
      exact ih h

end Execute

end Prog

end Interaction
