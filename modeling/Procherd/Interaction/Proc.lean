-- SUMMARY: Procedures: interaction programs with a local store and errors, and their weakest precondition.
import Procherd.Interaction.Logic

/-!
# Procedures

A procedure is an interaction program that also reads and writes a local store
and may stop with an error. The store survives the error: what a caller does
with its resources after a failure is a procedure on the store left behind.
-/

namespace Interaction

universe u

def Proc (C : Type → Type) (ε σ α : Type) : Type 1 := σ → Prog C (Except ε α × σ)

namespace Proc

variable {C : Type → Type} {ε σ τ α β : Type}

def bind (m : Proc C ε σ α) (f : α → Proc C ε σ β) : Proc C ε σ β := fun s =>
  (m s).bind fun
    | (.ok a, s') => f a s'
    | (.error e, s') => .ret (.error e, s')

instance : Monad (Proc C ε σ) where
  pure a := fun s => .ret (.ok a, s)
  bind := bind

/-! ## Primitive procedures -/

def throw (e : ε) : Proc C ε σ α := fun s => .ret (.error e, s)

def get : Proc C ε σ σ := fun s => .ret (.ok s, s)

def modify (f : σ → σ) : Proc C ε σ Unit := fun s => .ret (.ok (), f s)

/-- Execute a command. -/
def call (c : C α) : Proc C ε σ α := fun s => .exec c fun a => .ret (.ok a, s)

/-- Execute a command and propagate its error. -/
def attempt (c : C (Except ε α)) : Proc C ε σ α := fun s => .exec c fun r => .ret (r, s)

def ofExcept (r : Except ε α) : Proc C ε σ α := fun s => .ret (r, s)

/-- Stop with an error under a condition. -/
def throwIf (c : Prop) [Decidable c] (e : ε) : Proc C ε σ Unit := if c then throw e else pure ()

/-- Run a procedure and return its outcome, an error included. -/
def outcome (m : Proc C ε σ α) : Proc C ε σ (Except ε α) := fun s =>
  (m s).bind fun (r, s') => .ret (.ok r, s')

/-- Run a procedure on a store of its own. -/
def withStore (t : τ) (m : Proc C ε τ α) : Proc C ε σ (Except ε α × τ) := fun s =>
  (m t).bind fun r => .ret (.ok r, s)

/-- Run `m`, then `cleanup` whatever the outcome of `m` was. -/
def ensuring (m : Proc C ε σ α) (cleanup : Proc C ε σ Unit) : Proc C ε σ α := do
  let result ← outcome m
  cleanup
  ofExcept result

/-- Repeat `body` until it returns a result. -/
def repeatUntil (body : Proc C ε σ (Option α)) : Proc C ε σ α := fun s =>
  .loop (fun s' => (body s').bind fun
    | (.ok none, s'') => .ret (.inl s'')
    | (.ok (some a), s'') => .ret (.inr (.ok a, s''))
    | (.error e, s'') => .ret (.inr (.error e, s''))) s .ret

/-- Run a procedure with its commands read as commands of `D`. -/
def hoist {D : Type → Type} (f : ∀ {β : Type}, C β → D β) (m : Proc C ε σ α) : Proc D ε σ α :=
  fun s => (m s).hoist f

/-! ## Weakest preconditions

A procedure has two postconditions: `Q` for a result and `E` for an error. -/

variable {O : Type u} {L : Interface C O}

/-- The postcondition of the underlying program. -/
def Post (Q : α → σ → O → Prop) (E : ε → σ → O → Prop) : Except ε α × σ → O → Prop
  | (.ok a, s), o => Q a s o
  | (.error e, s), o => E e s o

def wp (L : Interface C O) (m : Proc C ε σ α) (Q : α → σ → O → Prop) (E : ε → σ → O → Prop)
    (s : σ) (o : O) : Prop :=
  (m s).wp L (Post Q E) o

variable {Q Q' : α → σ → O → Prop} {E E' : ε → σ → O → Prop} {s : σ} {o : O}

theorem wp_mono {m : Proc C ε σ α} (hm : wp L m Q E s o) (hQ : ∀ a s o, Q a s o → Q' a s o)
    (hE : ∀ e s o, E e s o → E' e s o) : wp L m Q' E' s o := by
  refine Prog.wp_mono ?_ hm
  rintro ⟨r | a, s'⟩ o' h
  · exact hE _ _ _ h
  · exact hQ _ _ _ h

theorem wp_pure {a : α} (h : Q a s o) : wp L (pure a : Proc C ε σ α) Q E s o :=
  Prog.wp_ret h

theorem wp_throw {e : ε} (h : E e s o) : wp L (throw e : Proc C ε σ α) Q E s o :=
  Prog.wp_ret h

theorem wp_get {Q : σ → σ → O → Prop} (h : Q s s o) : wp L (get : Proc C ε σ σ) Q E s o :=
  Prog.wp_ret h

theorem wp_modify {Q : Unit → σ → O → Prop} {f : σ → σ} (h : Q () (f s) o) :
    wp L (modify f : Proc C ε σ Unit) Q E s o :=
  Prog.wp_ret h

theorem wp_ofExcept {r : Except ε α} (hok : ∀ a, r = .ok a → Q a s o)
    (herr : ∀ e, r = .error e → E e s o) : wp L (ofExcept r : Proc C ε σ α) Q E s o := by
  apply Prog.wp_ret
  cases r with
  | ok a => exact hok a rfl
  | error e => exact herr e rfl

theorem wp_throwIf {c : Prop} [Decidable c] {e : ε} {Q : Unit → σ → O → Prop} (hthrow : c → E e s o)
    (hpass : ¬ c → Q () s o) : wp L (throwIf c e : Proc C ε σ Unit) Q E s o := by
  unfold throwIf
  split
  · rename_i h
    exact wp_throw (hthrow h)
  · rename_i h
    exact wp_pure (hpass h)

theorem wp_bind {m : Proc C ε σ α} {f : α → Proc C ε σ β} {Q : β → σ → O → Prop}
    (h : wp L m (fun a s o => wp L (f a) Q E s o) E s o) : wp L (m >>= f) Q E s o := by
  apply Prog.wp_bind
  refine Prog.wp_mono ?_ h
  rintro ⟨r | a, s'⟩ o' h
  · exact Prog.wp_ret h
  · exact h

/-- `wp_bind` with the postcondition of the first part named. -/
theorem wp_seq {m : Proc C ε σ α} {f : α → Proc C ε σ β} {Q : β → σ → O → Prop}
    (R : α → σ → O → Prop) (hm : wp L m R E s o)
    (hf : ∀ a s o, R a s o → wp L (f a) Q E s o) : wp L (m >>= f) Q E s o :=
  wp_bind (wp_mono hm hf fun _ _ _ => id)

/-! The parts of a procedure that execute no command are simplified away. -/

@[simp] theorem wp_pure_iff {a : α} : wp L (pure a : Proc C ε σ α) Q E s o ↔ Q a s o :=
  ⟨Prog.wp_ret_elim, wp_pure⟩

@[simp] theorem wp_throw_iff {e : ε} : wp L (throw e : Proc C ε σ α) Q E s o ↔ E e s o :=
  ⟨Prog.wp_ret_elim, wp_throw⟩

@[simp] theorem wp_pure_bind {a : α} {f : α → Proc C ε σ β} {Q : β → σ → O → Prop} :
    wp L (pure a >>= f) Q E s o ↔ wp L (f a) Q E s o := .rfl

@[simp] theorem wp_throw_bind {e : ε} {f : α → Proc C ε σ β} {Q : β → σ → O → Prop} :
    wp L (throw e >>= f) Q E s o ↔ E e s o :=
  ⟨Prog.wp_ret_elim, fun h => Prog.wp_ret h⟩

@[simp] theorem wp_get_bind {f : σ → Proc C ε σ β} {Q : β → σ → O → Prop} :
    wp L (get >>= f) Q E s o ↔ wp L (f s) Q E s o := .rfl

@[simp] theorem wp_modify_bind {g : σ → σ} {f : Unit → Proc C ε σ β} {Q : β → σ → O → Prop} :
    wp L (modify g >>= f) Q E s o ↔ wp L (f ()) Q E (g s) o := .rfl

@[simp] theorem wp_modify_iff {g : σ → σ} {Q : Unit → σ → O → Prop} :
    wp L (modify g : Proc C ε σ Unit) Q E s o ↔ Q () (g s) o :=
  ⟨Prog.wp_ret_elim, wp_modify⟩

theorem wp_call {c : C α}
    (h : ∀ o', L.rely o o' → ∀ a o'', L.step c o' a o'' → L.guar c o' a o'' ∧ Q a s o'') :
    wp L (call c : Proc C ε σ α) Q E s o := by
  apply Prog.wp_exec
  intro o' ho a o'' hstep
  exact ⟨(h o' ho a o'' hstep).1, Prog.wp_ret (h o' ho a o'' hstep).2⟩

theorem wp_attempt {c : C (Except ε α)}
    (h : ∀ o', L.rely o o' → ∀ r o'', L.step c o' r o'' →
      L.guar c o' r o'' ∧ Post Q E (r, s) o'') :
    wp L (attempt c : Proc C ε σ α) Q E s o := by
  apply Prog.wp_exec
  intro o' ho r o'' hstep
  exact ⟨(h o' ho r o'' hstep).1, Prog.wp_ret (h o' ho r o'' hstep).2⟩

theorem wp_call_keeps {cs : ∀ {β : Type}, C β → Bool} {J : O → Prop} (h : L.Keeps cs J) {c : C α}
    (hc : cs c) (ho : J o) :
    wp L (call c : Proc C ε σ α) (fun _ s' o' => s' = s ∧ J o') E s o :=
  wp_call fun _ hrely _ _ hstep => ⟨(h c hc ho hrely hstep).1, rfl, (h c hc ho hrely hstep).2⟩

theorem wp_attempt_keeps {cs : ∀ {β : Type}, C β → Bool} {J : O → Prop} (h : L.Keeps cs J)
    {c : C (Except ε α)} (hc : cs c) (hE : ∀ e o', J o' → E e s o') (ho : J o) :
    wp L (attempt c : Proc C ε σ α) (fun _ s' o' => s' = s ∧ J o') E s o := by
  apply wp_attempt
  intro o' hrely r o'' hstep
  have ⟨hguar, ho⟩ := h c hc ho hrely hstep
  refine ⟨hguar, ?_⟩
  cases r with
  | ok a => exact ⟨rfl, ho⟩
  | error e => exact hE e o'' ho

theorem wp_outcome {m : Proc C ε σ α} {Q : Except ε α → σ → O → Prop}
    (h : wp L m (fun a => Q (.ok a)) (fun e => Q (.error e)) s o) :
    wp L (outcome m) Q E s o := by
  apply Prog.wp_bind
  refine Prog.wp_mono ?_ h
  rintro ⟨r | a, s'⟩ o' h <;> exact Prog.wp_ret h

theorem wp_ensuring {m : Proc C ε σ α} {cleanup : Proc C ε σ Unit}
    (h : wp L m (fun a s o => wp L cleanup (fun _ => Q a) E s o)
      (fun e s o => wp L cleanup (fun _ => E e) E s o) s o) :
    wp L (ensuring m cleanup) Q E s o := by
  apply wp_bind
  apply wp_outcome
  refine wp_mono h ?_ ?_
  · intro a s o hc
    exact wp_seq _ hc fun _ _ _ hQ => wp_ofExcept (fun _ h => by cases h; exact hQ) (by simp)
  · intro e s o hc
    exact wp_seq _ hc fun _ _ _ hE => wp_ofExcept (by simp) (fun _ h => by cases h; exact hE)

theorem wp_withStore {m : Proc C ε τ α} {t : τ} {Q : Except ε α × τ → σ → O → Prop}
    (h : wp L m (fun a t' => Q (.ok a, t') s) (fun e t' => Q (.error e, t') s) t o) :
    wp L (withStore t m) Q E s o := by
  apply Prog.wp_bind
  refine Prog.wp_mono ?_ h
  rintro ⟨r | a, t'⟩ o' h <;> exact Prog.wp_ret h

theorem wp_repeatUntil {body : Proc C ε σ (Option α)} (I : σ → O → Prop)
    (hbody : ∀ s o, I s o → wp L body (fun r s o => r.elim (I s o) (fun a => Q a s o)) E s o)
    (h : I s o) : wp L (repeatUntil body) Q E s o := by
  refine Prog.wp_loop I ?_ h
  intro s o hI
  apply Prog.wp_bind
  refine Prog.wp_mono ?_ (hbody s o hI)
  rintro ⟨e | r, s'⟩ o' h
  · exact Prog.wp_ret (Prog.wp_ret h)
  · cases r with
    | none => exact Prog.wp_ret h
    | some a => exact Prog.wp_ret (Prog.wp_ret h)

theorem wp_hoist {D : Type → Type} {f : ∀ {β : Type}, C β → D β} {L : Interface D O}
    {m : Proc C ε σ α} (h : wp (L.comap f) m Q E s o) : wp L (m.hoist f) Q E s o :=
  Prog.wp_hoist h

/-- An assertion on the store and the view that every command keeps, whatever
    the store, holds after every outcome of a procedure that leaves the store. -/
theorem wp_of_invariant {I : O → Prop}
    (hstep : ∀ {β : Type} (c : C β) o b o', I o → L.step c o b o' → L.guar c o b o' ∧ I o')
    (hrely : ∀ o o', I o → L.rely o o' → I o') (m : Proc C ε σ α) (h : I o) :
    wp L m (fun _ _ => I) (fun _ _ => I) s o :=
  Prog.wp_mono (fun r _ h => by rcases r with ⟨_ | _, _⟩ <;> exact h)
    (Prog.wp_of_invariant hstep hrely (m s) h)

/-! ## Executions by themselves -/

section Execute

variable {A W : Type*} {exec : ∀ {β : Type}, C β → A → W → Option (β × W)} {as : List A} {w w' : W}

theorem execute_bind {m : Proc C ε σ α} {f : α → Proc C ε σ β} {r : Except ε β × σ}
    (h : Prog.execute exec as ((m >>= f) s) w = some (r, w')) :
    ∃ as₁ as₂ r₁ s₁ w₁, as = as₁ ++ as₂ ∧ Prog.execute exec as₁ (m s) w = some ((r₁, s₁), w₁) ∧
      ((∃ a, r₁ = .ok a ∧ Prog.execute exec as₂ (f a s₁) w₁ = some (r, w')) ∨
        ∃ e, r₁ = .error e ∧ r = (.error e, s₁) ∧ w' = w₁) := by
  obtain ⟨as₁, as₂, ⟨r₁, s₁⟩, w₁, rfl, hm, hf⟩ := Prog.execute_bind h
  refine ⟨as₁, as₂, r₁, s₁, w₁, rfl, hm, ?_⟩
  cases r₁ with
  | ok a => exact .inl ⟨a, rfl, hf⟩
  | error e =>
    cases (Prog.execute_ret hf).2
    exact .inr ⟨e, rfl, rfl, rfl⟩

/-- The execution of a sequence that returns. -/
theorem execute_seq {m : Proc C ε σ α} {f : α → Proc C ε σ β} {b : β} {s' : σ}
    (h : Prog.execute exec as ((m >>= f) s) w = some ((.ok b, s'), w')) :
    ∃ as₁ as₂ a s₁ w₁, as = as₁ ++ as₂ ∧
      Prog.execute exec as₁ (m s) w = some ((.ok a, s₁), w₁) ∧
      Prog.execute exec as₂ (f a s₁) w₁ = some ((.ok b, s'), w') := by
  obtain ⟨as₁, as₂, r, s₁, w₁, rfl, hm, ⟨a, rfl, hf⟩ | ⟨e, -, hr, -⟩⟩ := execute_bind h
  · exact ⟨as₁, as₂, a, s₁, w₁, rfl, hm, hf⟩
  · cases hr

theorem execute_ofExcept {r : Except ε α} {r' : Except ε α × σ}
    (h : Prog.execute exec as (ofExcept r s) w = some (r', w')) : r' = (r, s) ∧ w' = w := by
  cases (Prog.execute_ret h).2
  exact ⟨rfl, rfl⟩

theorem execute_call {c : C α} {r : Except ε α × σ}
    (h : Prog.execute exec as (call c s) w = some (r, w')) :
    ∃ a b, exec c a w = some (b, w') ∧ r = (.ok b, s) := by
  obtain ⟨a, as', b, w₁, rfl, hexec, h⟩ := Prog.execute_exec h
  cases (Prog.execute_ret h).2
  exact ⟨a, b, hexec, rfl⟩

theorem execute_attempt {c : C (Except ε α)} {r : Except ε α × σ}
    (h : Prog.execute exec as (attempt c s) w = some (r, w')) :
    ∃ a, as = [a] ∧ exec c a w = some (r.1, w') ∧ r.2 = s := by
  obtain ⟨a, as', b, w₁, rfl, hexec, h⟩ := Prog.execute_exec h
  cases as' with
  | nil => cases h; exact ⟨a, rfl, hexec, rfl⟩
  | cons _ _ => cases h

theorem execute_pure {a : α} {r : Except ε α × σ}
    (h : Prog.execute exec as ((pure a : Proc C ε σ α) s) w = some (r, w')) :
    r = (.ok a, s) ∧ w' = w := by
  cases (Prog.execute_ret h).2
  exact ⟨rfl, rfl⟩

end Execute

end Proc

end Interaction
