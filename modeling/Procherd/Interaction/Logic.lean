-- SUMMARY: A step-indexed rely-guarantee weakest precondition for interaction programs, and its rules.
import Procherd.Interaction.Prog

/-!
# Weakest preconditions

`wp L p Q o` says that the program `p`, run from the view `o` of the world,
only makes steps that the guarantee of `L` allows, and that `Q` holds of every
result it can return, whatever the rely of `L` lets the other threads do before
each of its commands. It says nothing about termination: it is the safety of
every finite execution, and is defined as the limit of its approximations.
-/

namespace Interaction

universe u w

/-- The meaning of a command signature over a view `O` of the world: what a
    command may do, what the other threads may do, and what a step promises. -/
structure Interface (C : Type → Type) (O : Type u) where
  step : ∀ {β : Type}, C β → O → β → O → Prop
  rely : O → O → Prop
  guar : ∀ {β : Type}, C β → O → β → O → Prop
  rely_refl : ∀ o, rely o o
  rely_trans : ∀ {o₁ o₂ o₃}, rely o₁ o₂ → rely o₂ o₃ → rely o₁ o₃

/-- The interface of a thread whose view no other thread changes. -/
@[reducible] def Interface.isolated {C : Type → Type} {O : Type u}
    (step guar : ∀ {β : Type}, C β → O → β → O → Prop) : Interface C O where
  step := step
  rely := Eq
  guar := guar
  rely_refl := fun _ => rfl
  rely_trans := fun h h' => h.trans h'

/-- The interface of the commands that `f` reads as commands of `L`. -/
@[reducible] def Interface.comap {C D : Type → Type} {O : Type u} (L : Interface D O)
    (f : ∀ {β : Type}, C β → D β) : Interface C O where
  step := fun c => L.step (f c)
  rely := L.rely
  guar := fun c => L.guar (f c)
  rely_refl := L.rely_refl
  rely_trans := L.rely_trans

/-- The commands in `cs` keep `J`, and are allowed where it holds. -/
def Interface.Keeps {C : Type → Type} {O : Type u} (L : Interface C O)
    (cs : ∀ {β : Type}, C β → Bool) (J : O → Prop) : Prop :=
  ∀ {β : Type} (c : C β), cs c → ∀ {o o' b o''}, J o → L.rely o o' → L.step c o' b o'' →
    L.guar c o' b o'' ∧ J o''

namespace Prog

variable {C : Type → Type} {O : Type u} {L : Interface C O} {α β γ σ : Type}

/-! ## The approximations -/

def wpN (L : Interface C O) : Nat → {α : Type} → Prog C α → (α → O → Prop) → O → Prop
  | 0, _, _, _, _ => True
  | _ + 1, _, .ret a, Q, o => Q a o
  | n + 1, _, .exec c k, Q, o =>
      ∀ o', L.rely o o' → ∀ b o'', L.step c o' b o'' → L.guar c o' b o'' ∧ wpN L n (k b) Q o''
  | n + 1, _, .loop body s k, Q, o => wpN L n (unroll body s k) Q o

theorem wpN_mono {Q Q' : α → O → Prop} (h : ∀ a o, Q a o → Q' a o) {n : Nat} {p : Prog C α}
    {o : O} (hp : wpN L n p Q o) : wpN L n p Q' o := by
  induction n generalizing p o with
  | zero => trivial
  | succ n ih =>
    cases p with
    | ret a => exact h _ _ hp
    | exec c k =>
      intro o' ho b o'' hstep
      exact ⟨(hp o' ho b o'' hstep).1, ih (hp o' ho b o'' hstep).2⟩
    | loop body s k => exact ih (p := unroll body s k) hp

theorem wpN_le {Q : α → O → Prop} {m n : Nat} (hmn : m ≤ n) {p : Prog C α} {o : O}
    (hp : wpN L n p Q o) : wpN L m p Q o := by
  induction m generalizing n p o with
  | zero => trivial
  | succ m ih =>
    obtain ⟨n, rfl⟩ : ∃ k, n = k + 1 := ⟨n - 1, by omega⟩
    cases p with
    | ret a => exact hp
    | exec c k =>
      intro o' ho b o'' hstep
      exact ⟨(hp o' ho b o'' hstep).1, ih (by omega) (hp o' ho b o'' hstep).2⟩
    | loop body s k => exact ih (p := unroll body s k) (by omega) hp

theorem wpN_bind {n : Nat} {p : Prog C α} {f : α → Prog C β} {Q : β → O → Prop} {o : O}
    (hp : wpN L n p (fun a o => wpN L n (f a) Q o) o) : wpN L n (p.bind f) Q o := by
  induction n generalizing p o with
  | zero => trivial
  | succ n ih =>
    cases p with
    | ret a => exact hp
    | exec c k =>
      intro o' ho b o'' hstep
      have ⟨hguar, hk⟩ := hp o' ho b o'' hstep
      exact ⟨hguar, ih (wpN_mono (fun _ _ => wpN_le (Nat.le_succ n)) hk)⟩
    | loop body s k =>
      change wpN L n (unroll body s (fun b => (k b).bind f)) Q o
      rw [← unroll_bind]
      exact ih (wpN_mono (fun _ _ => wpN_le (Nat.le_succ n)) hp)

/-! ## The weakest precondition -/

def wp (L : Interface C O) (p : Prog C α) (Q : α → O → Prop) (o : O) : Prop :=
  ∀ n, wpN L n p Q o

theorem wp_mono {p : Prog C α} {Q Q' : α → O → Prop} {o : O} (h : ∀ a o, Q a o → Q' a o)
    (hp : wp L p Q o) : wp L p Q' o :=
  fun n => wpN_mono h (hp n)

theorem wp_ret {a : α} {Q : α → O → Prop} {o : O} (h : Q a o) : wp L (.ret a) Q o := by
  intro n
  cases n with
  | zero => trivial
  | succ n => exact h

theorem wp_exec {c : C β} {k : β → Prog C α} {Q : α → O → Prop} {o : O}
    (h : ∀ o', L.rely o o' → ∀ b o'', L.step c o' b o'' →
      L.guar c o' b o'' ∧ wp L (k b) Q o'') : wp L (.exec c k) Q o := by
  intro n
  cases n with
  | zero => trivial
  | succ n => exact fun o' ho b o'' hstep => ⟨(h o' ho b o'' hstep).1, (h o' ho b o'' hstep).2 n⟩

theorem wp_bind {p : Prog C α} {f : α → Prog C β} {Q : β → O → Prop} {o : O}
    (hp : wp L p (fun a o => wp L (f a) Q o) o) : wp L (p.bind f) Q o :=
  fun n => wpN_bind (wpN_mono (fun _ _ h => h n) (hp n))

/-- The rule of loops: `I` is the loop invariant. -/
theorem wp_loop {body : σ → Prog C (σ ⊕ β)} {k : β → Prog C α} {Q : α → O → Prop}
    (I : σ → O → Prop)
    (hbody : ∀ s o, I s o →
      wp L (body s) (fun r o' => r.elim (fun s' => I s' o') (fun b => wp L (k b) Q o')) o)
    {s : σ} {o : O} (h : I s o) : wp L (.loop body s k) Q o := by
  intro n
  induction n generalizing s o with
  | zero => trivial
  | succ n ih =>
    apply wpN_bind
    refine wpN_mono ?_ (hbody s o h n)
    intro r o' hr
    cases r with
    | inl s' => exact ih hr
    | inr b => exact hr n

/-! ## Reading a weakest precondition -/

theorem wp_ret_elim {a : α} {Q : α → O → Prop} {o : O} (h : wp L (.ret a) Q o) : Q a o :=
  h 1

theorem wp_exec_elim {c : C β} {k : β → Prog C α} {Q : α → O → Prop} {o o' : O} {b : β}
    (h : wp L (.exec c k) Q o) (hstep : L.step c o b o') : L.guar c o b o' ∧ wp L (k b) Q o' :=
  ⟨(h 1 o (L.rely_refl o) b o' hstep).1, fun n => (h (n + 1) o (L.rely_refl o) b o' hstep).2⟩

theorem wp_unroll {body : σ → Prog C (σ ⊕ β)} {s : σ} {k : β → Prog C α} {Q : α → O → Prop}
    {o : O} (h : wp L (.loop body s k) Q o) : wp L (unroll body s k) Q o :=
  fun n => h (n + 1)

/-- A step of another thread keeps the weakest precondition, provided that it
    keeps what is claimed of the result. -/
theorem wp_rely {p : Prog C α} {Q : α → O → Prop} {o o' : O}
    (hQ : ∀ a o o', L.rely o o' → Q a o → Q a o') (h : L.rely o o') (hp : wp L p Q o) :
    wp L p Q o' := by
  intro n
  induction n generalizing p with
  | zero => trivial
  | succ n ih =>
    cases p with
    | ret a => exact hQ a o o' h (hp 1)
    | exec c k => exact fun o'' ho => hp (n + 1) o'' (L.rely_trans h ho)
    | loop body s k => exact ih (wp_unroll hp)

/-! ## Changing the interface -/

/-- A program verified against `L` may be run against a finer interface `L'`,
    as long as the program keeps what relates the two. -/
theorem wp_refine {O' : Type w} {L' : Interface C O'} {V : O' → O} {I : O' → Prop}
    (hrely : ∀ x x', I x → L'.rely x x' → I x' ∧ L.rely (V x) (V x'))
    (hstep : ∀ {β : Type} (c : C β) x b x', I x → L'.step c x b x' →
      I x' ∧ L.step c (V x) b (V x'))
    (hguar : ∀ {β : Type} (c : C β) x b x', I x → L.guar c (V x) b (V x') → L'.guar c x b x')
    {p : Prog C α} {Q : α → O → Prop} {x : O'} (h : wp L p Q (V x)) (hx : I x) :
    wp L' p (fun a x' => Q a (V x') ∧ I x') x := by
  intro n
  induction n generalizing p x with
  | zero => trivial
  | succ n ih =>
    cases p with
    | ret a => exact ⟨h 1, hx⟩
    | exec c k =>
      intro x' hx' b x'' hs
      have ⟨hown, hrel⟩ := hrely x x' hx hx'
      have ⟨hown', hs'⟩ := hstep c x' b x'' hown hs
      exact ⟨hguar c x' b x'' hown (h 1 _ hrel b _ hs').1,
        ih (fun m => (h (m + 1) _ hrel b _ hs').2) hown'⟩
    | loop body s k => exact ih (wp_unroll h) hx

theorem hoist_bind {D : Type → Type} (f : ∀ {β : Type}, C β → D β) (p : Prog C α)
    (g : α → Prog C γ) : (p.bind g).hoist f = (p.hoist f).bind fun a => (g a).hoist f := by
  induction p with
  | ret a => rfl
  | exec c k ih => simp only [bind_exec, hoist, ih]
  | loop body s k _ ih => simp only [bind_loop, hoist, ih]

theorem wp_hoist {D : Type → Type} {f : ∀ {β : Type}, C β → D β} {L : Interface D O}
    {p : Prog C α} {Q : α → O → Prop} {o : O} (h : wp (L.comap f) p Q o) :
    wp L (p.hoist f) Q o := by
  intro n
  induction n generalizing p o with
  | zero => trivial
  | succ n ih =>
    cases p with
    | ret a => exact h 1
    | exec c k =>
      intro o' ho b o'' hstep
      exact ⟨(h 1 o' ho b o'' hstep).1, ih fun m => (h (m + 1) o' ho b o'' hstep).2⟩
    | loop body s k =>
      have hu : (unroll body s k).hoist f =
          unroll (fun s' => (body s').hoist f) s (fun b => (k b).hoist f) := by
        simp only [unroll, hoist_bind]
        congr 1
        funext r
        cases r <;> rfl
      change wpN L n (unroll (fun s' => (body s').hoist f) s (fun b => (k b).hoist f)) Q o
      rw [← hu]
      exact ih (wp_unroll h)

/-! ## Invariants that every command keeps -/

/-- An assertion that every command keeps holds throughout every program. -/
theorem wp_of_invariant {I : O → Prop}
    (hstep : ∀ {β : Type} (c : C β) o b o', I o → L.step c o b o' → L.guar c o b o' ∧ I o')
    (hrely : ∀ o o', I o → L.rely o o' → I o') (p : Prog C α) {o : O} (h : I o) :
    wp L p (fun _ => I) o := by
  intro n
  induction n generalizing p o with
  | zero => trivial
  | succ n ih =>
    cases p with
    | ret a => exact h
    | exec c k =>
      intro o' ho b o'' hs
      have ⟨hguar, hI⟩ := hstep c o' b o'' (hrely o o' h ho) hs
      exact ⟨hguar, ih (k b) hI⟩
    | loop body s k => exact ih (unroll body s k) h

end Prog

end Interaction
