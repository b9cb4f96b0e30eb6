-- SUMMARY: Traces: the commands a program executes with their answers, a ledger kept of them, how a weakest precondition over the ledger speaks of every trace, and the traces of the threads of a machine.
import Procherd.Interaction.Machine
import Procherd.Interaction.Proc

/-!
# Traces

A trace of a program is a sequence of commands with the answers they got, any
answers at all. A ledger is what an observer keeps of a trace: it starts
somewhere and is updated by each event. A program verified against the interface
that updates the ledger keeps what the interface guarantees after every event of
every trace.
-/

namespace Interaction

universe u

/-- A command that was executed, and its answer. -/
structure Event (C : Type → Type) where
  {answer : Type}
  command : C answer
  result : answer

variable {C : Type → Type} {α β σ ε : Type}

namespace Prog

/-- `p` can execute the events of a list, one after the other, and be at `p'` then. -/
inductive Emits : Prog C α → List (Event C) → Prog C α → Prop where
  | nil {p : Prog C α} : Emits p [] p
  | exec {β : Type} {c : C β} {k : β → Prog C α} {b : β} {t : List (Event C)} {p : Prog C α} :
      Emits (k b) t p → Emits (.exec c k) (⟨c, b⟩ :: t) p
  | loop {β σ : Type} {body : σ → Prog C (σ ⊕ β)} {s : σ} {k : β → Prog C α}
      {t : List (Event C)} {p : Prog C α} : Emits (unroll body s k) t p → Emits (.loop body s k) t p

end Prog

/-! ## Ledgers -/

/-- The interface of a program that is observed: any answer is possible, and the
    ledger is updated by it and has to be `good` then. -/
@[reducible] def Interface.observed {S : Type u} (note : S → ∀ {β : Type}, C β → β → S)
    (good : S → Prop) : Interface C S :=
  .isolated (fun c s b s' => s' = note s c b) (fun _ _ _ s' => good s')

/-- The ledger after a trace. -/
def ledger {S : Type u} (note : S → ∀ {β : Type}, C β → β → S) (s : S) (t : List (Event C)) : S :=
  t.foldl (fun s event => note s event.command event.result) s

variable {S : Type u} {note : S → ∀ {β : Type}, C β → β → S} {good : S → Prop}

theorem ledger_append (s : S) (t t' : List (Event C)) :
    ledger note s (t ++ t') = ledger note (ledger note s t) t' := List.foldl_append

/-- The ledger of a verified program stays good, and what is left of the program
    is verified. -/
theorem Prog.Emits.wp {p p' : Prog C α} {t : List (Event C)} {Q : α → S → Prop} {s : S}
    (h : Emits p t p') (hwp : p.wp (.observed note good) Q s) (hgood : good s) :
    good (ledger note s t) ∧ p'.wp (.observed note good) Q (ledger note s t) := by
  induction h generalizing s with
  | nil => exact ⟨hgood, hwp⟩
  | @exec β c k b t p _ ih =>
    have hnote : (Interface.observed note good).step c s b (note s c b) := rfl
    have ⟨hgood', hrest⟩ := Prog.wp_exec_elim hwp hnote
    exact ih hrest hgood'
  | loop _ ih => exact ih (Prog.wp_unroll hwp) hgood

/-! ## Rounds -/

namespace Proc

/-- Rounds of a procedure one after the other, each of which returns `none`. -/
inductive Rounds (body : Proc C ε σ (Option α)) : σ → List (Event C) → σ → Prop where
  | nil {s : σ} : Rounds body s [] s
  | cons {s s' s'' : σ} {t t' : List (Event C)} :
      Prog.Emits (body s) t (.ret (.ok none, s')) → Rounds body s' t' s'' →
      Rounds body s (t ++ t') s''

/-- What each round keeps of the store and the ledger, rounds keep. -/
theorem Rounds.invariant {body : Proc C ε σ (Option α)} {I : σ → S → Prop}
    {Q : α → σ → S → Prop} {E : ε → σ → S → Prop}
    (hbody : ∀ s l, I s l →
      Proc.wp (.observed note good) body (fun r s l => r.elim (I s l) (fun a => Q a s l)) E s l)
    {s s' : σ} {t : List (Event C)} {l : S} (h : Rounds body s t s') (hI : I s l) (hgood : good l) :
    I s' (ledger note l t) := by
  induction h generalizing l with
  | nil => exact hI
  | cons hround _ ih =>
    have ⟨hgood', hrest⟩ := hround.wp (hbody _ _ hI) hgood
    have hreturned := Prog.wp_ret_elim hrest
    rw [ledger_append]
    exact ih hreturned hgood'

end Proc

/-! ## The threads of a machine -/

namespace Machine

variable {M : Machine.{u}} [DecidableEq M.Thread] {i : M.Thread}

/-- What thread `i` does in a run. -/
def trace (i : M.Thread) : M.Config → List M.Move → List (Event (M.Cmd i))
  | _, [] => []
  | cfg, m :: ms =>
    let rest := (step cfg m).elim [] fun cfg' => trace i cfg' ms
    if m.1 = i then
      match cfg.thread i with
      | .exec c _ =>
        match M.exec i c m.2 cfg.world with
        | some (b, _) => ⟨c, b⟩ :: rest
        | none => rest
      | _ => rest
    else rest

/-- The trace of a thread in a run is a trace of its program. -/
theorem emits_of_run {cfg cfg' : M.Config} {ms : List M.Move} (h : run cfg ms = some cfg') :
    Prog.Emits (cfg.thread i) (trace i cfg ms) (cfg'.thread i) := by
  induction ms generalizing cfg with
  | nil =>
    cases h
    exact .nil
  | cons m ms ih =>
    obtain ⟨next, hs, hrest⟩ := Option.bind_eq_some_iff.mp h
    have hemits := ih hrest
    obtain ⟨hothers, hmoved⟩ := step_cases hs
    simp only [trace, hs, Option.elim_some]
    split
    · rename_i hi
      subst hi
      obtain ⟨β, c, k, b, hp, hexec, hk⟩ | ⟨σ, β, body, s, k, hp, -, hk⟩ := hmoved
      · simp only [hp, hexec]
        rw [hk] at hemits
        exact .exec hemits
      · simp only [hp]
        rw [hk] at hemits
        exact .loop hemits
    · rename_i hi
      rw [hothers i (Ne.symm hi)] at hemits
      exact hemits

end Machine

end Interaction
