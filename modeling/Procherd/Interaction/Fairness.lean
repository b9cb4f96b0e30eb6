-- SUMMARY: Infinite behaviours of a machine, and the rules by which a thread that is treated fairly comes to the end of a program.
import Procherd.Interaction.Machine
import Procherd.Interaction.Proc

/-!
# Fairness

A run is finite, and says nothing about what must happen. A behaviour goes on for
ever: at each time one thread moves, or none does. It is fair to a thread that
moves, now and then, unless it is blocked. The rules of this module follow a
thread through its program, as those of the weakest precondition do, but what
they establish is that the thread gets to the end.
-/

namespace Interaction

universe u

theorem Prog.hoist_unroll {C D : Type → Type} {α β σ : Type} (g : ∀ {β : Type}, C β → D β)
    (body : σ → Prog C (σ ⊕ β)) (s : σ) (cont : β → Prog C α) : (unroll body s cont).hoist g =
      unroll (fun s' => (body s').hoist g) s fun r => (cont r).hoist g := by
  simp only [unroll, hoist_bind]
  congr 1
  funext r
  cases r <;> rfl

theorem Prog.hoist_id {C : Type → Type} {α : Type} (p : Prog C α) :
    p.hoist (fun c => c) = p := by
  induction p with
  | ret a => rfl
  | exec c k ih => simp only [hoist, ih]
  | loop body s k hbody hk => simp only [hoist, hbody, hk]

theorem Prog.hoist_hoist {C D E : Type → Type} {α : Type} (g : ∀ {β : Type}, D β → E β)
    (g' : ∀ {β : Type}, C β → D β) (p : Prog C α) :
    (p.hoist g').hoist g = p.hoist fun c => g (g' c) := by
  induction p with
  | ret a => rfl
  | exec c k ih => simp only [hoist, ih]
  | loop body s k hbody hk => simp only [hoist, hbody, hk]

namespace Machine

variable {M : Machine.{u}} [DecidableEq M.Thread]

/-- A behaviour under a condition on its moves. -/
structure Behavior (ok : M.Condition) (init : M.Config) where
  cfg : Nat → M.Config
  /-- The move that is made at a time, if one is. -/
  move : Nat → Option M.Move
  start : cfg 0 = init
  waits : ∀ k, move k = none → cfg (k + 1) = cfg k
  steps : ∀ k m, move k = some m → step (cfg k) m = some (cfg (k + 1)) ∧ Meets ok (cfg k) m

def Blocked (i : M.Thread) (cfg : M.Config) : Prop := ∀ a, step cfg (i, a) = none

namespace Behavior

variable {ok : M.Condition} {init : M.Config} (b : Behavior ok init)

theorem reach (k : Nat) : Reach ok init (b.cfg k) := by
  induction k with
  | zero =>
    rw [b.start]
    exact .init
  | succ k ih =>
    cases hmove : b.move k with
    | none =>
      rw [b.waits k hmove]
      exact ih
    | some m =>
      obtain ⟨hstep, hmeets⟩ := b.steps k m hmove
      exact ih.step hstep hmeets

/-- The thread is not kept from moving for ever. -/
def Fair (i : M.Thread) : Prop :=
  ∀ k, ∃ j ≥ k, (∃ a, b.move j = some (i, a)) ∨ Blocked i (b.cfg j)

/-- From some time on, the moves meet the condition. -/
def Eventually (ok' : M.Condition) : Prop :=
  ∃ k, ∀ j ≥ k, ∀ m, b.move j = some m → Meets ok' (b.cfg j) m

/-- What the other threads keep. -/
def Steady (i : M.Thread) (J : M.World → Prop) : Prop :=
  ∀ k, (∀ a, b.move k ≠ some (i, a)) → J (b.cfg k).world → J (b.cfg (k + 1)).world

/-- The thread is treated fairly, and the others keep `J`. -/
structure Follows (i : M.Thread) (J : M.World → Prop) : Prop where
  fair : b.Fair i
  steady : b.Steady i J

/-- The thread executes a command. -/
def Executes (i : M.Thread) {β : Type} (c : M.Cmd i β) (a : M.Answer) (k : Nat) : Prop :=
  b.move k = some (i, a) ∧ ∃ cont, (b.cfg k).thread i = .exec c cont

variable {b} {i : M.Thread} {J : M.World → Prop} {k : Nat}

theorem steady_of_exec (h : ∀ j, j ≠ i → ∀ {β : Type} (c : M.Cmd j β) a w r w', ok j c a w →
    M.exec j c a w = some (r, w') → J w → J w') : b.Steady i J := by
  intro k hmove hJ
  cases hm : b.move k with
  | none =>
    rw [b.waits k hm]
    exact hJ
  | some m =>
    obtain ⟨hstep, hmeets⟩ := b.steps k m hm
    have hi : m.1 ≠ i := fun heq => hmove m.2 (by rw [hm, ← heq])
    obtain ⟨-, ⟨β, c, cont, r, hp, he, -⟩ | ⟨_, _, _, _, _, -, hw, -⟩⟩ := step_cases hstep
    · exact h m.1 hi c m.2 _ r _ (hmeets β c cont hp) he hJ
    · rw [hw]
      exact hJ

theorem Executes.meets {ok' : M.Condition} (h : ∃ k₀, ∀ j ≥ k₀, ∀ m, b.move j = some m →
    Meets ok' (b.cfg j) m) : ∃ k₀, ∀ j ≥ k₀, ∀ {β : Type} (c : M.Cmd i β) a,
      b.Executes i c a j → ok' i c a (b.cfg j).world := by
  obtain ⟨k₀, h⟩ := h
  refine ⟨k₀, fun j hj β c a hexec => ?_⟩
  obtain ⟨hmove, cont, hp⟩ := hexec
  exact h j hj _ hmove β c cont hp

/-- A thread stays where it is until it moves. -/
theorem move_or_stay (hJ : b.Steady i J) (h : J (b.cfg k).world) (n : Nat) :
    (∃ j ≥ k, (∃ a, b.move j = some (i, a)) ∧ (b.cfg j).thread i = (b.cfg k).thread i ∧
      J (b.cfg j).world) ∨
    (b.cfg (k + n)).thread i = (b.cfg k).thread i ∧ J (b.cfg (k + n)).world := by
  induction n with
  | zero => exact .inr ⟨rfl, h⟩
  | succ n ih =>
    obtain hmoved | ⟨hthread, hn⟩ := ih
    · exact .inl hmoved
    by_cases hmove : ∃ a, b.move (k + n) = some (i, a)
    · exact .inl ⟨k + n, Nat.le_add_right k n, hmove, hthread, hn⟩
    rw [not_exists] at hmove
    refine .inr ⟨?_, hJ (k + n) hmove hn⟩
    rw [← hthread, ← Nat.add_assoc]
    cases hm : b.move (k + n) with
    | none => rw [b.waits _ hm]
    | some m =>
      have hi : i ≠ m.1 := fun heq => hmove m.2 (by rw [hm, heq])
      exact (step_cases (b.steps _ m hm).1).1 i hi

/-- A thread that is not blocked where it is moves. -/
theorem exists_move (F : b.Follows i J) (h : J (b.cfg k).world)
    (hready : ∀ j, (b.cfg j).thread i = (b.cfg k).thread i → J (b.cfg j).world →
      ¬ Blocked i (b.cfg j)) :
    ∃ j ≥ k, ∃ a, b.move j = some (i, a) ∧ (b.cfg j).thread i = (b.cfg k).thread i ∧
      J (b.cfg j).world := by
  obtain ⟨j, hj, hmoves⟩ := F.fair k
  obtain ⟨j', hj', ⟨a, hmove⟩, hthread, hworld⟩ | ⟨hthread, hworld⟩ := move_or_stay F.steady h (j - k)
  · exact ⟨j', hj', a, hmove, hthread, hworld⟩
  -- It has not moved before `j`, at which it moves or is blocked.
  rw [Nat.add_sub_cancel' hj] at hthread hworld
  obtain ⟨a, hmove⟩ | hblocked := hmoves
  · exact ⟨j, hj, a, hmove, hthread, hworld⟩
  · exact absurd hblocked (hready j hthread hworld)

/-! ## Programs -/

section Prog

variable {C : Type → Type} {α β σ : Type}

/-- A thread that is at time `k` at the beginning of a program, whatever it does
    then, gets to the end of it, with `Q`. -/
def Ends (b : Behavior ok init) (i : M.Thread) (g : ∀ {β : Type}, C β → M.Cmd i β) (p : Prog C α)
    (k : Nat) (Q : α → M.World → Prop) : Prop :=
  ∀ f : α → Prog (M.Cmd i) (M.Result i), (b.cfg k).thread i = (p.hoist g).bind f →
    ∃ j ≥ k, ∃ a, (b.cfg j).thread i = f a ∧ Q a (b.cfg j).world

variable {g : ∀ {β : Type}, C β → M.Cmd i β} {Q Q' : α → M.World → Prop}

theorem Ends.ret {a : α} (h : Q a (b.cfg k).world) : b.Ends i g (.ret a) k Q :=
  fun _ hp => ⟨k, Nat.le_refl k, a, hp, h⟩

theorem Ends.mono {p : Prog C α} (h : b.Ends i g p k Q) (hQ : ∀ a w, Q a w → Q' a w) :
    b.Ends i g p k Q' := by
  intro f hp
  obtain ⟨j, hj, a, hthread, ha⟩ := h f hp
  exact ⟨j, hj, a, hthread, hQ _ _ ha⟩

theorem Ends.bind {p : Prog C α} {f : α → Prog C β} {Q' : β → M.World → Prop}
    (h : b.Ends i g p k Q)
    (hf : ∀ j ≥ k, ∀ a, Q a (b.cfg j).world → b.Ends i g (f a) j Q') :
    b.Ends i g (p.bind f) k Q' := by
  intro f' hp
  rw [Prog.hoist_bind, Prog.bind_assoc] at hp
  obtain ⟨j, hj, a, hthread, ha⟩ := h _ hp
  obtain ⟨j', hj', hrest⟩ := hf j hj a ha f' hthread
  exact ⟨j', Nat.le_trans hj hj', hrest⟩

theorem Ends.exec {c : C β} {cont : β → Prog C α} (F : b.Follows i J)
    (h : J (b.cfg k).world) (hready : ∀ w, J w → ∃ a r, M.exec i (g c) a w = some r)
    (hnext : ∀ j ≥ k, ∀ a r, b.Executes i (g c) a j → J (b.cfg j).world →
      M.exec i (g c) a (b.cfg j).world = some (r, (b.cfg (j + 1)).world) →
      b.Ends i g (cont r) (j + 1) Q) : b.Ends i g (.exec c cont) k Q := by
  intro f hp
  have hfree (j : Nat) (hthread : (b.cfg j).thread i = (b.cfg k).thread i)
      (hworld : J (b.cfg j).world) : ¬ Blocked i (b.cfg j) := by
    intro hblocked
    obtain ⟨a, r, hexec⟩ := hready _ hworld
    have hnone := hblocked a
    simp only [step, hthread, hp, Prog.hoist, Prog.bind_exec, Prog.step, hexec, Option.map_some]
      at hnone
    cases hnone
  obtain ⟨j, hj, a, hmove, hthread, hworld⟩ := exists_move F h hfree
  rw [hp] at hthread
  obtain ⟨-, ⟨γ, c', cont', r, hp', hexec, hr⟩ | ⟨_, _, _, _, _, hp', -⟩⟩ :=
    step_cases (b.steps j _ hmove).1
  · obtain ⟨rfl, hc, hcont⟩ := Prog.exec.inj (hthread.symm.trans hp')
    cases hc
    cases hcont
    obtain ⟨j', hj', hrest⟩ := hnext j hj a r ⟨hmove, _, hp'⟩ hworld hexec f hr
    exact ⟨j', by omega, hrest⟩
  · cases hthread.symm.trans hp'

theorem Ends.loop {body : σ → Prog C (σ ⊕ β)} {s : σ} {cont : β → Prog C α} [Nonempty M.Answer]
    (F : b.Follows i J) (h : J (b.cfg k).world)
    (hnext : ∀ j > k, J (b.cfg j).world → b.Ends i g (Prog.unroll body s cont) j Q) :
    b.Ends i g (.loop body s cont) k Q := by
  intro f hp
  have hfree (j : Nat) (hthread : (b.cfg j).thread i = (b.cfg k).thread i)
      (_ : J (b.cfg j).world) : ¬ Blocked i (b.cfg j) := by
    intro hblocked
    have hnone := hblocked (Classical.arbitrary M.Answer)
    simp only [step, hthread, hp, Prog.hoist, Prog.bind_loop, Prog.step, Option.map_some] at hnone
    cases hnone
  obtain ⟨j, hj, a, hmove, hthread, hworld⟩ := exists_move F h hfree
  rw [hp] at hthread
  obtain ⟨-, ⟨_, _, _, _, hp', -⟩ | ⟨_, _, _, _, _, hp', hw, hr⟩⟩ :=
    step_cases (b.steps j _ hmove).1
  · cases hthread.symm.trans hp'
  obtain ⟨rfl, rfl, hbody, rfl, hcont⟩ := Prog.loop.inj (hthread.symm.trans hp')
  cases hbody
  cases hcont
  rw [← Prog.unroll_bind, ← Prog.hoist_unroll] at hr
  rw [← hw] at hworld
  obtain ⟨j', hj', hrest⟩ := hnext (j + 1) (Nat.lt_succ_of_le hj) hworld f hr
  exact ⟨j', by omega, hrest⟩

theorem Ends.hoist {D : Type → Type} {g' : ∀ {β : Type}, D β → C β} {p : Prog D α}
    (h : b.Ends i (fun c => g (g' c)) p k Q) : b.Ends i g (p.hoist g') k Q := by
  intro f hp
  rw [Prog.hoist_hoist] at hp
  exact h f hp

/-- The program of the thread itself. -/
theorem Ends.returns {p : Prog (M.Cmd i) α} (h : b.Ends i (fun c => c) p k Q)
    {f : α → Prog (M.Cmd i) (M.Result i)} (hp : (b.cfg k).thread i = p.bind f) :
    ∃ j ≥ k, ∃ a, (b.cfg j).thread i = f a ∧ Q a (b.cfg j).world :=
  h f (by rw [Prog.hoist_id]; exact hp)

end Prog

/-! ## Procedures -/

section Proc

variable {C : Type → Type} {ε σ τ α β : Type}

/-- A command that is never blocked where `J` holds, and keeps it. -/
structure Free (J : M.World → Prop) (c : M.Cmd i β) : Prop where
  ready : ∀ w, J w → ∃ a r, M.exec i c a w = some r
  keeps : ∀ a w r w', M.exec i c a w = some (r, w') → J w → J w'

/-- Wherever the thread begins the procedure, it gets to the end of it. -/
def Finishes (b : Behavior ok init) (i : M.Thread) (g : ∀ {β : Type}, C β → M.Cmd i β)
    (J : M.World → Prop) (m : Proc C ε σ α) : Prop :=
  ∀ k s, J (b.cfg k).world → b.Ends i g (m s) k fun _ => J

variable {g : ∀ {β : Type}, C β → M.Cmd i β} {m : Proc C ε σ α}

theorem Finishes.pure {a : α} : b.Finishes i g J (pure a : Proc C ε σ α) :=
  fun _ _ h => .ret h

theorem Finishes.throw {e : ε} : b.Finishes i g J (Proc.throw e : Proc C ε σ α) :=
  fun _ _ h => .ret h

theorem Finishes.get : b.Finishes i g J (Proc.get : Proc C ε σ σ) := fun _ _ h => .ret h

theorem Finishes.modify {f : σ → σ} : b.Finishes i g J (Proc.modify f : Proc C ε σ Unit) :=
  fun _ _ h => .ret h

theorem Finishes.ofExcept {r : Except ε α} :
    b.Finishes i g J (Proc.ofExcept r : Proc C ε σ α) := fun _ _ h => .ret h

theorem Finishes.throwIf {c : Prop} [Decidable c] {e : ε} :
    b.Finishes i g J (Proc.throwIf c e : Proc C ε σ Unit) := by
  unfold Proc.throwIf
  split
  · exact .throw
  · exact .pure

/-- A call, with its answer. -/
theorem Ends.call {c : C α} {s : σ} {Q : Except ε α × σ → M.World → Prop} (F : b.Follows i J)
    (hc : Free J (g c)) (h : J (b.cfg k).world)
    (hQ : ∀ j ≥ k, ∀ a r, b.Executes i (g c) a j → J (b.cfg (j + 1)).world →
      M.exec i (g c) a (b.cfg j).world = some (r, (b.cfg (j + 1)).world) →
      Q (.ok r, s) (b.cfg (j + 1)).world) :
    b.Ends i g ((Proc.call c : Proc C ε σ α) s) k Q :=
  .exec F h hc.ready fun j hj a r he hJ hexec =>
    .ret (hQ j hj a r he (hc.keeps _ _ _ _ hexec hJ) hexec)

theorem Finishes.call {c : C α} (F : b.Follows i J) (hc : Free J (g c)) :
    b.Finishes i g J (Proc.call c : Proc C ε σ α) :=
  fun _ _ h => .call F hc h fun _ _ _ _ _ hJ _ => hJ

theorem Finishes.attempt {c : C (Except ε α)} (F : b.Follows i J) (hc : Free J (g c)) :
    b.Finishes i g J (Proc.attempt c : Proc C ε σ α) :=
  fun _ _ h => .exec F h hc.ready fun _ _ _ _ _ hJ hexec => .ret (hc.keeps _ _ _ _ hexec hJ)

theorem Ends.seq {f : α → Proc C ε σ β} {s : σ} {Q : Except ε α × σ → M.World → Prop}
    {Q' : Except ε β × σ → M.World → Prop} (h : b.Ends i g (m s) k Q)
    (hok : ∀ j ≥ k, ∀ a s', Q (.ok a, s') (b.cfg j).world → b.Ends i g (f a s') j Q')
    (herror : ∀ e s' w, Q (.error e, s') w → Q' (.error e, s') w) :
    b.Ends i g ((m >>= f) s) k Q' := by
  refine .bind h fun j hj r hr => ?_
  obtain ⟨e | a, s'⟩ := r
  · exact .ret (herror e s' _ hr)
  · exact hok j hj a s' hr

theorem Finishes.bind {f : α → Proc C ε σ β} (hm : b.Finishes i g J m)
    (hf : ∀ a, b.Finishes i g J (f a)) : b.Finishes i g J (m >>= f) :=
  fun k s h => .seq (hm k s h) (fun j _ a s' h => hf a j s' h) fun _ _ _ h => h

theorem Finishes.outcome (hm : b.Finishes i g J m) : b.Finishes i g J (Proc.outcome m) :=
  fun k s h => .bind (hm k s h) fun _ _ _ h => .ret h

theorem Finishes.withStore {m : Proc C ε τ α} {t : τ} (hm : b.Finishes i g J m) :
    b.Finishes i g J (Proc.withStore t m : Proc C ε σ (Except ε α × τ)) :=
  fun k _ h => .bind (hm k t h) fun _ _ _ h => .ret h

theorem Finishes.ensuring {cleanup : Proc C ε σ Unit} (hm : b.Finishes i g J m)
    (hcleanup : b.Finishes i g J cleanup) : b.Finishes i g J (Proc.ensuring m cleanup) :=
  .bind hm.outcome fun _ => .bind hcleanup fun _ => .ofExcept

theorem Finishes.hoist {D : Type → Type} {g' : ∀ {β : Type}, D β → C β} {m : Proc D ε σ α}
    (hm : b.Finishes i (fun c => g (g' c)) J m) : b.Finishes i g J (m.hoist g') :=
  fun k s h => (hm k s h).hoist

/-! ### Loops -/

variable [Nonempty M.Answer] {body : Proc C ε σ (Option α)}

/-- One round of a loop, and what comes after it. -/
theorem Ends.round {s : σ} {Q : Except ε (Option α) × σ → M.World → Prop}
    {Q' : Except ε α × σ → M.World → Prop} (F : b.Follows i J) (h : J (b.cfg k).world)
    (hbody : ∀ j > k, J (b.cfg j).world → b.Ends i g (body s) j Q)
    (hagain : ∀ j > k, ∀ s', Q (.ok none, s') (b.cfg j).world →
      b.Ends i g (Proc.repeatUntil body s') j Q')
    (hok : ∀ a s' w, Q (.ok (some a), s') w → Q' (.ok a, s') w)
    (herror : ∀ e s' w, Q (.error e, s') w → Q' (.error e, s') w) :
    b.Ends i g (Proc.repeatUntil body s) k Q' := by
  refine .loop F h fun j hj hJ => ?_
  rw [Prog.unroll, Prog.bind_assoc]
  refine .bind (hbody j hj hJ) fun j' hj' r hr => ?_
  obtain ⟨e | found, s'⟩ := r
  · exact .ret (herror e s' _ hr)
  · cases found with
    | none => exact hagain j' (Nat.lt_of_lt_of_le hj hj') s' hr
    | some a => exact .ret (hok a s' _ hr)

/-- A round of a loop, begun at time `k`, after which the thread leaves the loop. -/
def Leaves (b : Behavior ok init) (i : M.Thread) (g : ∀ {β : Type}, C β → M.Cmd i β)
    (J : M.World → Prop) (body : Proc C ε σ (Option α)) (k : Nat) : Prop :=
  ∀ s, J (b.cfg k).world → b.Ends i g (body s) k fun r w => r.1 ≠ .ok none ∧ J w

omit [Nonempty M.Answer] in
theorem Leaves.found {a : α} :
    b.Leaves i g J (Pure.pure (some a) : Proc C ε σ (Option α)) k :=
  fun _ h => .ret ⟨fun hnone => (by cases hnone), h⟩

omit [Nonempty M.Answer] in
theorem Leaves.throw {e : ε} : b.Leaves i g J (Proc.throw e : Proc C ε σ (Option α)) k :=
  fun _ h => .ret ⟨fun hnone => (by cases hnone), h⟩

omit [Nonempty M.Answer] in
theorem Leaves.bind {m : Proc C ε σ β} {f : β → Proc C ε σ (Option α)}
    (hm : b.Finishes i g J m) (hf : ∀ j ≥ k, ∀ a, b.Leaves i g J (f a) j) :
    b.Leaves i g J (m >>= f) k := by
  refine fun s h => .seq (hm k s h) (fun j hj a s' h => hf j hj a s' h) fun e s' w h => ⟨?_, h⟩
  exact fun hnone => (by cases hnone)

omit [Nonempty M.Answer] in
theorem Leaves.call {c : C β} {f : β → Proc C ε σ (Option α)} (F : b.Follows i J)
    (hc : Free J (g c))
    (hf : ∀ j ≥ k, ∀ a r, b.Executes i (g c) a j →
      M.exec i (g c) a (b.cfg j).world = some (r, (b.cfg (j + 1)).world) →
      b.Leaves i g J (f r) (j + 1)) : b.Leaves i g J (Proc.call c >>= f) k := by
  refine fun s h => .exec F h hc.ready fun j hj a r he hJ hexec => ?_
  exact hf j hj a r he hexec s (hc.keeps _ _ _ _ hexec hJ)

/-- A loop that the thread leaves from some time on. -/
theorem Finishes.repeatUntil (F : b.Follows i J) (hbody : b.Finishes i g J body)
    (hlast : ∃ k₀, ∀ k ≥ k₀, b.Leaves i g J body k) :
    b.Finishes i g J (Proc.repeatUntil body) := by
  obtain ⟨k₀, hlast⟩ := hlast
  intro k s h
  -- Induction on the time that is left until `k₀`.
  generalize hn : k₀ - k = n
  induction n using Nat.strongRecOn generalizing k s with
  | ind n ih =>
    by_cases hk : k₀ ≤ k
    · refine .round F h (fun j hj hJ => hlast j (by omega) s hJ) ?_ (fun _ _ _ hr => hr.2)
        fun _ _ _ hr => hr.2
      exact fun _ _ _ hr => absurd rfl hr.1
    · refine .round F h (fun j _ hJ => hbody j s hJ) ?_ (fun _ _ _ hr => hr) fun _ _ _ hr => hr
      exact fun j hj s' hJ => ih (k₀ - j) (by omega) j s' hJ rfl

/-- A loop that the thread leaves, with `Q`, after one round. -/
theorem Ends.onceAround {s : σ} {Q : Except ε α × σ → M.World → Prop} (F : b.Follows i J)
    (h : J (b.cfg k).world)
    (hbody : ∀ j > k, J (b.cfg j).world → b.Ends i g (body s) j fun r w =>
      (∃ a, r.1 = .ok (some a) ∧ Q (.ok a, r.2) w) ∨ ∃ e, r.1 = .error e ∧ Q (.error e, r.2) w) :
    b.Ends i g (Proc.repeatUntil body s) k Q := by
  refine .round F h hbody ?_ ?_ ?_
  · rintro j - s' (⟨a, hr, -⟩ | ⟨e, hr, -⟩)
    · cases hr
    · cases hr
  · rintro a s' w (⟨a, hr, hQ⟩ | ⟨e, hr, -⟩)
    · cases hr
      exact hQ
    · cases hr
  · rintro e s' w (⟨a, hr, -⟩ | ⟨e, hr, hQ⟩)
    · cases hr
    · cases hr
      exact hQ

/-- A loop every round of which makes a measure of the store smaller. -/
theorem Finishes.repeatUntil_of_variant (μ : σ → Nat) (F : b.Follows i J)
    (hbody : ∀ k s, J (b.cfg k).world → b.Ends i g (body s) k fun r w =>
      J w ∧ (r.1 = .ok none → μ r.2 < μ s)) : b.Finishes i g J (Proc.repeatUntil body) := by
  intro k s h
  -- Induction on the measure.
  generalize hn : μ s = n
  induction n using Nat.strongRecOn generalizing k s with
  | ind n ih =>
    refine .round F h (fun j _ hJ => hbody j s hJ) ?_ (fun _ _ _ hr => hr.1) fun _ _ _ hr => hr.1
    exact fun j _ s' hr => ih (μ s') (hn ▸ hr.2 rfl) j s' hr.1 rfl

end Proc

/-! ## Finite runs

A run that is over waits for ever. It is fair to the threads that have returned. -/

section Run

variable {cfg : M.Config} {ms : List M.Move}

theorem blocked_of_ret {r : M.Result i} (h : cfg.thread i = .ret r) :
    Blocked i cfg := by
  intro a
  simp only [step, h, Prog.step, Option.map_none]

theorem run_take (h : run init ms = some cfg) (k : Nat) :
    ∃ cfg', run init (ms.take k) = some cfg' := by
  induction ms generalizing init k with
  | nil => exact ⟨init, by rw [List.take_nil]; rfl⟩
  | cons m ms ih =>
    obtain ⟨next, hfirst, hrest⟩ := Option.bind_eq_some_iff.mp h
    cases k with
    | zero => exact ⟨init, rfl⟩
    | succ k =>
      obtain ⟨cfg', hcfg'⟩ := ih hrest k
      refine ⟨cfg', ?_⟩
      simp only [List.take_succ_cons, run, hfirst, Option.bind_some]
      exact hcfg'

theorem step_take (h : run init ms = some cfg) {k : Nat} {m : M.Move} (hm : ms[k]? = some m)
    {cfg' : M.Config} (hcfg' : run init (ms.take k) = some cfg') :
    ∃ next, step cfg' m = some next ∧ run init (ms.take (k + 1)) = some next := by
  induction ms generalizing init k with
  | nil => cases hm
  | cons first ms ih =>
    obtain ⟨second, hfirst, hrest⟩ := Option.bind_eq_some_iff.mp h
    cases k with
    | zero =>
      cases hm
      cases hcfg'
      refine ⟨second, hfirst, ?_⟩
      simp only [List.take_succ_cons, List.take_zero, run, hfirst, Option.bind_some]
    | succ k =>
      simp only [List.take_succ_cons, run, hfirst, Option.bind_some] at hcfg' ⊢
      exact ih hrest hm hcfg'

def ofRun (init : M.Config) (ms : List M.Move) (h : (run init ms).isSome) :
    Behavior M.always init where
  cfg k := (run init (ms.take k)).getD init
  move k := ms[k]?
  start := rfl
  waits k hk := by
    have hlength := List.getElem?_eq_none_iff.mp hk
    rw [List.take_of_length_le hlength, List.take_of_length_le (Nat.le_succ_of_le hlength)]
  steps k m hm := by
    obtain ⟨cfg, hcfg⟩ := Option.isSome_iff_exists.mp h
    obtain ⟨cfg', hcfg'⟩ := run_take hcfg k
    obtain ⟨next, hstep, hnext⟩ := step_take hcfg hm hcfg'
    rw [hcfg', hnext]
    exact ⟨hstep, fun _ _ _ _ => trivial⟩

variable {h : (run init ms).isSome}

theorem ofRun_last (hcfg : run init ms = some cfg) {k : Nat} (hk : ms.length ≤ k) :
    (ofRun init ms h).cfg k = cfg := by
  simp only [ofRun, List.take_of_length_le hk, hcfg, Option.getD_some]

theorem ofRun_fair (hcfg : run init ms = some cfg) {r : M.Result i} (hr : cfg.thread i = .ret r) :
    (ofRun init ms h).Fair i := by
  intro k
  refine ⟨max k ms.length, Nat.le_max_left _ _, .inr ?_⟩
  rw [ofRun_last hcfg (Nat.le_max_right _ _)]
  exact blocked_of_ret hr

theorem ofRun_eventually (ok' : M.Condition) : (ofRun init ms h).Eventually ok' := by
  refine ⟨ms.length, fun j hj m hm => ?_⟩
  cases (List.getElem?_eq_none_iff.mpr hj).symm.trans hm

end Run

end Behavior

end Machine

end Interaction
