-- SUMMARY: Machines: threads of interaction programs over a shared world, their runs under a condition on the steps, and how the verification of one thread strengthens that condition.
import Procherd.Interaction.Logic

/-!
# Machines

A machine runs one program for each thread over a shared world. Every step is
one command of one thread, executed atomically; what the outside world decides
about it (a failure, a clock reading, the bytes that arrive) is the answer that
the step carries, so that a run is determined by its list of moves.

A run is considered under a condition on its steps. An invariant of the world
is proved from the condition (`Reach.invariant`); the weakest precondition of a
thread adds to the condition what the steps of this thread guarantee
(`Reach.strengthen`). A development alternates the two.
-/

namespace Interaction

universe u v w

structure Machine where
  Thread : Type
  /-- The commands a thread may execute. -/
  Cmd : Thread → Type → Type
  /-- The result a thread returns. -/
  Result : Thread → Type
  World : Type u
  Answer : Type
  exec : (i : Thread) → {β : Type} → Cmd i β → Answer → World → Option (β × World)

namespace Machine

variable (M : Machine.{u})

structure Config where
  world : M.World
  thread : (i : M.Thread) → Prog (M.Cmd i) (M.Result i)

/-- A move: which thread steps, and the answer its command gets. -/
abbrev Move := M.Thread × M.Answer

/-- A condition on steps: on the command, its answer and the world before it. -/
abbrev Condition := (i : M.Thread) → {β : Type} → M.Cmd i β → M.Answer → M.World → Prop

variable {M} [DecidableEq M.Thread]

/-! ## Runs -/

def step (cfg : M.Config) (m : M.Move) : Option M.Config :=
  ((cfg.thread m.1).step (fun c w => M.exec m.1 c m.2 w) cfg.world).map fun r =>
    { world := r.2, thread := Function.update cfg.thread m.1 r.1 }

def run : M.Config → List M.Move → Option M.Config
  | cfg, [] => some cfg
  | cfg, m :: ms => (step cfg m).bind fun cfg' => run cfg' ms

omit [DecidableEq M.Thread] in
/-- The command that a move executes, if it executes one, meets the condition. -/
def Meets (ok : M.Condition) (cfg : M.Config) (m : M.Move) : Prop :=
  ∀ (β : Type) (c : M.Cmd m.1 β) (k : β → Prog (M.Cmd m.1) (M.Result m.1)),
    cfg.thread m.1 = .exec c k → ok m.1 c m.2 cfg.world

/-- The configurations that a run leads to whose steps all meet the condition. -/
inductive Reach (ok : M.Condition) (init : M.Config) : M.Config → Prop where
  | init : Reach ok init init
  | step {cfg cfg' : M.Config} {m : M.Move} :
      Reach ok init cfg → Machine.step cfg m = some cfg' → Meets ok cfg m → Reach ok init cfg'

/-- No condition. -/
def always (M : Machine.{u}) : M.Condition := fun _ _ _ _ _ => True

theorem Reach.mono {ok ok' : M.Condition} {init cfg : M.Config}
    (hok : ∀ i {β : Type} (c : M.Cmd i β) a w, ok i c a w → ok' i c a w)
    (h : Reach ok init cfg) : Reach ok' init cfg := by
  induction h with
  | init => exact .init
  | step _ hs hm ih => exact ih.step hs fun β c k hc => hok _ c _ _ (hm β c k hc)

theorem Reach.trans {ok : M.Condition} {c₁ c₂ c₃ : M.Config} (h : Reach ok c₁ c₂)
    (h' : Reach ok c₂ c₃) : Reach ok c₁ c₃ := by
  induction h' with
  | init => exact h
  | step _ hs hm ih => exact ih.step hs hm

theorem Reach.of_run {init cfg : M.Config} {ms : List M.Move} (h : run init ms = some cfg) :
    Reach M.always init cfg := by
  induction ms generalizing init with
  | nil => cases h; exact .init
  | cons m ms ih =>
    obtain ⟨cfg', hs, hr⟩ := Option.bind_eq_some_iff.mp h
    exact (Reach.init.step hs fun _ _ _ _ => trivial).trans (ih hr)

/-- A run whose moves are checked one by one. -/
def runChecked (check : M.Config → M.Move → Bool) : M.Config → List M.Move → Option M.Config
  | cfg, [] => some cfg
  | cfg, m :: ms =>
    if check cfg m then (step cfg m).bind fun cfg' => runChecked check cfg' ms else none

theorem Reach.of_runChecked_mem {ok : M.Condition} {check : M.Config → M.Move → Bool}
    {init cfg : M.Config} {ms : List M.Move}
    (hcheck : ∀ cfg, ∀ m ∈ ms, check cfg m → Meets ok cfg m)
    (h : runChecked check init ms = some cfg) : Reach ok init cfg := by
  induction ms generalizing init with
  | nil => cases h; exact .init
  | cons m ms ih =>
    simp only [runChecked] at h
    split at h
    · rename_i hm
      obtain ⟨cfg', hs, hr⟩ := Option.bind_eq_some_iff.mp h
      have hrest := ih (fun cfg m hmem => hcheck cfg m (List.mem_cons_of_mem _ hmem)) hr
      exact (Reach.init.step hs (hcheck init m List.mem_cons_self hm)).trans hrest
    · cases h

theorem Reach.of_runChecked {ok : M.Condition} {check : M.Config → M.Move → Bool}
    (hcheck : ∀ cfg m, check cfg m → Meets ok cfg m) {init cfg : M.Config} {ms : List M.Move}
    (h : runChecked check init ms = some cfg) : Reach ok init cfg :=
  .of_runChecked_mem (fun cfg m _ => hcheck cfg m) h

/-- What one move does: it executes a command of one thread, or unfolds a loop
    of it and leaves the world alone. The other threads stay where they are. -/
theorem step_cases {cfg cfg' : M.Config} {m : M.Move} (h : step cfg m = some cfg') :
    (∀ j, j ≠ m.1 → cfg'.thread j = cfg.thread j) ∧
    ((∃ (β : Type) (c : M.Cmd m.1 β) (k : β → Prog (M.Cmd m.1) (M.Result m.1)) (b : β),
        cfg.thread m.1 = .exec c k ∧ M.exec m.1 c m.2 cfg.world = some (b, cfg'.world) ∧
        cfg'.thread m.1 = k b) ∨
      (∃ (σ β : Type) (body : σ → Prog (M.Cmd m.1) (σ ⊕ β)) (s : σ)
        (k : β → Prog (M.Cmd m.1) (M.Result m.1)),
        cfg.thread m.1 = .loop body s k ∧ cfg'.world = cfg.world ∧
        cfg'.thread m.1 = Prog.unroll body s k)) := by
  unfold step at h
  obtain ⟨r, hr, rfl⟩ := Option.map_eq_some_iff.mp h
  refine ⟨fun j hj => Function.update_of_ne hj _ _, ?_⟩
  simp only [Function.update_self]
  cases hp : cfg.thread m.1 with
  | ret a => rw [hp] at hr; cases hr
  | exec c k =>
    rw [hp] at hr
    obtain ⟨⟨b, w⟩, hb, rfl⟩ := Option.map_eq_some_iff.mp hr
    exact .inl ⟨_, c, k, b, rfl, hb, rfl⟩
  | loop body s k =>
    rw [hp] at hr
    cases hr
    exact .inr ⟨_, _, body, s, k, rfl, rfl, rfl⟩

/-- The result of a move that executes a known command. -/
theorem step_exec {cfg cfg' : M.Config} {m : M.Move} (h : step cfg m = some cfg') {β : Type}
    {c : M.Cmd m.1 β} {k : β → Prog (M.Cmd m.1) (M.Result m.1)} (hc : cfg.thread m.1 = .exec c k) :
    ∃ b w', M.exec m.1 c m.2 cfg.world = some (b, w') := by
  unfold step at h
  rw [hc] at h
  obtain ⟨r, hr, -⟩ := Option.map_eq_some_iff.mp h
  obtain ⟨⟨b, w'⟩, hb, -⟩ := Option.map_eq_some_iff.mp hr
  exact ⟨b, w', hb⟩

/-- A thread has not moved yet, or has a first step. -/
theorem Reach.first_step {ok : M.Condition} {cfg cfg' : M.Config} (i : M.Thread)
    (h : Reach ok cfg cfg') :
    cfg'.thread i = cfg.thread i ∨
      ∃ (c₁ c₂ : M.Config) (m : M.Move), Reach ok cfg c₁ ∧ c₁.thread i = cfg.thread i ∧ m.1 = i ∧
        Machine.step c₁ m = some c₂ ∧ Meets ok c₁ m ∧ Reach ok c₂ cfg' := by
  induction h with
  | init => exact .inl rfl
  | @step c c' m hr hs hm ih =>
    obtain hsame | ⟨c₁, c₂, m₁, hr₁, hsame, hi, hs₁, hm₁, hr₂⟩ := ih
    · by_cases hi : m.1 = i
      · exact .inr ⟨c, c', m, hr, hsame, hi, hs, hm, .init⟩
      · exact .inl (((step_cases hs).1 i (Ne.symm hi)).trans hsame)
    · exact .inr ⟨c₁, c₂, m₁, hr₁, hsame, hi, hs₁, hm₁, hr₂.step hs hm⟩

/-- The moves of the other threads leave a thread where it is. -/
theorem thread_of_run {i : M.Thread} {init cfg : M.Config} {ms : List M.Move}
    (hms : ∀ m ∈ ms, m.1 ≠ i) (h : run init ms = some cfg) : cfg.thread i = init.thread i := by
  induction ms generalizing init with
  | nil => cases h; rfl
  | cons m ms ih =>
    have ⟨hm, hrest⟩ := List.forall_mem_cons.mp hms
    obtain ⟨cfg', hs, hr⟩ := Option.bind_eq_some_iff.mp h
    exact (ih hrest hr).trans ((step_cases hs).1 i hm.symm)

/-! ## Invariants -/

/-- An assertion on the world that every command keeps, where the condition
    holds, holds of every world that a run leads to. -/
theorem Reach.invariant {ok : M.Condition} {J : M.World → Prop}
    (hJ : ∀ i {β : Type} (c : M.Cmd i β) a w b w', ok i c a w →
      M.exec i c a w = some (b, w') → J w → J w')
    {init cfg : M.Config} (h : Reach ok init cfg) (h0 : J init.world) : J cfg.world := by
  induction h with
  | init => exact h0
  | step _ hs hm ih =>
    obtain ⟨-, ⟨β, c, k, b, hp, he, -⟩ | ⟨_, _, _, _, _, -, hw, -⟩⟩ := step_cases hs
    · exact hJ _ c _ _ b _ (hm β c k hp) he ih
    · rw [hw]; exact ih

/-- An invariant may be added to the condition. -/
theorem Reach.with_invariant {ok : M.Condition} {J : M.World → Prop}
    (hJ : ∀ i {β : Type} (c : M.Cmd i β) a w b w', ok i c a w →
      M.exec i c a w = some (b, w') → J w → J w')
    {init cfg : M.Config} (h : Reach ok init cfg) (h0 : J init.world) :
    Reach (fun i _ c a w => ok i c a w ∧ J w) init cfg := by
  induction h with
  | init => exact .init
  | step hr hs hm ih => exact ih.step hs fun β c k hp => ⟨hm β c k hp, hr.invariant hJ h0⟩

/-- What holds of every world that a run leads to may be added to the condition,
    before and after the step. -/
theorem Reach.with_reached {ok : M.Condition} {J : M.World → Prop} {init cfg : M.Config}
    (hJ : ∀ cfg, Reach ok init cfg → J cfg.world) (h : Reach ok init cfg) :
    Reach (fun i _ c a w => ok i c a w ∧ J w ∧ ∀ b w', M.exec i c a w = some (b, w') → J w')
      init cfg := by
  induction h with
  | init => exact .init
  | @step cfg cfg' m hr hs hm ih =>
    refine ih.step hs fun β c k hp => ⟨hm β c k hp, hJ _ hr, fun b w' he => ?_⟩
    obtain ⟨-, ⟨β', c', k', b', hp', he', -⟩ | ⟨_, _, _, _, _, hp', -⟩⟩ := step_cases hs
    · obtain ⟨rfl, hc, -⟩ := Prog.exec.inj (hp.symm.trans hp')
      cases hc
      cases he.symm.trans he'
      exact hJ _ (hr.step hs hm)
    · exact nomatch hp.symm.trans hp'

/-! ## The verification of threads

The threads `t x`, for `x` in an index type, each look at the world through a
view of their own. `Describes` says that an interface describes what a thread
does to its view and what the others may do to it. -/

structure Describes (ok : M.Condition) (i : M.Thread) {O : Type v} (V : M.World → O)
    (L : Interface (M.Cmd i) O) : Prop where
  self : ∀ {β : Type} (c : M.Cmd i β) a w b w', ok i c a w → M.exec i c a w = some (b, w') →
    L.step c (V w) b (V w')
  other : ∀ {β : Type} j, j ≠ i → ∀ (c : M.Cmd j β) a w b w', ok j c a w →
    M.exec j c a w = some (b, w') → L.rely (V w) (V w')

variable {ok : M.Condition} {i : M.Thread} {O : Type v} {V : M.World → O}
  {L : Interface (M.Cmd i) O} {Q : M.Result i → O → Prop} {init cfg : M.Config}

omit [DecidableEq M.Thread] in
theorem Describes.mono {ok' : M.Condition} (h : Describes ok i V L)
    (hok : ∀ j {β : Type} (c : M.Cmd j β) a w, ok' j c a w → ok j c a w) :
    Describes ok' i V L where
  self c a w b w' hc := h.self c a w b w' (hok _ c a w hc)
  other j hj c a w b w' hc := h.other j hj c a w b w' (hok _ c a w hc)

/-- One move keeps the weakest precondition of a thread. -/
theorem Describes.wp_step (hL : Describes ok i V L)
    (hQ : ∀ a o o', L.rely o o' → Q a o → Q a o') {cfg cfg' : M.Config} {m : M.Move}
    (hs : Machine.step cfg m = some cfg') (hm : Meets ok cfg m)
    (h : (cfg.thread i).wp L Q (V cfg.world)) : (cfg'.thread i).wp L Q (V cfg'.world) := by
  obtain ⟨hothers, ⟨β, c, k, b, hp, he, hk⟩ | ⟨σ, β, body, s, k, hp, hw, hk⟩⟩ := step_cases hs
  · by_cases hi : i = m.1
    · subst hi
      rw [hp] at h
      rw [hk]
      exact (Prog.wp_exec_elim h (hL.self c m.2 _ b _ (hm β c k hp) he)).2
    · rw [hothers i hi]
      exact Prog.wp_rely hQ (hL.other m.1 (Ne.symm hi) c m.2 _ b _ (hm β c k hp) he) h
  · rw [hw]
    by_cases hi : i = m.1
    · subst hi
      rw [hp] at h
      rw [hk]
      exact Prog.wp_unroll h
    · rw [hothers i hi]
      exact h

/-- A thread that meets its weakest precondition keeps meeting it. -/
theorem Describes.wp (hL : Describes ok i V L)
    (hQ : ∀ a o o', L.rely o o' → Q a o → Q a o')
    (h0 : (init.thread i).wp L Q (V init.world)) (h : Reach ok init cfg) :
    (cfg.thread i).wp L Q (V cfg.world) := by
  induction h with
  | init => exact h0
  | step _ hs hm ih => exact hL.wp_step hQ hs hm ih

/-- The interface of a thread that looks at the whole world, where the steps of
    the others meet `R`. -/
@[reducible] def relying (ok : M.Condition) (i : M.Thread) (R : M.World → M.World → Prop)
    (hrefl : ∀ w, R w w) (htrans : ∀ {w₁ w₂ w₃}, R w₁ w₂ → R w₂ w₃ → R w₁ w₃) :
    Interface (M.Cmd i) M.World where
  step c w b w' := ∃ a, ok i c a w ∧ M.exec i c a w = some (b, w')
  rely := R
  guar _ _ _ _ := True
  rely_refl := hrefl
  rely_trans := htrans

omit [DecidableEq M.Thread] in
theorem describes_relying {R : M.World → M.World → Prop} {hrefl : ∀ w, R w w}
    {htrans : ∀ {w₁ w₂ w₃}, R w₁ w₂ → R w₂ w₃ → R w₁ w₃}
    (hR : ∀ {β : Type} j, j ≠ i → ∀ (c : M.Cmd j β) a w b w', ok j c a w →
      M.exec j c a w = some (b, w') → R w w') :
    Describes ok i id (relying ok i R hrefl htrans) where
  self _ a _ _ _ hok h := ⟨a, hok, h⟩
  other := hR

theorem Describes.result (hL : Describes ok i V L)
    (hQ : ∀ a o o', L.rely o o' → Q a o → Q a o')
    (h0 : (init.thread i).wp L Q (V init.world)) (h : Reach ok init cfg)
    {a : M.Result i} (ha : cfg.thread i = .ret a) : Q a (V cfg.world) := by
  have hwp := hL.wp hQ h0 h
  rw [ha] at hwp
  exact Prog.wp_ret_elim hwp

/-- The next command of a verified thread guarantees what its interface promises. -/
theorem Describes.guar (hL : Describes ok i V L)
    (hQ : ∀ a o o', L.rely o o' → Q a o → Q a o')
    (h0 : (init.thread i).wp L Q (V init.world)) (h : Reach ok init cfg) {β : Type}
    {c : M.Cmd i β} {k : β → Prog (M.Cmd i) (M.Result i)} {a : M.Answer} {b : β} {w : M.World}
    (hc : cfg.thread i = .exec c k) (hok : ok i c a cfg.world)
    (hexec : M.exec i c a cfg.world = some (b, w)) : L.guar c (V cfg.world) b (V w) := by
  have hwp := hL.wp hQ h0 h
  rw [hc] at hwp
  exact (Prog.wp_exec_elim hwp (hL.self c a _ b _ hok hexec)).1

section Strengthen

variable {ι : Type w} {t : ι → M.Thread} {O : ι → Type v} {V : ∀ x, M.World → O x}
  {L : ∀ x, Interface (M.Cmd (t x)) (O x)} {Q : ∀ x, M.Result (t x) → O x → Prop}
  {ok ok' : M.Condition}

/-- The move of a verified thread meets what its interface promises. -/
theorem Describes.meets (hL : ∀ x, Describes ok (t x) (V x) (L x))
    (hself : ∀ x {β : Type} (c : M.Cmd (t x) β) a w b w', ok (t x) c a w →
      M.exec (t x) c a w = some (b, w') → (L x).guar c (V x w) b (V x w') →
      ok' (t x) c a w)
    (hother : ∀ j, (∀ x, j ≠ t x) → ∀ {β : Type} (c : M.Cmd j β) a w, ok j c a w → ok' j c a w)
    {cfg cfg' : M.Config} {m : M.Move}
    (hwp : ∀ x, (cfg.thread (t x)).wp (L x) (Q x) (V x cfg.world))
    (hs : Machine.step cfg m = some cfg') (hm : Meets ok cfg m) : Meets ok' cfg m := by
  intro β c k hp
  obtain ⟨i, a⟩ := m
  by_cases hx : ∃ x, i = t x
  · obtain ⟨x, rfl⟩ := hx
    have hwp := hwp x
    simp only at hp
    rw [hp] at hwp
    obtain ⟨b, w', he⟩ := step_exec hs hp
    exact hself x c a _ b w' (hm β c k hp) he
      (Prog.wp_exec_elim hwp ((hL x).self c a _ b w' (hm β c k hp) he)).1
  · exact hother i (fun x hi => hx ⟨x, hi⟩) c a _ (hm β c k hp)

/-- The steps of verified threads guarantee what their interfaces promise: the
    condition on the steps may be strengthened by it. -/
theorem Reach.strengthen (hL : ∀ x, Describes ok (t x) (V x) (L x))
    (hQ : ∀ x a o o', (L x).rely o o' → Q x a o → Q x a o')
    (h0 : ∀ x, (init.thread (t x)).wp (L x) (Q x) (V x init.world))
    (hself : ∀ x {β : Type} (c : M.Cmd (t x) β) a w b w', ok (t x) c a w →
      M.exec (t x) c a w = some (b, w') → (L x).guar c (V x w) b (V x w') →
      ok' (t x) c a w)
    (hother : ∀ j, (∀ x, j ≠ t x) → ∀ {β : Type} (c : M.Cmd j β) a w, ok j c a w → ok' j c a w)
    (h : Reach ok init cfg) : Reach ok' init cfg := by
  induction h with
  | init => exact .init
  | step hr hs hm ih =>
    exact ih.step hs (Describes.meets hL hself hother (fun x => (hL x).wp (hQ x) (h0 x) hr) hs hm)

end Strengthen

end Machine

end Interaction
