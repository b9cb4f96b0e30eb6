-- SUMMARY: Straight programs, which have no loop and whose commands are never blocked, and the threads of a machine that run them.
import Procherd.Interaction.Proc
import Procherd.Interaction.Tampering

/-!
# Straight programs

A thread that runs a straight program comes to its end by moves of its own,
wherever the other threads have led the world.
-/

namespace Interaction

universe u v

variable {C D : Type → Type} {α β : Type}

/-- A program without loops whose commands are all in `P`. -/
inductive Prog.Straight (P : ∀ {β : Type}, C β → Prop) : {α : Type} → Prog C α → Prop where
  | ret {α : Type} (a : α) : Straight P (.ret a)
  | exec {α β : Type} {c : C β} {k : β → Prog C α} :
      P c → (∀ b, Straight P (k b)) → Straight P (.exec c k)

namespace Prog

variable {P : ∀ {β : Type}, C β → Prop} {p : Prog C α}

theorem Straight.bind {f : α → Prog C β} (h : p.Straight P) (hf : ∀ a, (f a).Straight P) :
    (p.bind f).Straight P := by
  induction h with
  | ret a => exact hf a
  | exec hc _ ih => exact .exec hc fun b => ih b

theorem Straight.hoist {Q : ∀ {β : Type}, D β → Prop} {f : ∀ {β : Type}, C β → D β}
    (hf : ∀ {β : Type} (c : C β), P c → Q (f c)) (h : p.Straight P) : (p.hoist f).Straight Q := by
  induction h with
  | ret a => exact .ret a
  | exec hc _ ih => exact .exec (hf _ hc) ih

theorem Straight.exec_elim {c : C β} {k : β → Prog C α} (h : (Prog.exec c k).Straight P) :
    P c ∧ ∀ b, (k b).Straight P := by
  cases h with
  | exec hc hk => exact ⟨hc, hk⟩

/-- A straight program keeps what its commands keep. -/
theorem Straight.wp_keeps {O : Type v} {L : Interface C O} {cs : ∀ {β : Type}, C β → Bool}
    {J : O → Prop} (hkeeps : L.Keeps cs J) (h : p.Straight (fun {_} c => cs c = true)) {o : O}
    (ho : J o) : p.wp L (fun _ => J) o := by
  induction h generalizing o with
  | ret a => exact wp_ret ho
  | exec hc _ ih =>
    refine wp_exec fun _ hrely _ _ hs => ?_
    obtain ⟨hguar, ho⟩ := hkeeps _ hc ho hrely hs
    exact ⟨hguar, ih _ ho⟩

end Prog

/-! ## Procedures -/

namespace Proc

variable {ε σ : Type} {P : ∀ {β : Type}, C β → Prop}

/-- A procedure without loops whose commands are all in `P`. -/
def Straight (P : ∀ {β : Type}, C β → Prop) (m : Proc C ε σ α) : Prop :=
  ∀ s, (m s).Straight P

theorem Straight.pure {a : α} : Straight P (pure a : Proc C ε σ α) := fun _ => .ret _

theorem Straight.ofExcept {r : Except ε α} : Straight P (ofExcept r : Proc C ε σ α) :=
  fun _ => .ret _

theorem Straight.attempt {c : C (Except ε α)} (hc : P c) :
    Straight P (attempt c : Proc C ε σ α) := fun _ => .exec hc fun _ => .ret _

theorem Straight.throw {e : ε} : Straight P (throw e : Proc C ε σ α) := fun _ => .ret _

theorem Straight.call {c : C α} (hc : P c) : Straight P (call c : Proc C ε σ α) :=
  fun _ => .exec hc fun _ => .ret _

theorem Straight.outcome {m : Proc C ε σ α} (hm : Straight P m) : Straight P (outcome m) :=
  fun s => (hm s).bind fun _ => .ret _

theorem Straight.bind {m : Proc C ε σ α} {f : α → Proc C ε σ β} (hm : Straight P m)
    (hf : ∀ a, Straight P (f a)) : Straight P (m >>= f) := by
  intro s
  refine Prog.Straight.bind (hm s) ?_
  rintro ⟨e | a, s'⟩
  · exact .ret _
  · exact hf a s'

theorem Straight.ensuring {m : Proc C ε σ α} {cleanup : Proc C ε σ Unit} (hm : Straight P m)
    (hcleanup : Straight P cleanup) : Straight P (ensuring m cleanup) :=
  .bind hm.outcome fun _ => .bind hcleanup fun _ => .ofExcept

theorem Straight.hoist {Q : ∀ {β : Type}, D β → Prop} {f : ∀ {β : Type}, C β → D β}
    (hf : ∀ {β : Type} (c : C β), P c → Q (f c)) {m : Proc C ε σ α} (hm : Straight P m) :
    Straight Q (m.hoist f) := fun s => (hm s).hoist hf

/-- A straight procedure keeps what its commands keep. -/
theorem Straight.wp_keeps {O : Type v} {L : Interface C O} {cs : ∀ {β : Type}, C β → Bool}
    {J : O → Prop} (hkeeps : L.Keeps cs J) {m : Proc C ε σ α}
    (hm : Straight (fun {_} c => cs c = true) m) {s : σ} {o : O} (ho : J o) :
    wp L m (fun _ _ => J) (fun _ _ => J) s o := by
  refine Prog.wp_mono ?_ ((hm s).wp_keeps hkeeps ho)
  rintro ⟨e | a, s'⟩ o h <;> exact h

end Proc

/-! ## Threads -/

namespace Machine

variable {M : Machine.{u}} [DecidableEq M.Thread] {i : M.Thread}
  {P : ∀ {β : Type}, M.Cmd i β → Prop} {ok : M.Condition} {init cfg : M.Config}

/-- What is left of a straight program is straight. -/
theorem straight_step {cfg cfg' : M.Config} {m : M.Move} (hs : Machine.step cfg m = some cfg')
    (h : (cfg.thread i).Straight P) : (cfg'.thread i).Straight P := by
  obtain ⟨hothers, ⟨β, c, k, b, hp, -, hk⟩ | ⟨σ, β, body, s, k, hp, -⟩⟩ := step_cases hs
  · by_cases hi : i = m.1
    · subst hi
      rw [hp] at h
      rw [hk]
      exact h.exec_elim.2 b
    · rw [hothers i hi]
      exact h
  · by_cases hi : i = m.1
    · subst hi
      rw [hp] at h
      cases h
    · rw [hothers i hi]
      exact h

theorem Reach.straight (h : Reach ok init cfg) (h0 : (init.thread i).Straight P) :
    (cfg.thread i).Straight P := by
  induction h with
  | init => exact h0
  | step _ hs _ ih => exact straight_step hs ih

theorem TamperedRun.straight {tamper : M.World → M.World → Prop} {ms : List M.Move}
    (h : TamperedRun ok tamper init ms cfg) (h0 : (init.thread i).Straight P) :
    (cfg.thread i).Straight P := by
  induction h with
  | init => exact h0
  | step _ hs _ ih => exact straight_step hs ih
  | tamper _ _ ih => exact ih

/-- A thread comes to the end of a straight program by its own moves, if its
    commands are never blocked. -/
theorem finishes_of_straight
    (hP : ∀ {β : Type} (c : M.Cmd i β) w, P c → ∃ a b w', M.exec i c a w = some (b, w'))
    (h : (cfg.thread i).Straight P) : ∃ ms cfg' r, (∀ m ∈ ms, m.1 = i) ∧
      run cfg ms = some cfg' ∧ cfg'.thread i = .ret r := by
  generalize hp : cfg.thread i = p at h
  induction h generalizing cfg with
  | ret r => exact ⟨[], cfg, r, fun _ h => absurd h List.not_mem_nil, rfl, hp⟩
  | @exec β c k hc _ ih =>
    obtain ⟨a, b, w', hexec⟩ := hP c cfg.world hc
    let next : M.Config := { world := w', thread := Function.update cfg.thread i (k b) }
    have hs : Machine.step cfg (i, a) = some next := by
      simp only [Machine.step, hp, Prog.step, hexec, Option.map_some, next]
    have hnext : next.thread i = k b := Function.update_self ..
    obtain ⟨ms, cfg', r, hms, hrun, hr⟩ := ih b hnext
    refine ⟨(i, a) :: ms, cfg', r, List.forall_mem_cons.mpr ⟨rfl, hms⟩, ?_, hr⟩
    simp only [run, hs, Option.bind_some]
    exact hrun

/-- A verified thread comes to the end of a straight program by its own moves, if
    each of its commands can be executed where the thread may execute it. What the
    world answers on the way is up to `answered`. -/
theorem TamperedRun.finishes {tamper : M.World → M.World → Prop} {ms : List M.Move} {O : Type v}
    {V : M.World → O} {L : Interface (M.Cmd i) O} {Q : M.Result i → O → Prop} {I : M.World → Prop}
    {answered : M.Condition}
    (hself : ∀ {β : Type} (c : M.Cmd i β) a w b w', ok i c a w → M.exec i c a w = some (b, w') →
      L.step c (V w) b (V w'))
    (hnext : ∀ {β : Type} (c : M.Cmd i β) (k : β → Prog (M.Cmd i) (M.Result i)) w,
      (Prog.exec c k).wp L Q (V w) → I w →
      ∃ a b w', answered i c a w ∧ ok i c a w ∧ M.exec i c a w = some (b, w') ∧ I w')
    (h : TamperedRun ok tamper init ms cfg) (hstraight : (cfg.thread i).Straight P)
    (hwp : (cfg.thread i).wp L Q (V cfg.world)) (hI : I cfg.world) :
    ∃ ms' cfg' r, Reach answered cfg cfg' ∧ TamperedRun ok tamper init ms' cfg' ∧
      cfg'.thread i = .ret r ∧ Q r (V cfg'.world) ∧ I cfg'.world := by
  generalize hp : cfg.thread i = p at hstraight hwp
  induction hstraight generalizing cfg ms with
  | ret r => exact ⟨ms, cfg, r, .init, h, hp, Prog.wp_ret_elim hwp, hI⟩
  | @exec β c k _ _ ih =>
    obtain ⟨a, b, w', hanswered, hok, hexec, hI'⟩ := hnext c k cfg.world hwp hI
    let next : M.Config := { world := w', thread := Function.update cfg.thread i (k b) }
    have hs : Machine.step cfg (i, a) = some next := by
      simp only [Machine.step, hp, Prog.step, hexec, Option.map_some, next]
    have hmeets {ok' : M.Condition} (hok' : ok' i c a cfg.world) : Meets ok' cfg (i, a) := by
      intro β' c' k' hp'
      obtain ⟨rfl, hc, -⟩ := Prog.exec.inj (hp.symm.trans hp')
      cases hc
      exact hok'
    have hthread : next.thread i = k b := Function.update_self ..
    have hrest := (Prog.wp_exec_elim hwp (hself c a _ b w' hok hexec)).2
    obtain ⟨ms', cfg', r, hreach, htampered, hr⟩ :=
      ih b (h.step hs (hmeets hok)) hI' hthread hrest
    exact ⟨ms', cfg', r, .trans (.step .init hs (hmeets hanswered)) hreach, htampered, hr⟩

end Machine

end Interaction
