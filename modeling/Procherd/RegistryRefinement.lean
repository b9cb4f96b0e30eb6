-- SUMMARY: The program of the registry refines its transactions: every run of any number of supervisors, call by call and with kills, is a run of the events of `Ports`.
import Procherd.Registry

/-!
# The refinement of the registry

A call either leaves the state root of `Ports` alone or is one of its events. The
lock of the registry makes this so: what a process read, tested and computed
since it took the lock is still what the state root says when it writes.
-/

namespace Procherd

open Interaction

namespace Registry

variable {runs : Nat → String} {n : Nat} {w w' : World}

/-! ## What the calls of a process need -/

/-- When a process may execute a call. -/
def Allowed [Toolchain] (runId : String) (n : Nat) (w : World) : {β : Type} → Cmd β → Prop
  | _, .lockSupervisor => w.supervisor runId ≠ some n
  | _, .lock _ => w.supervisor runId = some n ∧ w.lock ≠ some n
  | _, .supervisorActive tested => w.lock = some n ∧ ∃ reservation, w.reservation = some reservation ∧
      (w.root.entries[reservation.answers.length]?).map (·.runId) = some tested
  | _, .writeJson registry reserved => w.lock = some n ∧
      match w.reservation with
      | some reservation => w.root.entries.length ≤ reservation.answers.length ∧
          ∃ offers, Procherd.updateRegistry w.file (Procherd.reservePorts reservation.active offers
            reservation.runId reservation.names) = .ok (reserved, registry)
      | none => Procherd.updateRegistry w.file (releaseEntries runId) = .ok ((), registry)
  | _, .closeSupervisorLock => w.lock ≠ some n
  | _, _ => True

/-- The locks are held by live processes, and a transaction by a supervisor. -/
structure Orderly (runs : Nat → String) (w : World) : Prop where
  supervisor : ∀ runId n, w.supervisor runId = some n → runs n = runId ∧ w.killed n = false
  lock : ∀ n, w.lock = some n → w.supervisor (runs n) = some n
  reservation : ∀ reservation, w.reservation = some reservation →
    ∃ n, w.lock = some n ∧ reservation.runId = runs n

/-- The state root goes from one to the other by events. -/
def Refines [Toolchain] (root root' : Root) : Prop := ∃ events, root.run events = some root'

namespace Refines

variable [Toolchain] {root root' root'' : Root}

theorem refl : Refines root root := ⟨[], rfl⟩

theorem event (event : RootEvent) (htruthful : root.truthful event)
    (hstep : root.step event = some root') : Refines root root' := by
  refine ⟨[event], ?_⟩
  simp only [Root.run, htruthful, if_true, hstep, Option.bind_some]

theorem trans (h : Refines root root') (h' : Refines root' root'') : Refines root root'' := by
  obtain ⟨events, hrun⟩ := h
  obtain ⟨events', hrun'⟩ := h'
  refine ⟨events ++ events', ?_⟩
  induction events generalizing root with
  | nil =>
    cases hrun
    exact hrun'
  | cons first events ih =>
    simp only [Root.run] at hrun
    split at hrun
    · rename_i hfirst
      obtain ⟨next, hnext, hrest⟩ := Option.bind_eq_some_iff.mp hrun
      simp only [List.cons_append, Root.run, hfirst, if_true, hnext, Option.bind_some]
      exact ih hrest
    · cases hrun

end Refines

/-! ## Orderly calls refine events -/

namespace Orderly

theorem initial {file : Option PortRegistry} : Orderly runs { file } where
  supervisor _ _ h := by cases h
  lock _ h := by cases h
  reservation _ h := by cases h

theorem frame (h : Orderly runs w) (hsupervisor : w'.supervisor = w.supervisor)
    (hlock : w'.lock = w.lock) (hkilled : w'.killed = w.killed)
    (hreservation : ∀ reservation, w'.reservation = some reservation →
      ∃ old, w.reservation = some old ∧ reservation.runId = old.runId) : Orderly runs w' := by
  refine ⟨?_, ?_, ?_⟩
  · rw [hsupervisor, hkilled]
    exact h.supervisor
  · rw [hlock, hsupervisor]
    exact h.lock
  · intro reservation hres
    obtain ⟨old, hold, hrun⟩ := hreservation reservation hres
    rw [hlock, hrun]
    exact h.reservation old hold

/-- A process gives up the lock of the registry. -/
theorem unlock [Toolchain] (h : Orderly runs w) :
    Orderly runs (w.unlock n) ∧ Refines w.root (w.unlock n).root := by
  unfold World.unlock
  split
  · refine ⟨⟨h.supervisor, fun _ hlock => (by cases hlock), fun _ hres => (by cases hres)⟩, ?_⟩
    exact .event .abort rfl rfl
  · exact ⟨h, .refl⟩

/-- A process that is in no transaction gives up the lock of its run. -/
theorem unlockSupervisor [Toolchain] (h : Orderly runs w) (hlock : w.lock ≠ some n) :
    Orderly runs (w.unlockSupervisor (runs n) n) ∧
      Refines w.root (w.unlockSupervisor (runs n) n).root := by
  unfold World.unlockSupervisor
  split
  swap
  · exact ⟨h, .refl⟩
  rename_i hheld
  have hother (m : Nat) (hm : w.lock = some m) : runs m ≠ runs n := by
    intro heq
    have hsame := h.lock m hm
    rw [heq, hheld] at hsame
    cases hsame
    exact hlock hm
  constructor
  · refine ⟨fun runId m hm => ?_, fun m hm => ?_, h.reservation⟩
    · by_cases hrun : runId = runs n
      · subst hrun
        cases (Function.update_self (runs n) none w.supervisor).symm.trans hm
      · exact h.supervisor runId m ((Function.update_of_ne hrun none w.supervisor).symm.trans hm)
    · exact (Function.update_of_ne (hother m hm) _ _).trans (h.lock m hm)
  · refine .event (.closeLock (runs n)) rfl (congrArg some ?_)
    have hheld' : (fun runId => (Function.update w.supervisor (runs n) none runId).isSome) =
        Function.update (fun runId => (w.supervisor runId).isSome) (runs n) false := by
      funext runId
      by_cases hrun : runId = runs n
      · subst hrun
        simp only [Function.update_self, Option.isSome_none]
      · simp only [Function.update_of_ne hrun]
    have hfilter : w.reservation.filter (fun reservation => reservation.runId ≠ runs n) =
        w.reservation := by
      cases hres : w.reservation with
      | none => rfl
      | some reservation =>
        obtain ⟨m, hm, hrun⟩ := h.reservation reservation hres
        rw [Option.filter_some, if_pos]
        exact decide_eq_true (hrun ▸ hother m hm)
    simp only [World.root, hheld', hfilter]

/-- A process is killed in the middle of anything. -/
theorem kill [Toolchain] (h : Orderly runs w) (n : Nat) :
    Orderly runs (w.kill (runs n) n) ∧ Refines w.root (w.kill (runs n) n).root := by
  obtain ⟨hunlocked, hrefines⟩ := h.unlock (n := n)
  have hlock : (w.unlock n).lock ≠ some n := by
    unfold World.unlock
    split
    · exact fun h => by cases h
    · assumption
  obtain ⟨hclosed, hrefines'⟩ := hunlocked.unlockSupervisor hlock
  have hfree (runId : String) :
      ((w.unlock n).unlockSupervisor (runs n) n).supervisor runId ≠ some n := by
    intro hheld
    have hrun := (hclosed.supervisor runId n hheld).1
    subst hrun
    unfold World.unlockSupervisor at hheld
    split at hheld
    · cases (Function.update_self (runs n) none (w.unlock n).supervisor).symm.trans hheld
    · exact absurd hheld ‹_›
  refine ⟨⟨fun runId m hm => ?_, hclosed.lock, hclosed.reservation⟩, hrefines.trans hrefines'⟩
  have hne : m ≠ n := fun heq => hfree runId (heq ▸ hm)
  obtain ⟨hrun, halive⟩ := hclosed.supervisor runId m hm
  exact ⟨hrun, (Function.update_of_ne hne _ _).trans halive⟩

/-- A process gets the lock of its run. -/
theorem lockSupervisor [Toolchain] (h : Orderly runs w) (halive : w.killed n = false)
    (hfree : ¬ (w.supervisor (runs n)).isSome) :
    let w' := { w with supervisor := Function.update w.supervisor (runs n) (some n) }
    Orderly runs w' ∧ Refines w.root w'.root := by
  have hlock (m : Nat) (hm : w.lock = some m) : runs m ≠ runs n := by
    intro heq
    have hheld := h.lock m hm
    rw [heq] at hheld
    rw [hheld] at hfree
    exact hfree rfl
  constructor
  · refine ⟨fun runId m hm => ?_, fun m hm => ?_, h.reservation⟩
    · by_cases hrun : runId = runs n
      · subst hrun
        cases (Function.update_self (runs n) (some n) w.supervisor).symm.trans hm
        exact ⟨rfl, halive⟩
      · exact h.supervisor runId m ((Function.update_of_ne hrun (some n) w.supervisor).symm.trans hm)
    · exact (Function.update_of_ne (hlock m hm) _ _).trans (h.lock m hm)
  · have hheld : (fun runId => (Function.update w.supervisor (runs n) (some n) runId).isSome) =
        Function.update (fun runId => (w.supervisor runId).isSome) (runs n) true := by
      funext runId
      by_cases hrun : runId = runs n
      · subst hrun
        simp only [Function.update_self, Option.isSome_some]
      · simp only [Function.update_of_ne hrun]
    refine .event (.acquireLock (runs n)) rfl ?_
    simp only [Root.step, World.root, hfree, hheld, Bool.false_eq_true, if_false]

/-- A process gets the lock of the registry. -/
theorem lockRegistry [Toolchain] (h : Orderly runs w) (purpose : Purpose)
    (hheld : w.supervisor (runs n) = some n) (hfree : ¬ w.lock.isSome) :
    let w' := { w with
      lock := some n
      reservation := purpose.reservation (runs n) }
    Orderly runs w' ∧ Refines w.root w'.root := by
  have hnone : w.reservation = none := by
    by_contra hsome
    obtain ⟨reservation, hres⟩ := Option.ne_none_iff_exists'.mp hsome
    obtain ⟨m, hm, -⟩ := h.reservation reservation hres
    rw [hm] at hfree
    exact hfree rfl
  constructor
  · refine ⟨h.supervisor, fun m hm => ?_, fun reservation hres => ?_⟩
    · cases hm
      exact hheld
    · cases purpose with
      | reserve names =>
        cases hres
        exact ⟨n, rfl, rfl⟩
      | release => cases hres
  · cases purpose with
    | reserve names =>
      refine .event (.openReservation (runs n) names) rfl ?_
      simp only [Root.step, World.root, hheld, hnone, Option.isSome_some, and_self, if_true,
        Purpose.reservation]
    | release =>
      simp only [World.root, hnone]
      exact .refl

/-- The transaction tests the supervisor of its next entry. -/
theorem supervisorActive [Toolchain] {tested : String} {active : Bool} {reservation : Reservation}
    (h : Orderly runs w) (hres : w.reservation = some reservation)
    (htested : (w.root.entries[reservation.answers.length]?).map (·.runId) = some tested)
    (htruthful : (w.supervisor tested).isSome → active) :
    let w' := { w with
      reservation := some { reservation with answers := reservation.answers ++ [active] } }
    Orderly runs w' ∧ Refines w.root w'.root := by
  refine ⟨h.frame rfl rfl rfl ?_, .event (.testLock active) ?_ ?_⟩
  · rintro _ ⟨⟩
    exact ⟨reservation, hres, rfl⟩
  · obtain ⟨entry, hentry, rfl⟩ := Option.map_eq_some_iff.mp htested
    have hres' : w.root.reservation = some reservation := hres
    simp only [Root.truthful, hres', hentry, Option.all_some, Bool.or_eq_true, Bool.not_eq_true']
    cases hheld : w.root.held entry.runId with
    | false => exact .inl rfl
    | true => exact .inr (htruthful hheld)
  · have hlt : reservation.answers.length < w.root.entries.length := by
      obtain ⟨entry, hentry, -⟩ := Option.map_eq_some_iff.mp htested
      exact (List.getElem?_eq_some_iff.mp hentry).1
    have hres' : w.root.reservation = some reservation := hres
    simp only [Root.step, hres', hlt, if_true]
    rfl

/-- The file of the registry is replaced. -/
theorem writeJson [Toolchain] {registry : PortRegistry} {reserved : List ReservedPort}
    (h : Orderly runs w) (hallowed : Allowed (runs n) n w (.writeJson registry reserved))
    (reported : Bool) :
    let w' := w.write (runs n) registry reserved reported
    Orderly runs w' ∧ Refines w.root w'.root := by
  obtain ⟨hlock, hupdate⟩ := hallowed
  unfold World.write
  cases hres : w.reservation with
  | some reservation =>
    rw [hres] at hupdate
    obtain ⟨hcomplete, offers, hupdate⟩ := hupdate
    refine ⟨h.frame rfl rfl rfl fun _ hnone => (by cases hnone), ?_⟩
    refine .event (.commit offers reported) rfl ?_
    have hres' : w.root.reservation = some reservation := hres
    have hupdate' : Procherd.updateRegistry w.root.registry (Procherd.reservePorts
        reservation.active offers reservation.runId reservation.names) = .ok (reserved, registry) :=
      hupdate
    simp only [Root.step, hres', Nat.not_lt.mpr hcomplete, if_false, hupdate']
    rfl
  | none =>
    rw [hres] at hupdate
    refine ⟨h.frame rfl rfl rfl fun _ hsome => (by cases hsome), ?_⟩
    refine .event (.release (runs n)) rfl ?_
    have hheld : w.root.held (runs n) = true ∧ w.root.reservation = none :=
      ⟨congrArg Option.isSome (h.lock n hlock), hres⟩
    have hupdate' : Procherd.updateRegistry w.root.registry (releaseEntries (runs n)) =
        .ok ((), registry) := hupdate
    simp only [Root.step, hheld, and_self, if_true, hupdate']
    rfl

end Orderly

/-! ## Calls -/

theorem exec_alive {β : Type} {c : Cmd β} {a : Answer} {b : β} {runId : String}
    (h : exec runId n c a w = some (b, w')) :
    w.killed n = false ∧ execLive runId n c a w = some (b, w') := by
  unfold exec at h
  split at h
  · cases h
  · exact ⟨Bool.eq_false_of_not_eq_true ‹_›, h⟩

theorem fallible_cases {α : Type} {a : Answer} {r : Except AppError α}
    {success : Option (Except AppError α × World)} (h : fallible a w success = some (r, w')) :
    (∃ e, r = .error e ∧ w' = w) ∨ success = some (r, w') := by
  unfold fallible at h
  split at h
  · cases h
    exact .inl ⟨_, rfl, rfl⟩
  · exact .inr h

/-- A call that is allowed keeps the order and makes events of `Ports`. -/
theorem step_refines [Toolchain] {β : Type} {c : Cmd β} {a : Answer} {b : β}
    (h : Orderly runs w) (htruthful : truthful runs n c a w) (hallowed : Allowed (runs n) n w c)
    (hexec : exec (runs n) n c a w = some (b, w')) : Orderly runs w' ∧ Refines w.root w'.root := by
  obtain ⟨halive, hexec⟩ := exec_alive hexec
  have hsame : Orderly runs w ∧ Refines w.root w.root := ⟨h, .refl⟩
  cases c with
  | lockSupervisor =>
    obtain ⟨e, rfl, rfl⟩ | hexec := fallible_cases hexec
    · exact hsame
    · split at hexec <;> cases hexec
      exact h.lockSupervisor halive ‹_›
  | lock purpose =>
    obtain ⟨e, rfl, rfl⟩ | hexec := fallible_cases hexec
    · exact hsame
    · split at hexec <;> cases hexec
      exact h.lockRegistry purpose hallowed.1 ‹_›
  | supervisorActive tested =>
    obtain ⟨hlock, reservation, hres, htested⟩ := hallowed
    cases hexec
    simp only [if_pos hlock, hres, Option.map_some]
    exact h.supervisorActive hres htested htruthful
  | writeJson registry reserved =>
    simp only [execLive] at hexec
    split at hexec
    · cases hexec
      split
      · exact h.writeJson hallowed false
      · exact hsame
    · cases hexec
      exact h.writeJson hallowed true
  | unlock =>
    obtain ⟨e, rfl, rfl⟩ | hexec := fallible_cases hexec
    · exact hsame
    · cases hexec
      exact h.unlock
  | closeLock =>
    cases hexec
    exact h.unlock
  | closeSupervisorLock =>
    cases hexec
    exact h.unlockSupervisor hallowed
  | openLock =>
    obtain ⟨e, rfl, rfl⟩ | hexec := fallible_cases hexec
    · exact hsame
    · cases hexec
      exact hsame
  | readJson =>
    obtain ⟨e, rfl, rfl⟩ | hexec := fallible_cases hexec
    · exact hsame
    · cases hexec
      exact hsame
  | bind =>
    obtain ⟨e, rfl, rfl⟩ | hexec := fallible_cases hexec
    · exact hsame
    · cases hexec
      exact hsame
  | pathExists =>
    cases hexec
    exact hsame
  | now =>
    cases hexec
    exact hsame

/-! ## What a process relies on -/

/-- What other processes leave alone of a process that lives. -/
structure Undisturbed (runId : String) (n : Nat) (w w' : World) : Prop where
  killed : w'.killed n = w.killed n
  supervisor : w'.supervisor runId = some n ↔ w.supervisor runId = some n
  lock : w'.lock = some n ↔ w.lock = some n
  file : w.lock = some n → w'.file = w.file
  reservation : w.lock = some n → w'.reservation = w.reservation

def Rely (runId : String) (n : Nat) (w w' : World) : Prop :=
  w'.killed n = true ∨ Undisturbed runId n w w'

theorem Rely.trans {runId : String} {w₁ w₂ w₃ : World} (h : Rely runId n w₁ w₂)
    (h' : Rely runId n w₂ w₃) : Rely runId n w₁ w₃ := by
  obtain hkilled | h' := h'
  · exact .inl hkilled
  obtain hkilled | h := h
  · exact .inl (h'.killed.trans hkilled)
  refine .inr ⟨h'.killed.trans h.killed, h'.supervisor.trans h.supervisor, h'.lock.trans h.lock, ?_, ?_⟩
  · exact fun hlock => (h'.file (h.lock.mpr hlock)).trans (h.file hlock)
  · exact fun hlock => (h'.reservation (h.lock.mpr hlock)).trans (h.reservation hlock)

/-- What a call of `c` may do, what the others may do, and when it is allowed. -/
def interface [Toolchain] (runs : Nat → String) (n : Nat) : Interface Cmd World where
  step c w b w' := ∃ a, truthful runs n c a w ∧ exec (runs n) n c a w = some (b, w')
  rely := Rely (runs n) n
  guar c w _ _ := Allowed (runs n) n w c
  rely_refl _ := .inr ⟨rfl, .rfl, .rfl, fun _ => rfl, fun _ => rfl⟩
  rely_trans := Rely.trans

/-- The file and the reservation of a process that is in a transaction. -/
structure Inside where
  file : Option PortRegistry
  reservation : Option Reservation

/-- A process has the lock of its run, and that of the registry if it is in a
    transaction. -/
def Owns (runId : String) (n : Nat) (inside : Option Inside) (w : World) : Prop :=
  w.supervisor runId = some n ∧
    match inside with
    | none => w.lock ≠ some n
    | some inside => w.lock = some n ∧ w.file = inside.file ∧ w.reservation = inside.reservation

/-- The process owns this as long as it lives. -/
def Own (runId : String) (n : Nat) (inside : Option Inside) (w : World) : Prop :=
  w.killed n = false → Owns runId n inside w

/-- The process owns nothing. -/
def Absent (runId : String) (n : Nat) (w : World) : Prop :=
  w.killed n = false → w.supervisor runId ≠ some n ∧ w.lock ≠ some n

variable {runId : String} {inside : Option Inside} {β : Type} {c : Cmd β} {a : Answer} {b : β}
  {w₁ : World}

theorem Own.rely (h : Own runId n inside w) (hrely : Rely runId n w w') :
    Own runId n inside w' := by
  intro halive
  obtain hkilled | hsame := hrely
  · exact absurd (hkilled.symm.trans halive) (by decide)
  obtain ⟨hheld, hinside⟩ := h (hsame.killed.symm.trans halive)
  refine ⟨hsame.supervisor.mpr hheld, ?_⟩
  cases inside with
  | none => exact fun hlock => hinside (hsame.lock.mp hlock)
  | some inside =>
    obtain ⟨hlock, hfile, hres⟩ := hinside
    exact ⟨hsame.lock.mpr hlock, (hsame.file hlock).trans hfile, (hsame.reservation hlock).trans hres⟩

theorem Absent.rely (h : Absent runId n w) (hrely : Rely runId n w w') : Absent runId n w' := by
  intro halive
  obtain hkilled | hsame := hrely
  · exact absurd (hkilled.symm.trans halive) (by decide)
  obtain ⟨hheld, hlock⟩ := h (hsame.killed.symm.trans halive)
  exact ⟨fun h => hheld (hsame.supervisor.mp h), fun h => hlock (hsame.lock.mp h)⟩

/-- A process that makes a call lives. -/
theorem Own.live (h : Own runId n inside w) (hrely : Rely runId n w w₁)
    (hexec : exec runId n c a w₁ = some (b, w')) : Owns runId n inside w₁ :=
  h.rely hrely (exec_alive hexec).1

theorem Owns.own (h : Owns runId n inside w) : Own runId n inside w := fun _ => h

theorem Owns.unlock (h : Owns runId n inside w) :
    Owns runId n none (w.unlock n) := by
  unfold World.unlock
  split
  · exact ⟨h.1, fun hlock => (by cases hlock)⟩
  · exact ⟨h.1, ‹_›⟩

/-! ## The calls of a process -/

/-- The calls that leave the state root alone. -/
def Cmd.quiet {β : Type} : Cmd β → Bool
  | .openLock | .pathExists | .readJson | .bind | .now => true
  | _ => false

theorem exec_quiet (hc : c.quiet) (h : execLive runId n c a w = some (b, w')) : w' = w := by
  cases c with
  | openLock | readJson | bind =>
    obtain ⟨-, -, rfl⟩ | h := fallible_cases h
    · rfl
    · cases h
      rfl
  | pathExists | now =>
    cases h
    rfl
  | _ => cases hc

section Calls

variable [Toolchain] {E : AppError → Unit → World → Prop} {file : Option PortRegistry}

theorem interface_quiet (hc : c.quiet) (h : Own (runs n) n inside w) (hrely : Rely (runs n) n w w₁)
    (hs : (interface runs n).step c w₁ b w') :
    Allowed (runs n) n w₁ c ∧ Own (runs n) n inside w' := by
  obtain ⟨a, -, hexec⟩ := hs
  obtain ⟨-, hlive⟩ := exec_alive hexec
  rw [exec_quiet hc hlive]
  refine ⟨?_, h.rely hrely⟩
  cases c <;> trivial

theorem wp_call_quiet (hc : c.quiet) (h : Own (runs n) n inside w) :
    Proc.wp (interface runs n) (Proc.call c) (fun _ _ => Own (runs n) n inside) E () w :=
  Proc.wp_call fun _ hrely _ _ hs => interface_quiet hc h hrely hs

theorem wp_attempt_quiet {α : Type} {c : Cmd (Except AppError α)} (hc : c.quiet)
    (h : Own (runs n) n inside w) :
    Proc.wp (interface runs n) (Proc.attempt c) (fun _ _ => Own (runs n) n inside)
      (fun _ _ => Own (runs n) n inside) () w := by
  refine Proc.wp_attempt fun w₁ hrely r w' hs => ?_
  obtain ⟨hallowed, hown⟩ := interface_quiet hc h hrely hs
  refine ⟨hallowed, ?_⟩
  cases r with
  | ok _ => exact hown
  | error _ => exact hown

theorem wp_lockSupervisor (h : Absent (runs n) n w) :
    Proc.wp (interface runs n) (Proc.attempt .lockSupervisor) (fun _ _ => Own (runs n) n none)
      (fun _ _ => Absent (runs n) n) () w := by
  refine Proc.wp_attempt fun w₁ hrely r w' hs => ?_
  obtain ⟨a, -, hexec⟩ := hs
  obtain ⟨halive, hlive⟩ := exec_alive hexec
  have habsent := h.rely hrely
  refine ⟨(habsent halive).1, ?_⟩
  obtain ⟨e, rfl, rfl⟩ | hlive := fallible_cases hlive
  · exact habsent
  · split at hlive <;> cases hlive
    exact fun _ => ⟨Function.update_self .., (habsent halive).2⟩

theorem wp_lock (purpose : Purpose) (h : Own (runs n) n none w) :
    Proc.wp (interface runs n) (Proc.attempt (.lock purpose))
      (fun _ _ w => ∃ file, Own (runs n) n (some ⟨file, purpose.reservation (runs n)⟩) w)
      (fun _ _ => Own (runs n) n none) () w := by
  refine Proc.wp_attempt fun w₁ hrely r w' hs => ?_
  obtain ⟨a, -, hexec⟩ := hs
  have howns := h.live hrely hexec
  refine ⟨howns, ?_⟩
  obtain ⟨e, rfl, rfl⟩ | hlive := fallible_cases (exec_alive hexec).2
  · exact howns.own
  · split at hlive <;> cases hlive
    exact ⟨w₁.file, fun _ => ⟨howns.1, rfl, rfl, rfl⟩⟩

theorem wp_pathExists {inside : Inside} (h : Own (runs n) n (some inside) w) :
    Proc.wp (interface runs n) (Proc.call .pathExists)
      (fun found _ w => found = inside.file.isSome ∧ Own (runs n) n (some inside) w) E () w := by
  refine Proc.wp_call fun w₁ hrely found w' hs => ?_
  have hquiet := interface_quiet (c := .pathExists) rfl h hrely hs
  obtain ⟨a, htruthful, hexec⟩ := hs
  obtain ⟨-, -, hfile, -⟩ := h.live hrely hexec
  refine ⟨hquiet.1, ?_, hquiet.2⟩
  have htruthful : a.fault = none := htruthful
  obtain ⟨-, hlive⟩ := exec_alive hexec
  cases hlive
  rw [htruthful, hfile]
  rfl

theorem wp_readJson {inside : Inside} (h : Own (runs n) n (some inside) w) :
    Proc.wp (interface runs n) (Proc.attempt .readJson)
      (fun registry _ w => inside.file = some registry ∧ Own (runs n) n (some inside) w)
      (fun _ _ => Own (runs n) n (some inside)) () w := by
  refine Proc.wp_attempt fun w₁ hrely r w' hs => ?_
  have hquiet := interface_quiet (c := .readJson) rfl h hrely hs
  obtain ⟨a, -, hexec⟩ := hs
  obtain ⟨-, -, hfile, -⟩ := h.live hrely hexec
  refine ⟨hquiet.1, ?_⟩
  obtain ⟨e, rfl, rfl⟩ | hlive := fallible_cases (exec_alive hexec).2
  · exact hquiet.2
  · rw [hfile] at hlive
    cases hread : inside.file with
    | none =>
      rw [hread] at hlive
      cases hlive
      exact hquiet.2
    | some registry =>
      rw [hread] at hlive
      cases hlive
      exact ⟨rfl, hquiet.2⟩

theorem wp_supervisorActive {tested : String} {reservation : Reservation}
    (htested : ((file.getD .empty).entries[reservation.answers.length]?).map (·.runId) = some tested)
    (h : Own (runs n) n (some ⟨file, some reservation⟩) w) :
    Proc.wp (interface runs n) (Proc.call (.supervisorActive tested))
      (fun active _ => Own (runs n) n (some ⟨file, some { reservation with
        answers := reservation.answers ++ [active] }⟩)) E () w := by
  refine Proc.wp_call fun w₁ hrely active w' hs => ?_
  obtain ⟨a, -, hexec⟩ := hs
  obtain ⟨hheld, hlock, hfile, hres⟩ := h.live hrely hexec
  obtain ⟨-, hlive⟩ := exec_alive hexec
  cases hlive
  refine ⟨⟨hlock, reservation, hres, ?_⟩, fun _ => ⟨hheld, hlock, hfile, ?_⟩⟩
  · unfold World.root Root.entries
    rw [hfile]
    exact htested
  · simp only [if_pos hlock, hres, Option.map_some]

theorem wp_writeJson {registry : PortRegistry} {reserved : List ReservedPort} {inside : Inside}
    (hupdate : match inside.reservation with
      | some reservation => (inside.file.getD .empty).entries.length ≤ reservation.answers.length ∧
          ∃ offers, Procherd.updateRegistry inside.file (Procherd.reservePorts reservation.active
            offers reservation.runId reservation.names) = .ok (reserved, registry)
      | none => Procherd.updateRegistry inside.file (releaseEntries (runs n)) = .ok ((), registry))
    (h : Own (runs n) n (some inside) w) :
    Proc.wp (interface runs n) (Proc.attempt (.writeJson registry reserved))
      (fun _ _ w => ∃ inside, Own (runs n) n (some inside) w)
      (fun _ _ w => ∃ inside, Own (runs n) n (some inside) w) () w := by
  refine Proc.wp_attempt fun w₁ hrely r w' hs => ?_
  obtain ⟨a, -, hexec⟩ := hs
  obtain ⟨hheld, hlock, hfile, hres⟩ := h.live hrely hexec
  have hwritten (reported : Bool) :
      ∃ inside, Own (runs n) n (some inside) (w₁.write (runs n) registry reserved reported) := by
    refine ⟨⟨some registry, none⟩, fun _ => ?_⟩
    unfold World.write
    cases hr : w₁.reservation with
    | some reservation => exact ⟨hheld, hlock, rfl, rfl⟩
    | none => exact ⟨hheld, hlock, rfl, rfl⟩
  refine ⟨⟨hlock, ?_⟩, ?_⟩
  · rw [hres]
    unfold World.root Root.entries
    rw [hfile]
    exact hupdate
  · obtain ⟨-, hlive⟩ := exec_alive hexec
    simp only [execLive] at hlive
    split at hlive
    · cases hlive
      split
      · exact hwritten false
      · exact ⟨inside, fun _ => ⟨hheld, hlock, hfile, hres⟩⟩
    · cases hlive
      exact hwritten true

theorem wp_unlock {inside : Inside} (h : Own (runs n) n (some inside) w) :
    Proc.wp (interface runs n) (Proc.attempt .unlock) (fun _ _ => Own (runs n) n none)
      (fun _ _ w => ∃ inside, Own (runs n) n inside w) () w := by
  refine Proc.wp_attempt fun w₁ hrely r w' hs => ?_
  obtain ⟨a, -, hexec⟩ := hs
  have howns := h.live hrely hexec
  refine ⟨trivial, ?_⟩
  obtain ⟨e, rfl, rfl⟩ | hlive := fallible_cases (exec_alive hexec).2
  · exact ⟨some inside, howns.own⟩
  · cases hlive
    exact howns.unlock.own

theorem wp_closeLock {inside : Option Inside} (h : Own (runs n) n inside w) :
    Proc.wp (interface runs n) (Proc.call .closeLock) (fun _ _ => Own (runs n) n none) E () w := by
  refine Proc.wp_call fun w₁ hrely r w' hs => ?_
  obtain ⟨a, -, hexec⟩ := hs
  have howns := h.live hrely hexec
  obtain ⟨-, hlive⟩ := exec_alive hexec
  cases hlive
  exact ⟨trivial, howns.unlock.own⟩

theorem wp_closeSupervisorLock (h : Own (runs n) n none w) :
    Proc.wp (interface runs n) (Proc.call .closeSupervisorLock)
      (fun _ _ => Absent (runs n) n) E () w := by
  refine Proc.wp_call fun w₁ hrely r w' hs => ?_
  obtain ⟨a, -, hexec⟩ := hs
  obtain ⟨hheld, hlock⟩ := h.live hrely hexec
  obtain ⟨-, hlive⟩ := exec_alive hexec
  cases hlive
  refine ⟨hlock, fun _ => ?_⟩
  unfold World.unlockSupervisor
  rw [if_pos hheld]
  refine ⟨fun heq => ?_, hlock⟩
  cases (Function.update_self (runs n) none w₁.supervisor).symm.trans heq

end Calls

/-! ## The transactions -/

theorem canonical_of_validateRegistry [Toolchain] {registry : PortRegistry}
    (h : validateRegistry registry = .ok ()) :
    ∀ entry ∈ registry.entries, canonicalRunId entry.runId = .ok entry.runId := by
  obtain ⟨schemaVersion, entries⟩ := registry
  induction entries with
  | nil => exact fun entry hentry => by cases hentry
  | cons entry rest ih =>
    simp only [validateRegistry, List.forM_eq_forM, List.forM_cons, bind, Except.bind, throw,
      throwThe, MonadExceptOf.throw] at h
    split at h
    · cases h
    rename_i hentry
    split at hentry
    · cases hentry
    rename_i hcanonical
    exact List.forall_mem_cons.mpr ⟨canonicalRunId_eq hcanonical ▸ hcanonical, ih h⟩

/-- A registry that passes the checks of `update_registry` is updated. -/
theorem updateRegistry_of_valid [Toolchain] {α : Type} {file : Option PortRegistry}
    {update : PortRegistry → Except AppError (α × PortRegistry)}
    (hschema : (file.getD .empty).schemaVersion = REGISTRY_SCHEMA)
    (hvalid : validateRegistry (file.getD .empty) = .ok ()) :
    Procherd.updateRegistry file update = update (file.getD .empty) := by
  simp only [Procherd.updateRegistry, hschema, ne_eq, not_true_eq_false, if_false, hvalid, bind,
    Except.bind]

/-- The system offers these ports one after the other. -/
def Offered (offers : PortOffers) (ports clocks : List Nat) : Prop :=
  (∀ i port, ports[i]? = some port → offers.bind i = .ok port) ∧
    ∀ i clock, clocks[i]? = some clock → offers.clock i = clock

def offered (ports clocks : List Nat) : PortOffers where
  bind i := .ok (ports.getD i 0)
  clock i := clocks.getD i 0

theorem offered_offered (ports clocks : List Nat) :
    Offered (offered ports clocks) ports clocks := by
  constructor
  · intro i port h
    simp only [offered, List.getD_eq_getElem?_getD, h, Option.getD_some]
  · intro i clock h
    simp only [offered, List.getD_eq_getElem?_getD, h, Option.getD_some]

theorem Offered.of_append {offers : PortOffers} {ports ports' clocks clocks' : List Nat}
    (h : Offered offers (ports ++ ports') (clocks ++ clocks')) : Offered offers ports clocks := by
  refine ⟨fun i port hport => h.1 i port ?_, fun i clock hclock => h.2 i clock ?_⟩
  · rw [List.getElem?_append_left (List.getElem?_eq_some_iff.mp hport).1]
    exact hport
  · rw [List.getElem?_append_left (List.getElem?_eq_some_iff.mp hclock).1]
    exact hclock

section Transactions

variable [Toolchain] {inside : Inside} {file : Option PortRegistry}

/-- The pruning tests the entries one after the other, and keeps those whose
    supervisor is active. -/
theorem wp_retainEntries {E : AppError → Unit → World → Prop} {reservation : Reservation}
    {entries : List PortRegistryEntry} (before : List PortRegistryEntry)
    (hentries : (file.getD .empty).entries = before ++ entries)
    (hlength : reservation.answers.length = before.length)
    (hcanonical : ∀ entry ∈ entries, canonicalRunId entry.runId = .ok entry.runId)
    (h : Own (runs n) n (some ⟨file, some reservation⟩) w) :
    Proc.wp (interface runs n) (RegistryProc.retainEntries entries)
      (fun retained _ w => ∃ answers, answers.length = entries.length ∧
        retained = retainActive (fun i _ => (reservation.answers ++ answers).getD i false)
          before.length entries ∧
        Own (runs n) n (some ⟨file, some { reservation with
          answers := reservation.answers ++ answers }⟩) w) E () w := by
  induction entries generalizing before reservation w with
  | nil =>
    refine Proc.wp_pure ⟨[], rfl, rfl, ?_⟩
    rw [List.append_nil]
    exact h
  | cons entry rest ih =>
    have ⟨hentry, hrest⟩ := List.forall_mem_cons.mp hcanonical
    have htested : ((file.getD .empty).entries[reservation.answers.length]?).map (·.runId) =
        some entry.runId := by
      rw [hentries, hlength, List.getElem?_append_right (Nat.le_refl _), Nat.sub_self]
      rfl
    simp only [RegistryProc.retainEntries, RegistryProc.runSupervisorActive, hentry]
    refine Proc.wp_seq _ (wp_supervisorActive htested h) fun active _ w h => ?_
    have hnext : (file.getD .empty).entries = (before ++ [entry]) ++ rest := by
      rw [hentries, List.append_assoc]
      rfl
    refine Proc.wp_seq _ (ih (before ++ [entry]) hnext ?_ hrest h) ?_
    · simp only [List.length_append, hlength, List.length_singleton]
    rintro retained _ w ⟨answers, hanswers, rfl, h⟩
    have happend : reservation.answers ++ [active] ++ answers =
        reservation.answers ++ active :: answers := by rw [List.append_assoc, List.singleton_append]
    refine Proc.wp_pure ⟨active :: answers, ?_, ?_, happend ▸ h⟩
    · rw [List.length_cons, List.length_cons, hanswers]
    · have hactive : (reservation.answers ++ active :: answers).getD before.length false =
          active := by
        rw [← hlength, List.getD_append_right _ _ _ _ (Nat.le_refl _), Nat.sub_self]
        rfl
      simp only [retainActive, hactive, happend, List.length_append, List.length_singleton]

theorem wp_allocatePort {unavailable : List Nat} {attempts : Nat} (ports : List Nat)
    (h : Own (runs n) n (some inside) w) :
    Proc.wp (interface runs n) (RegistryProc.allocatePort unavailable attempts)
      (fun port _ w => Own (runs n) n (some inside) w ∧ ∃ ports', ∀ offers clocks,
        Offered offers (ports ++ ports') clocks →
        Procherd.allocatePort offers unavailable attempts ports.length =
          .ok (port, (ports ++ ports').length))
      (fun _ _ => Own (runs n) n (some inside)) () w := by
  induction attempts generalizing ports w with
  | zero => exact Proc.wp_throw h
  | succ attempts ih =>
    refine Proc.wp_seq _ (wp_attempt_quiet rfl h) fun port _ w h => ?_
    have hbind (ports' : List Nat) (offers : PortOffers) (clocks : List Nat)
        (hoffered : Offered offers (ports ++ port :: ports') clocks) :
        offers.bind ports.length = .ok port := by
      apply hoffered.1
      rw [List.getElem?_append_right (Nat.le_refl _), Nat.sub_self]
      rfl
    split
    · rename_i hused
      refine Proc.wp_mono (ih (ports ++ [port]) h) ?_ fun _ _ _ h => h
      rintro found _ w ⟨h, ports', hports⟩
      refine ⟨h, port :: ports', fun offers clocks hoffered => ?_⟩
      have happend : ports ++ port :: ports' = ports ++ [port] ++ ports' := by
        rw [List.append_assoc, List.singleton_append]
      simp only [Procherd.allocatePort, hbind ports' offers clocks hoffered, hused, if_true]
      rw [happend] at hoffered ⊢
      have hrest := hports offers clocks hoffered
      rw [List.length_append, List.length_singleton] at hrest
      exact hrest
    · rename_i hfree
      refine Proc.wp_pure ⟨h, [port], fun offers clocks hoffered => ?_⟩
      simp only [Procherd.allocatePort, hbind [] offers clocks hoffered, hfree, if_false,
        List.length_append, List.length_singleton]

theorem wp_reserveNames {names : List String} {unavailable : List Nat}
    {entries : List PortRegistryEntry} {reserved : List ReservedPort} {runId : String}
    (ports clocks : List Nat)
    (h : Own (runs n) n (some inside) w) :
    Proc.wp (interface runs n) (RegistryProc.reserveNames runId names unavailable entries reserved)
      (fun result _ w => Own (runs n) n (some inside) w ∧ ∃ ports' clocks', ∀ offers,
        Offered offers (ports ++ ports') (clocks ++ clocks') →
        Procherd.reserveNames offers runId names unavailable ports.length clocks.length entries
          reserved = .ok result)
      (fun _ _ => Own (runs n) n (some inside)) () w := by
  induction names generalizing unavailable ports clocks entries reserved w with
  | nil => exact Proc.wp_pure ⟨h, [], [], fun _ _ => rfl⟩
  | cons name rest ih =>
    refine Proc.wp_seq _ (wp_allocatePort ports h) ?_
    rintro port _ w ⟨h, ports', hallocate⟩
    refine Proc.wp_seq _ (wp_call_quiet (c := .now) rfl h) fun clock _ w h => ?_
    refine Proc.wp_mono (ih (ports ++ ports') (clocks ++ [clock]) h) ?_
      fun _ _ _ h => h
    rintro result _ w ⟨h, ports'', clocks', hrest⟩
    refine ⟨h, ports' ++ ports'', clock :: clocks', fun offers hoffered => ?_⟩
    rw [← List.append_assoc, List.append_cons] at hoffered
    have hclock : offers.clock clocks.length = clock := by
      apply hoffered.2
      rw [List.append_assoc, List.getElem?_append_right (Nat.le_refl _), Nat.sub_self]
      rfl
    have hfirst := hallocate offers _ hoffered.of_append
    have hresult := hrest offers hoffered
    have hlength : (clocks ++ [clock]).length = clocks.length + 1 := List.length_append
    rw [hlength] at hresult
    simp only [Procherd.reserveNames, hfirst, hclock]
    exact hresult

/-- What a transaction may write into the file that it has read. -/
def Computed (runId : String) (inside : Inside) (reserved : List ReservedPort)
    (registry : PortRegistry) : Prop :=
  match inside.reservation with
  | some reservation => (inside.file.getD .empty).entries.length ≤ reservation.answers.length ∧
      ∃ offers, Procherd.updateRegistry inside.file (Procherd.reservePorts reservation.active offers
        reservation.runId reservation.names) = .ok (reserved, registry)
  | none => Procherd.updateRegistry inside.file (releaseEntries runId) = .ok ((), registry)

theorem wp_reserveUpdate {names : List String}
    (hschema : (file.getD .empty).schemaVersion = REGISTRY_SCHEMA)
    (hvalid : validateRegistry (file.getD .empty) = .ok ())
    (h : Own (runs n) n (some ⟨file, some { runId := runs n, names }⟩) w) :
    Proc.wp (interface runs n) (RegistryProc.reserveUpdate (runs n) names (file.getD .empty))
      (fun result _ w => ∃ inside, Computed (runs n) inside result.1 result.2 ∧
        Own (runs n) n (some inside) w)
      (fun _ _ w => ∃ inside, Own (runs n) n (some inside) w) () w := by
  refine Proc.wp_seq (fun registry _ w => ∃ answers,
    (file.getD .empty).entries.length ≤ answers.length ∧
    registry = Procherd.pruneStale (fun i _ => answers.getD i false) (file.getD .empty) ∧
    Own (runs n) n (some ⟨file, some { runId := runs n, names, answers }⟩) w) ?_ ?_
  · refine Proc.wp_seq _ (wp_retainEntries [] rfl rfl
      (canonical_of_validateRegistry hvalid) h) ?_
    rintro _ _ w ⟨answers, hanswers, rfl, h⟩
    exact Proc.wp_pure ⟨answers, Nat.le_of_eq hanswers.symm, rfl, h⟩
  rintro registry _ w ⟨answers, hcomplete, rfl, h⟩
  refine Proc.wp_seq _ (Proc.wp_mono (wp_reserveNames [] [] h)
    (fun _ _ _ h => h) fun _ _ _ h => ⟨_, h⟩) ?_
  rintro ⟨reserved, entries⟩ _ w ⟨h, ports, clocks, hreserve⟩
  refine Proc.wp_pure ⟨⟨file, some { runId := runs n, names, answers }⟩,
    ⟨hcomplete, offered ports clocks, ?_⟩, h⟩
  let pruned := Procherd.pruneStale (fun i _ => answers.getD i false) (file.getD .empty)
  have hnames : Procherd.reserveNames (offered ports clocks) (runs n) names
      (pruned.entries.map (·.port)) 0 0 pruned.entries [] = .ok (reserved, entries) :=
    hreserve (offered ports clocks) (offered_offered ports clocks)
  rw [updateRegistry_of_valid hschema hvalid]
  change (Procherd.reserveNames _ _ _ (pruned.entries.map (·.port)) 0 0 pruned.entries []).bind _ = _
  rw [hnames]
  rfl

theorem wp_releaseUpdate (hschema : (file.getD .empty).schemaVersion = REGISTRY_SCHEMA)
    (hvalid : validateRegistry (file.getD .empty) = .ok ())
    (h : Own (runs n) n (some ⟨file, none⟩) w) :
    Proc.wp (interface runs n) (RegistryProc.releaseUpdate (runs n) (file.getD .empty))
      (fun result _ w => ∃ inside, Computed (runs n) inside result.1 result.2 ∧
        Own (runs n) n (some inside) w)
      (fun _ _ w => ∃ inside, Own (runs n) n (some inside) w) () w :=
  Proc.wp_pure ⟨⟨file, none⟩, updateRegistry_of_valid hschema hvalid, h⟩

theorem wp_loadRegistry (h : Own (runs n) n (some inside) w) :
    Proc.wp (interface runs n) RegistryProc.loadRegistry
      (fun registry _ w => registry = inside.file.getD .empty ∧ Own (runs n) n (some inside) w)
      (fun _ _ => Own (runs n) n (some inside)) () w := by
  refine Proc.wp_seq _ (wp_pathExists h) ?_
  rintro found _ w ⟨rfl, h⟩
  cases hfile : inside.file with
  | none => exact Proc.wp_pure ⟨rfl, h⟩
  | some registry =>
    refine Proc.wp_mono (wp_readJson h) ?_ fun _ _ _ h => h
    rintro read _ w ⟨hread, h⟩
    cases hfile.symm.trans hread
    exact ⟨rfl, h⟩

/-- However a transaction ends, it leaves no lock behind. -/
theorem wp_updateRegistry {purpose : Purpose}
    {update : PortRegistry → RegistryProc (List ReservedPort × PortRegistry)}
    (hupdate : ∀ file w, (file.getD .empty).schemaVersion = REGISTRY_SCHEMA →
      validateRegistry (file.getD .empty) = .ok () →
      Own (runs n) n (some ⟨file, purpose.reservation (runs n)⟩) w →
      Proc.wp (interface runs n) (update (file.getD .empty))
        (fun result _ w => ∃ inside, Computed (runs n) inside result.1 result.2 ∧
          Own (runs n) n (some inside) w)
        (fun _ _ w => ∃ inside, Own (runs n) n (some inside) w) () w)
    (h : Own (runs n) n none w) :
    Proc.wp (interface runs n) (RegistryProc.updateRegistry purpose update)
      (fun _ _ => Own (runs n) n none) (fun _ _ => Own (runs n) n none) () w := by
  refine Proc.wp_seq _ (wp_attempt_quiet rfl h) fun _ _ w h => Proc.wp_ensuring ?_
  suffices hlocked : Proc.wp (interface runs n) (RegistryProc.lockedUpdate purpose update)
      (fun _ _ w => ∃ inside, Own (runs n) n inside w)
      (fun _ _ w => ∃ inside, Own (runs n) n inside w) () w by
    refine Proc.wp_mono hlocked ?_ ?_
    · rintro _ _ w ⟨inside, h⟩
      exact wp_closeLock h
    · rintro _ _ w ⟨inside, h⟩
      exact wp_closeLock h
  refine Proc.wp_seq (fun _ _ w => ∃ file,
    Own (runs n) n (some ⟨file, purpose.reservation (runs n)⟩) w) ?_ ?_
  · refine Proc.wp_mono (wp_lock purpose h) (fun _ _ w h => ?_) fun _ _ w h => ⟨none, h⟩
    cases purpose <;> exact h
  rintro _ _ w ⟨file, h⟩
  refine Proc.wp_seq _ (Proc.wp_mono (wp_loadRegistry h) (fun _ _ _ h => h)
    fun _ _ _ h => ⟨_, h⟩) ?_
  rintro _ _ w ⟨rfl, h⟩
  split
  · refine Proc.wp_seq _ (wp_unlock h) fun _ _ w h => Proc.wp_throw ⟨none, h⟩
  rename_i hschema
  refine Proc.wp_seq _ (Proc.wp_ofExcept (Q := fun _ _ w => validateRegistry (file.getD .empty) =
    .ok () ∧ Own (runs n) n (some ⟨file, purpose.reservation (runs n)⟩) w)
    (fun _ hvalid => ⟨hvalid, h⟩) fun _ _ => ⟨_, h⟩) ?_
  rintro _ _ w ⟨hvalid, h⟩
  refine Proc.wp_seq (fun _ _ w => ∃ inside, Own (runs n) n (some inside) w) (Proc.wp_outcome ?_) ?_
  · refine Proc.wp_seq _ (hupdate file w (Decidable.not_not.mp hschema) hvalid h) ?_
    rintro ⟨reserved, registry⟩ _ w ⟨inside, hcomputed, h⟩
    exact Proc.wp_seq _ (wp_writeJson hcomputed h) fun _ _ w h => Proc.wp_pure h
  · rintro result _ w ⟨inside, h⟩
    exact Proc.wp_seq _ (wp_unlock h) fun _ _ w h =>
      Proc.wp_ofExcept (fun _ _ => ⟨none, h⟩) fun _ _ => ⟨none, h⟩

theorem wp_serve (user : User) (h : Own (runs n) n none w) :
    Proc.wp (interface runs n) (user.serve (runs n)) (fun _ _ => Own (runs n) n none)
      (fun _ _ => Own (runs n) n none) () w := by
  induction user generalizing w with
  | done => exact Proc.wp_pure h
  | reserve names next ih =>
    refine Proc.wp_seq _ (Proc.wp_outcome (Q := fun _ _ => Own (runs n) n none) ?_)
      fun result _ w h => ih result h
    unfold RegistryProc.reservePorts
    split
    · exact Proc.wp_pure h
    · exact wp_updateRegistry (fun _ _ hschema hvalid h => wp_reserveUpdate hschema hvalid h) h
  | release next ih =>
    refine Proc.wp_seq _ (Proc.wp_outcome (Q := fun _ _ => Own (runs n) n none) ?_)
      fun result _ w h => ih result h
    exact wp_updateRegistry (fun _ _ hschema hvalid h => wp_releaseUpdate hschema hvalid h) h

theorem wp_supervise (user : User) (h : Absent (runs n) n w) :
    Proc.wp (interface runs n) (user.supervise (runs n)) (fun _ _ => Absent (runs n) n)
      (fun _ _ => Absent (runs n) n) () w := by
  refine Proc.wp_seq _ (wp_lockSupervisor h) fun _ _ w h => Proc.wp_ensuring ?_
  exact Proc.wp_mono (wp_serve user h) (fun _ _ w h => wp_closeSupervisorLock h)
    fun _ _ w h => wp_closeSupervisorLock h

end Transactions

/-! ## Runs -/

section Runs

variable [Toolchain] {m : Nat}

omit [Toolchain] in
theorem rely_refl : Rely (runs n) n w w := .inr ⟨rfl, .rfl, .rfl, fun _ => rfl, fun _ => rfl⟩

omit [Toolchain] in
/-- A step of a process that holds the lock of the registry, or takes it. -/
theorem rely_of_lock (hne : m ≠ n) (hkilled : w'.killed = w.killed)
    (hsupervisor : w'.supervisor = w.supervisor) (hlock : w.lock = none ∨ w.lock = some m)
    (hlock' : w'.lock = none ∨ w'.lock = some m) : Rely (runs n) n w w' := by
  have hother : w.lock ≠ some n := by
    rintro heq
    obtain h | h := hlock <;> cases h.symm.trans heq
    exact hne rfl
  have hother' : w'.lock ≠ some n := by
    rintro heq
    obtain h | h := hlock' <;> cases h.symm.trans heq
    exact hne rfl
  refine .inr ⟨congrFun hkilled n, by rw [hsupervisor], ⟨fun h => ?_, fun h => ?_⟩, ?_, ?_⟩
  · exact absurd h hother'
  · exact absurd h hother
  · exact fun h => absurd h hother
  · exact fun h => absurd h hother

omit [Toolchain] in
/-- A step that is about the lock of a run, which another process gets or gives up. -/
theorem rely_of_supervisor {holder : Option Nat}
    (hold : w.supervisor (runs m) ≠ some n) (hholder : holder ≠ some n)
    {leases : String → List ReservedPort} :
    Rely (runs n) n w { w with
      supervisor := Function.update w.supervisor (runs m) holder, leases } := by
  refine .inr ⟨rfl, ?_, .rfl, fun _ => rfl, fun _ => rfl⟩
  by_cases hrun : runs n = runs m
  · rw [hrun]
    refine ⟨fun h => ?_, fun h => absurd h hold⟩
    exact absurd ((Function.update_self (runs m) holder w.supervisor).symm.trans h) hholder
  · have hsame : Function.update w.supervisor (runs m) holder (runs n) = w.supervisor (runs n) :=
      Function.update_of_ne hrun _ _
    exact ⟨fun h => hsame.symm.trans h, fun h => hsame.trans h⟩

omit [Toolchain] in
theorem rely_unlock (hne : m ≠ n) : Rely (runs n) n w (w.unlock m) := by
  unfold World.unlock
  split
  · exact rely_of_lock hne rfl rfl (.inr ‹_›) (.inl rfl)
  · exact rely_refl

omit [Toolchain] in
theorem rely_unlockSupervisor (hne : m ≠ n) : Rely (runs n) n w (w.unlockSupervisor (runs m) m) := by
  unfold World.unlockSupervisor
  split
  · rename_i hheld
    refine rely_of_supervisor (fun heq => ?_) fun h => by cases h
    cases hheld.symm.trans heq
    exact hne rfl
  · exact rely_refl

/-- The calls of other processes leave a process alone. -/
theorem rely_of_exec {β : Type} {c : Cmd β} {a : Answer} {b : β} (hne : m ≠ n)
    (hallowed : Allowed (runs m) m w c) (hexec : exec (runs m) m c a w = some (b, w')) :
    Rely (runs n) n w w' := by
  obtain ⟨-, hlive⟩ := exec_alive hexec
  have hwrite (registry : PortRegistry) (reserved : List ReservedPort) (reported : Bool)
      (hlock : w.lock = some m) :
      Rely (runs n) n w (w.write (runs m) registry reserved reported) := by
    unfold World.write
    split
    · exact rely_of_lock hne rfl rfl (.inr hlock) (.inr hlock)
    · exact rely_of_lock hne rfl rfl (.inr hlock) (.inr hlock)
  cases c with
  | lockSupervisor =>
    obtain ⟨e, rfl, rfl⟩ | hlive := fallible_cases hlive
    · exact rely_refl
    · split at hlive <;> cases hlive
      rename_i hfree
      refine rely_of_supervisor (fun heq => ?_) fun heq => hne (Option.some.inj heq)
      rw [heq] at hfree
      exact hfree rfl
  | lock purpose =>
    obtain ⟨e, rfl, rfl⟩ | hlive := fallible_cases hlive
    · exact rely_refl
    · split at hlive <;> cases hlive
      rename_i hfree
      exact rely_of_lock hne rfl rfl (.inl (Option.not_isSome_iff_eq_none.mp hfree)) (.inr rfl)
  | supervisorActive tested =>
    cases hlive
    exact rely_of_lock hne rfl rfl (.inr hallowed.1) (.inr hallowed.1)
  | writeJson registry reserved =>
    simp only [execLive] at hlive
    split at hlive
    · cases hlive
      split
      · exact hwrite registry reserved false hallowed.1
      · exact rely_refl
    · cases hlive
      exact hwrite registry reserved true hallowed.1
  | unlock =>
    obtain ⟨e, rfl, rfl⟩ | hlive := fallible_cases hlive
    · exact rely_refl
    · cases hlive
      exact rely_unlock hne
  | closeLock =>
    cases hlive
    exact rely_unlock hne
  | closeSupervisorLock =>
    cases hlive
    exact rely_unlockSupervisor hne
  | openLock | pathExists | readJson | bind | now =>
    rw [exec_quiet rfl hlive]
    exact rely_refl

omit [Toolchain] in
theorem rely_of_kills (h : kills runs w w') : Rely (runs n) n w w' := by
  obtain ⟨m, rfl⟩ := h
  by_cases hne : m = n
  · subst hne
    exact .inl (Function.update_self ..)
  · refine (rely_unlock hne).trans ((rely_unlockSupervisor hne).trans (.inr ?_))
    exact ⟨Function.update_of_ne (Ne.symm hne) _ _, .rfl, .rfl, fun _ => rfl, fun _ => rfl⟩

section Reached

variable {users : Nat → User} {file : Option PortRegistry} {ms : List (system runs).Move}
  {cfg : (system runs).Config}
  (h : Machine.TamperedRun (M := system runs) (truthful runs) (kills runs)
    (initial runs users file) ms cfg)

omit h in
theorem initial_wp (n : Nat) : ((initial runs users file).thread n).wp (interface runs n)
    (fun _ => Absent (runs n) n) (initial runs users file).world := by
  have habsent : Absent (runs n) n { file } := fun _ => ⟨(fun h => by cases h), fun h => by cases h⟩
  refine Prog.wp_mono ?_ (wp_supervise (users n) habsent)
  rintro ⟨e | u, s⟩ w h <;> exact h

include h

/-- Every step of a run is allowed. -/
theorem allowed_of_run : Machine.TamperedRun (M := system runs)
    (Machine.guaranteed (truthful runs) (fun _ => id) (interface runs)) (kills runs)
    (initial runs users file) ms cfg :=
  h.cooperate (M := system runs) (V := fun _ => id) (L := interface runs)
    (fun _ _ _ a _ _ _ hok he => ⟨a, hok, he⟩)
    (fun _ _ hne _ _ _ _ _ _ _ he hallowed => rely_of_exec hne hallowed he)
    (fun _ _ _ _ hrely habsent => habsent.rely hrely) (fun _ _ _ hkills => rely_of_kills hkills)
    initial_wp

theorem orderly_of_run :
    Orderly runs cfg.world ∧ Refines ({ registry := file } : Root) cfg.world.root := by
  refine (allowed_of_run h).invariant (M := system runs) (J := fun w => Orderly runs w ∧
    Refines ({ registry := file } : Root) w.root) ?_ ?_ ⟨.initial, .refl⟩
  · rintro n β c a w b w' ⟨htruthful, hallowed⟩ he ⟨horderly, hrefines⟩
    obtain ⟨horderly', hstep⟩ := step_refines horderly htruthful (hallowed b w' he) he
    exact ⟨horderly', hrefines.trans hstep⟩
  · rintro w _ ⟨n, rfl⟩ ⟨horderly, hrefines⟩
    obtain ⟨horderly', hstep⟩ := horderly.kill n
    exact ⟨horderly', hrefines.trans hstep⟩

end Reached

end Runs

end Registry

/-- However the supervisors' calls interleave, whatever fails but the test that the
    registry exists, and whoever is killed: what happens to the registry and to the
    ports of the runs is a sequence of whole transactions, and so no two running
    supervisors have the same port. -/
theorem registry_refines [Toolchain] {runs : Nat → String} {users : Nat → Registry.User}
    {file : Option PortRegistry} {ms : List (Registry.system runs).Move}
    {cfg : (Registry.system runs).Config}
    (h : Machine.TamperedRun (M := Registry.system runs) (Registry.truthful runs)
      (Registry.kills runs) (Registry.initial runs users file) ms cfg) :
    (∃ events, ({ registry := file } : Root).run events = some cfg.world.root) ∧
    ((file.getD .empty).entries = [] → cfg.world.root.Exclusive) := by
  obtain ⟨events, hrun⟩ := (Registry.orderly_of_run h).2
  refine ⟨⟨events, hrun⟩, fun hentries => ?_⟩
  have hinit : Root.Reach ({ registry := file } : Root) := .init ⟨hentries, fun _ => rfl, rfl⟩
  exact (hinit.run hrun).registered.exclusive

end Procherd

namespace Procherd.Reference

open Interaction Registry

def registryRuns (n : Nat) : String := if n = 0 then options.runId else otherRunId

/-- Two supervisors reserve a port each. -/
def registryUsers (n : Nat) : User := if n < 2 then .reserve ["http"] fun _ => .done else .done

/-- Nothing fails, and a process counts as active whether it is or not. -/
def unfailing (_ : (Registry.system registryRuns).Config)
    (m : (Registry.system registryRuns).Move) : Bool := m.2.fault.isNone && m.2.active

theorem truthful_of_unfailing (cfg : (Registry.system registryRuns).Config)
    (m : (Registry.system registryRuns).Move) (h : unfailing cfg m) :
    Machine.Meets (M := Registry.system registryRuns) (truthful registryRuns) cfg m := by
  obtain ⟨hfault, hactive⟩ := Bool.and_eq_true_iff.mp h
  intro β c k _
  cases c with
  | pathExists => exact Option.isNone_iff_eq_none.mp hfault
  | supervisorActive => exact fun _ => hactive
  | _ => trivial

def registryMoves (n : Nat) (ports : List Nat) : List (Registry.system registryRuns).Move :=
  ports.map fun port => (n, { port, active := true })

/-- The first supervisor is killed between its write and its unlock. -/
def killedInside : Option (Registry.system registryRuns).Config :=
  (Machine.runChecked unfailing (Registry.initial registryRuns registryUsers none)
    (registryMoves 0 [0, 0, 0, 0, 8080, 0, 0])).map fun cfg =>
      { cfg with world := cfg.world.kill (registryRuns 0) 0 }

/-- The other one finds the entry, is offered its port, and takes the next. -/
def takenAfter : Option (Registry.system registryRuns).Config :=
  killedInside.bind fun cfg => Machine.runChecked unfailing cfg
    (registryMoves 1 [0, 0, 0, 0, 0, 0, 8080, 8081, 0, 0])

theorem run_killedInside {cfg : (Registry.system registryRuns).Config} (h : killedInside = some cfg) :
    ∃ ms, Machine.TamperedRun (M := Registry.system registryRuns) (truthful registryRuns)
      (kills registryRuns) (Registry.initial registryRuns registryUsers none) ms cfg := by
  obtain ⟨cfg₁, hrun, rfl⟩ := Option.map_eq_some_iff.mp h
  have hfirst : Machine.TamperedRun (M := Registry.system registryRuns) (truthful registryRuns)
      (kills registryRuns) (Registry.initial registryRuns registryUsers none) _ cfg₁ :=
    .runChecked truthful_of_unfailing .init hrun
  exact ⟨_, hfirst.tamper ⟨0, rfl⟩⟩

theorem registry_refines_killed : ∃ cfg : (Registry.system registryRuns).Config,
    cfg.world.leases otherRunId = [⟨"http", 8081⟩] ∧
    (∃ events, Root.run {} events = some cfg.world.root) ∧ cfg.world.root.Exclusive := by
  have hrun : takenAfter.map (fun cfg => cfg.world.leases otherRunId) = some [⟨"http", 8081⟩] := by
    decide +kernel
  obtain ⟨cfg, hcfg, hleases⟩ := Option.map_eq_some_iff.mp hrun
  obtain ⟨cfg₁, hkilled, hrest⟩ := Option.bind_eq_some_iff.mp hcfg
  obtain ⟨ms, hreached⟩ := run_killedInside hkilled
  have hafter := hreached.runChecked (M := Registry.system registryRuns)
    truthful_of_unfailing hrest
  obtain ⟨hrefines, hexclusive⟩ := registry_refines hafter
  exact ⟨cfg, hleases, hrefines, hexclusive rfl⟩

end Procherd.Reference
