-- SUMMARY: No supervisor gets stuck at the registry: wherever the others stand, whatever failed and whoever was killed, each that lives can come to its end.
import Procherd.RegistryRefinement

/-!
# Progress at the registry

The locks of the registry and of a run are held by live processes only. The one
that holds the registry's lock is held up by nobody, and when it has ended, the
next supervisor of the run is not held up either. Nothing but the locks matters
for this: what the tests of the supervisors answer, or whether the registry is
found, does not.
-/

namespace Procherd

open Interaction

/-! ## Straightness

No part of a transaction repeats without a bound. -/

/-- The calls that take no lock, and do not give up that of a run. -/
def Registry.Cmd.inner {β : Type} : Registry.Cmd β → Bool
  | .lockSupervisor | .lock _ | .closeSupervisorLock => false
  | _ => true

namespace RegistryProc

variable [Toolchain] {P : ∀ {β : Type}, Registry.Cmd β → Prop}
  (hP : ∀ {β : Type} (c : Registry.Cmd β), c.inner → P c)

include hP

theorem retainEntries_straight (entries : List PortRegistryEntry) :
    Proc.Straight P (retainEntries entries) := by
  induction entries with
  | nil => exact .pure
  | cons entry rest ih =>
    refine .bind ?_ fun _ => .bind ih fun _ => .pure
    unfold runSupervisorActive
    split
    · exact .pure
    · exact .call (hP _ rfl)

omit [Toolchain] in
theorem allocatePort_straight (unavailable : List Nat) (attempts : Nat) :
    Proc.Straight P (allocatePort unavailable attempts) := by
  induction attempts with
  | zero => exact .throw
  | succ attempts ih =>
    refine .bind (.attempt (hP _ rfl)) fun port => ?_
    split
    · exact ih
    · exact .pure

omit [Toolchain] in
theorem reserveNames_straight (runId : String) (names : List String) (unavailable : List Nat)
    (entries : List PortRegistryEntry) (reserved : List ReservedPort) :
    Proc.Straight P (reserveNames runId names unavailable entries reserved) := by
  induction names generalizing unavailable entries reserved with
  | nil => exact .pure
  | cons name rest ih =>
    exact .bind (allocatePort_straight hP _ _) fun _ => .bind (.call (hP _ rfl)) fun _ => ih _ _ _

theorem reserveUpdate_straight (runId : String) (names : List String) (registry : PortRegistry) :
    Proc.Straight P (reserveUpdate runId names registry) := by
  refine .bind (.bind (retainEntries_straight hP _) fun _ => .pure) fun _ => ?_
  exact .bind (reserveNames_straight hP _ _ _ _ _) fun _ => .pure

/-- What a transaction does once it has the lock. -/
theorem lockedUpdate_eq (purpose : Registry.Purpose)
    {update : PortRegistry → RegistryProc (List ReservedPort × PortRegistry)}
    (hupdate : ∀ registry, Proc.Straight P (update registry)) :
    ∃ rest, lockedUpdate purpose update = (Proc.attempt (.lock purpose) >>= fun _ => rest) ∧
      Proc.Straight P rest := by
  refine ⟨_, rfl, .bind (.bind (.call (hP _ rfl)) fun found => ?_) fun registry => ?_⟩
  · split
    · exact .attempt (hP _ rfl)
    · exact .pure
  · split
    · exact .bind (.attempt (hP _ rfl)) fun _ => .throw
    refine .bind .ofExcept fun _ => .bind (.outcome ?_) fun _ => ?_
    · exact .bind (hupdate _) fun _ => .bind (.attempt (hP _ rfl)) fun _ => .pure
    · exact .bind (.attempt (hP _ rfl)) fun _ => .ofExcept

theorem updateRegistry_straight (purpose : Registry.Purpose) (hlock : P (.lock purpose))
    {update : PortRegistry → RegistryProc (List ReservedPort × PortRegistry)}
    (hupdate : ∀ registry, Proc.Straight P (update registry)) :
    Proc.Straight P (updateRegistry purpose update) := by
  obtain ⟨rest, hrest, hstraight⟩ := lockedUpdate_eq hP purpose hupdate
  refine .bind (.attempt (hP _ rfl)) fun _ => .ensuring ?_ (.call (hP _ rfl))
  rw [hrest]
  exact .bind (.attempt hlock) fun _ => hstraight

end RegistryProc

namespace Registry

variable {runs : Nat → String} {runId : String} {m n : Nat} {w w' : World}

section Straight

variable [Toolchain] {P : ∀ {β : Type}, Cmd β → Prop} (hP : ∀ {β : Type} (c : Cmd β), P c)

include hP

theorem User.serve_straight (runId : String) (user : User) :
    Proc.Straight P (user.serve runId) := by
  induction user with
  | done => exact .pure
  | reserve names next ih =>
    refine .bind (.outcome ?_) fun result => ih result
    unfold RegistryProc.reservePorts
    split
    · exact .pure
    · exact RegistryProc.updateRegistry_straight (fun c _ => hP c) _ (hP _)
        fun _ => RegistryProc.reserveUpdate_straight (fun c _ => hP c) _ _ _
  | release next ih =>
    refine .bind (.outcome ?_) fun result => ih result
    exact RegistryProc.updateRegistry_straight (fun c _ => hP c) _ (hP _) fun _ => .pure

theorem User.supervise_straight (runId : String) (user : User) :
    Proc.Straight P (user.supervise runId) :=
  .bind (.attempt (hP _)) fun _ => .ensuring (user.serve_straight hP runId) (.call (hP _))

end Straight

/-! ## What the calls do to the locks -/

/-- When a process may take a lock, or give up that of its run. -/
def MayLock (runId : String) (n : Nat) (w : World) : {β : Type} → Cmd β → Prop
  | _, .lockSupervisor => w.supervisor runId ≠ some n
  | _, .lock _ => w.supervisor runId = some n ∧ w.lock ≠ some n
  | _, .closeSupervisorLock => w.lock ≠ some n
  | _, _ => True

theorem mayLock_inner {β : Type} {c : Cmd β} (hc : c.inner) : MayLock runId n w c := by
  cases c <;> trivial

/-- What a call of process `m` does to the locks. -/
inductive LockStep (runId : String) (m : Nat) (w w' : World) : Prop where
  | same (hsupervisor : w'.supervisor = w.supervisor) (hlock : w'.lock = w.lock)
  | begun (halive : w.killed m = false) (hfree : w.supervisor runId = none)
      (hsupervisor : w'.supervisor = Function.update w.supervisor runId (some m))
      (hlock : w'.lock = w.lock)
  | locked (hheld : w.supervisor runId = some m) (hfree : w.lock = none)
      (hsupervisor : w'.supervisor = w.supervisor) (hlock : w'.lock = some m)
  | unlocked (hheld : w.lock = some m) (hsupervisor : w'.supervisor = w.supervisor)
      (hlock : w'.lock = none)
  | ended (hheld : w.supervisor runId = some m) (houtside : w.lock ≠ some m)
      (hsupervisor : w'.supervisor = Function.update w.supervisor runId none)
      (hlock : w'.lock = w.lock)

theorem lockStep_unlock : LockStep runId m w (w.unlock m) := by
  unfold World.unlock
  split
  · exact .unlocked ‹_› rfl rfl
  · exact .same rfl rfl

theorem lockStep_unlockSupervisor (houtside : w.lock ≠ some m) :
    LockStep runId m w (w.unlockSupervisor runId m) := by
  unfold World.unlockSupervisor
  split
  · exact .ended ‹_› houtside rfl rfl
  · exact .same rfl rfl

theorem write_locks (registry : PortRegistry) (reserved : List ReservedPort) (reported : Bool) :
    (w.write runId registry reserved reported).supervisor = w.supervisor ∧
      (w.write runId registry reserved reported).lock = w.lock ∧
      (w.write runId registry reserved reported).killed = w.killed := by
  unfold World.write
  split <;> exact ⟨rfl, rfl, rfl⟩

section Exec

variable {β : Type} {c : Cmd β} {a : Answer} {b : β}

/-- A call in a transaction gives up the lock of the registry, if any. -/
theorem exec_inner (hc : c.inner) (h : exec runId m c a w = some (b, w')) :
    w'.supervisor = w.supervisor ∧ (w'.lock = w.lock ∨ w.lock = some m ∧ w'.lock = none) := by
  obtain ⟨-, h⟩ := exec_alive h
  have hunlock : (w.unlock m).supervisor = w.supervisor ∧
      ((w.unlock m).lock = w.lock ∨ w.lock = some m ∧ (w.unlock m).lock = none) := by
    unfold World.unlock
    split
    · exact ⟨rfl, .inr ⟨‹_›, rfl⟩⟩
    · exact ⟨rfl, .inl rfl⟩
  have hwrite (registry : PortRegistry) (reserved : List ReservedPort) (reported : Bool) :
      (w.write runId registry reserved reported).supervisor = w.supervisor ∧
      ((w.write runId registry reserved reported).lock = w.lock ∨ w.lock = some m ∧
        (w.write runId registry reserved reported).lock = none) :=
    ⟨(write_locks ..).1, .inl (write_locks ..).2.1⟩
  cases c with
  | lockSupervisor | lock purpose | closeSupervisorLock => cases hc
  | unlock =>
    obtain ⟨-, -, rfl⟩ | h := fallible_cases h
    · exact ⟨rfl, .inl rfl⟩
    · cases h
      exact hunlock
  | closeLock =>
    cases h
    exact hunlock
  | writeJson registry reserved =>
    simp only [execLive] at h
    split at h
    · cases h
      split
      · exact hwrite ..
      · exact ⟨rfl, .inl rfl⟩
    · cases h
      exact hwrite ..
  | supervisorActive tested =>
    cases h
    exact ⟨rfl, .inl rfl⟩
  | openLock | pathExists | readJson | bind | now =>
    rw [exec_quiet rfl h]
    exact ⟨rfl, .inl rfl⟩

theorem exec_locks (hmay : MayLock runId m w c) (h : exec runId m c a w = some (b, w')) :
    LockStep runId m w w' := by
  cases hc : c.inner with
  | true =>
    obtain ⟨hsupervisor, hlock | ⟨hheld, hlock⟩⟩ := exec_inner hc h
    · exact .same hsupervisor hlock
    · exact .unlocked hheld hsupervisor hlock
  | false =>
    obtain ⟨halive, h⟩ := exec_alive h
    cases c with
    | lockSupervisor =>
      obtain ⟨-, -, rfl⟩ | h := fallible_cases h
      · exact .same rfl rfl
      · split at h <;> cases h
        exact .begun halive (Option.not_isSome_iff_eq_none.mp ‹_›) rfl rfl
    | lock purpose =>
      obtain ⟨-, -, rfl⟩ | h := fallible_cases h
      · exact .same rfl rfl
      · split at h <;> cases h
        exact .locked hmay.1 (Option.not_isSome_iff_eq_none.mp ‹_›) rfl rfl
    | closeSupervisorLock =>
      cases h
      exact lockStep_unlockSupervisor hmay
    | _ => cases hc

theorem unlock_killed : (w.unlock m).killed = w.killed := by
  unfold World.unlock
  split <;> rfl

theorem unlockSupervisor_killed : (w.unlockSupervisor runId m).killed = w.killed := by
  unfold World.unlockSupervisor
  split <;> rfl

theorem exec_killed (h : exec runId m c a w = some (b, w')) : w'.killed = w.killed := by
  obtain ⟨-, h⟩ := exec_alive h
  cases c with
  | lockSupervisor | lock =>
    obtain ⟨-, -, rfl⟩ | h := fallible_cases h
    · rfl
    · split at h <;> cases h
      rfl
  | unlock =>
    obtain ⟨-, -, rfl⟩ | h := fallible_cases h
    · rfl
    · cases h
      exact unlock_killed
  | writeJson registry reserved =>
    simp only [execLive] at h
    split at h
    · cases h
      split
      · exact (write_locks ..).2.2
      · rfl
    · cases h
      exact (write_locks ..).2.2
  | closeLock =>
    cases h
    exact unlock_killed
  | closeSupervisorLock =>
    cases h
    exact unlockSupervisor_killed
  | supervisorActive =>
    cases h
    rfl
  | openLock | pathExists | readJson | bind | now => rw [exec_quiet rfl h]

end Exec

/-- The locks are held by live processes, and that of the registry by a
    supervisor. -/
structure Guarded (runs : Nat → String) (w : World) : Prop where
  supervisor : ∀ runId n, w.supervisor runId = some n → runs n = runId ∧ w.killed n = false
  lock : ∀ n, w.lock = some n → w.supervisor (runs n) = some n

namespace Guarded

theorem step (h : Guarded runs w) (hkilled : w'.killed = w.killed)
    (hs : LockStep (runs m) m w w') : Guarded runs w' := by
  have hsame (hsupervisor : w'.supervisor = w.supervisor) (runId : String) (n : Nat)
      (hn : w'.supervisor runId = some n) : runs n = runId ∧ w'.killed n = false := by
    rw [hkilled]
    exact h.supervisor runId n (hsupervisor ▸ hn)
  -- The lock of the run `runs m` changes, and no supervisor of it is in a transaction.
  have hupdate {holder : Option Nat}
      (hsupervisor : w'.supervisor = Function.update w.supervisor (runs m) holder)
      (hlock : w'.lock = w.lock) (hother : ∀ n, w.lock = some n → runs n ≠ runs m) (n : Nat)
      (hn : w'.lock = some n) : w'.supervisor (runs n) = some n := by
    rw [hlock] at hn
    rw [hsupervisor, Function.update_of_ne (hother n hn)]
    exact h.lock n hn
  cases hs with
  | same hsupervisor hlock =>
    exact ⟨hsame hsupervisor, by rw [hlock, hsupervisor]; exact h.lock⟩
  | locked hheld _ hsupervisor hlock =>
    refine ⟨hsame hsupervisor, fun n hn => ?_⟩
    cases hlock.symm.trans hn
    exact (congrFun hsupervisor _).trans hheld
  | unlocked _ hsupervisor hlock =>
    exact ⟨hsame hsupervisor, fun n hn => by cases hlock.symm.trans hn⟩
  | begun halive hfree hsupervisor hlock =>
    refine ⟨fun runId n hn => ?_, hupdate hsupervisor hlock fun n hn heq => ?_⟩
    · rw [hsupervisor] at hn
      rw [hkilled]
      by_cases hrun : runId = runs m
      · subst hrun
        cases (Function.update_self (runs m) (some m) w.supervisor).symm.trans hn
        exact ⟨rfl, halive⟩
      · exact h.supervisor runId n ((Function.update_of_ne hrun _ _).symm.trans hn)
    · have hheld := h.lock n hn
      rw [heq, hfree] at hheld
      cases hheld
  | ended hheld houtside hsupervisor hlock =>
    refine ⟨fun runId n hn => ?_, hupdate hsupervisor hlock fun n hn heq => ?_⟩
    · rw [hsupervisor] at hn
      rw [hkilled]
      by_cases hrun : runId = runs m
      · subst hrun
        cases (Function.update_self (runs m) none w.supervisor).symm.trans hn
      · exact h.supervisor runId n ((Function.update_of_ne hrun _ _).symm.trans hn)
    · have hsame := h.lock n hn
      rw [heq, hheld] at hsame
      cases hsame
      exact houtside hn

theorem unlock_lock : (w.unlock m).lock ≠ some m := by
  unfold World.unlock
  split
  · exact fun h => by cases h
  · assumption

/-- A process is killed in the middle of anything. -/
theorem kill (h : Guarded runs w) (n : Nat) : Guarded runs (w.kill (runs n) n) := by
  have hclosed : Guarded runs ((w.unlock n).unlockSupervisor (runs n) n) :=
    (h.step unlock_killed lockStep_unlock).step unlockSupervisor_killed
      (lockStep_unlockSupervisor unlock_lock)
  refine ⟨fun runId m hm => ?_, hclosed.lock⟩
  obtain ⟨hrun, halive⟩ := hclosed.supervisor runId m hm
  refine ⟨hrun, (Function.update_of_ne ?_ _ _).trans halive⟩
  -- The lock of its run is not held by the process any more.
  rintro rfl
  subst hrun
  have hm : ((w.unlock m).unlockSupervisor (runs m) m).supervisor (runs m) = some m := hm
  unfold World.unlockSupervisor at hm
  split at hm
  · cases (Function.update_self (runs m) none (w.unlock m).supervisor).symm.trans hm
  · exact absurd hm ‹_›

end Guarded

/-! ## What a process relies on -/

/-- What other processes leave alone of the locks of a process that lives. -/
structure KeepsLocks (runId : String) (n : Nat) (w w' : World) : Prop where
  killed : w'.killed n = w.killed n
  supervisor : w'.supervisor runId = some n ↔ w.supervisor runId = some n
  lock : w'.lock = some n ↔ w.lock = some n

def LockRely (runId : String) (n : Nat) (w w' : World) : Prop :=
  w'.killed n = true ∨ KeepsLocks runId n w w'

namespace LockRely

theorem refl : LockRely runId n w w := .inr ⟨rfl, .rfl, .rfl⟩

theorem trans {w₁ w₂ w₃ : World} (h : LockRely runId n w₁ w₂) (h' : LockRely runId n w₂ w₃) :
    LockRely runId n w₁ w₃ := by
  obtain hkilled | h' := h'
  · exact .inl hkilled
  obtain hkilled | h := h
  · exact .inl (h'.killed.trans hkilled)
  · exact .inr ⟨h'.killed.trans h.killed, h'.supervisor.trans h.supervisor, h'.lock.trans h.lock⟩

/-- The calls of another process. -/
theorem of_step (hne : m ≠ n) (hkilled : w'.killed = w.killed) (hs : LockStep (runs m) m w w') :
    LockRely (runs n) n w w' := by
  have hdiffer {holder : Option Nat} (h : holder = none ∨ holder = some m) : holder ≠ some n := by
    rintro rfl
    obtain h | h := h <;> cases h
    exact hne rfl
  -- The lock of the run `runs m` goes from one of these holders to another.
  have hupdate {old new : Option Nat} (hheld : w.supervisor (runs m) = old)
      (hsupervisor : w'.supervisor = Function.update w.supervisor (runs m) new)
      (hold : old = none ∨ old = some m) (hnew : new = none ∨ new = some m) :
      w'.supervisor (runs n) = some n ↔ w.supervisor (runs n) = some n := by
    rw [hsupervisor]
    by_cases hrun : runs n = runs m
    · rw [hrun, Function.update_self, hheld]
      exact ⟨fun h => absurd h (hdiffer hnew), fun h => absurd h (hdiffer hold)⟩
    · rw [Function.update_of_ne hrun]
  refine .inr ⟨congrFun hkilled n, ?_, ?_⟩
  · cases hs with
    | same hsupervisor _ | locked _ _ hsupervisor _ | unlocked _ hsupervisor _ => rw [hsupervisor]
    | begun _ hfree hsupervisor _ => exact hupdate hfree hsupervisor (.inl rfl) (.inr rfl)
    | ended hheld _ hsupervisor _ => exact hupdate hheld hsupervisor (.inr rfl) (.inl rfl)
  · cases hs with
    | same _ hlock | begun _ _ _ hlock | ended _ _ _ hlock => rw [hlock]
    | locked _ hfree _ hlock =>
      rw [hlock, hfree]
      exact ⟨fun h => absurd h (hdiffer (.inr rfl)), fun h => (by cases h)⟩
    | unlocked hheld _ hlock =>
      rw [hlock, hheld]
      exact ⟨fun h => (by cases h), fun h => absurd h (hdiffer (.inr rfl))⟩

theorem of_kills (h : kills runs w w') : LockRely (runs n) n w w' := by
  obtain ⟨m, rfl⟩ := h
  by_cases hne : m = n
  · subst hne
    exact .inl (Function.update_self ..)
  · have hclosed : LockRely (runs n) n w ((w.unlock m).unlockSupervisor (runs m) m) :=
      (of_step hne unlock_killed lockStep_unlock).trans
        (of_step hne unlockSupervisor_killed (lockStep_unlockSupervisor Guarded.unlock_lock))
    refine hclosed.trans (.inr ⟨Function.update_of_ne (Ne.symm hne) _ _, .rfl, .rfl⟩)

end LockRely

/-- A process among others, as far as the locks are concerned. -/
@[reducible] def locking (runs : Nat → String) (n : Nat) : Interface Cmd World where
  step c w b w' := ∃ a, exec (runs n) n c a w = some (b, w')
  rely := LockRely (runs n) n
  guar c w _ _ := MayLock (runs n) n w c
  rely_refl _ := .refl
  rely_trans := .trans

/-! ## The locks of a process -/

/-- The process supervises its run. -/
def Supervising (runId : String) (n : Nat) (w : World) : Prop :=
  w.killed n = false → w.supervisor runId = some n

/-- The process supervises its run, and is in no transaction. -/
def Outside (runId : String) (n : Nat) (w : World) : Prop :=
  w.killed n = false → w.supervisor runId = some n ∧ w.lock ≠ some n

/-- An assertion on the locks of a process that the other processes keep. -/
theorem assertion_rely {I : World → Prop}
    (hI : ∀ w w', KeepsLocks runId n w w' → I w → I w') (h : w.killed n = false → I w)
    (hrely : LockRely runId n w w') : w'.killed n = false → I w' := by
  intro halive
  obtain hkilled | hsame := hrely
  · exact absurd (hkilled.symm.trans halive) (by decide)
  · exact hI w w' hsame (h (hsame.killed.symm.trans halive))

theorem Supervising.rely (h : Supervising runId n w) (hrely : LockRely runId n w w') :
    Supervising runId n w' :=
  assertion_rely (I := fun w => w.supervisor runId = some n)
    (fun _ _ hsame => hsame.supervisor.mpr) h hrely

theorem Outside.rely (h : Outside runId n w) (hrely : LockRely runId n w w') :
    Outside runId n w' :=
  assertion_rely (I := fun w => w.supervisor runId = some n ∧ w.lock ≠ some n)
    (fun _ _ hsame h => ⟨hsame.supervisor.mpr h.1, fun hlock => h.2 (hsame.lock.mp hlock)⟩) h hrely

theorem absent_rely (h : Absent runId n w) (hrely : LockRely runId n w w') : Absent runId n w' :=
  assertion_rely (I := fun w => w.supervisor runId ≠ some n ∧ w.lock ≠ some n)
    (fun _ _ hsame h => ⟨fun hheld => h.1 (hsame.supervisor.mp hheld), fun hlock =>
      h.2 (hsame.lock.mp hlock)⟩) h hrely

section Programs

variable {E : AppError → Unit → World → Prop}

/-- The calls in a transaction keep the lock of the run. -/
theorem keeps_supervising : (locking runs n).Keeps Cmd.inner (Supervising (runs n) n) := by
  rintro β c hc w w₁ b w' h hrely ⟨a, hexec⟩
  refine ⟨mayLock_inner hc, fun _ => ?_⟩
  rw [(exec_inner hc hexec).1]
  exact h.rely hrely (exec_alive hexec).1

theorem keeps_outside : (locking runs n).Keeps Cmd.inner (Outside (runs n) n) := by
  rintro β c hc w w₁ b w' h hrely ⟨a, hexec⟩
  obtain ⟨hheld, houtside⟩ := h.rely hrely (exec_alive hexec).1
  obtain ⟨hsupervisor, hlock⟩ := exec_inner hc hexec
  refine ⟨mayLock_inner hc, fun _ => ⟨(congrFun hsupervisor _).trans hheld, ?_⟩⟩
  obtain hlock | ⟨-, hlock⟩ := hlock <;> rw [hlock]
  · exact houtside
  · exact fun h => by cases h

theorem locking_lockSupervisor (h : Absent (runs n) n w) :
    Proc.wp (locking runs n) (Proc.attempt .lockSupervisor) (fun _ _ => Outside (runs n) n)
      (fun _ _ => Absent (runs n) n) () w := by
  refine Proc.wp_attempt fun w₁ hrely r w' hs => ?_
  obtain ⟨a, hexec⟩ := hs
  obtain ⟨halive, hlive⟩ := exec_alive hexec
  have habsent := absent_rely h hrely
  refine ⟨(habsent halive).1, ?_⟩
  obtain ⟨e, rfl, rfl⟩ | hlive := fallible_cases hlive
  · exact habsent
  · split at hlive <;> cases hlive
    exact fun _ => ⟨Function.update_self .., (habsent halive).2⟩

theorem locking_lock (purpose : Purpose) (h : Outside (runs n) n w) :
    Proc.wp (locking runs n) (Proc.attempt (.lock purpose)) (fun _ _ => Supervising (runs n) n)
      (fun _ _ => Supervising (runs n) n) () w := by
  refine Proc.wp_attempt fun w₁ hrely r w' hs => ?_
  obtain ⟨a, hexec⟩ := hs
  obtain ⟨halive, hlive⟩ := exec_alive hexec
  have houtside := h.rely hrely halive
  refine ⟨houtside, ?_⟩
  obtain ⟨e, rfl, rfl⟩ | hlive := fallible_cases hlive
  · exact fun _ => houtside.1
  · split at hlive <;> cases hlive
    exact fun _ => houtside.1

theorem locking_closeLock (h : Supervising (runs n) n w) :
    Proc.wp (locking runs n) (Proc.call .closeLock) (fun _ _ => Outside (runs n) n) E () w := by
  refine Proc.wp_call fun w₁ hrely r w' hs => ?_
  obtain ⟨a, hexec⟩ := hs
  obtain ⟨hallowed, hheld⟩ := keeps_supervising (c := .closeLock) rfl h hrely ⟨a, hexec⟩
  obtain ⟨-, hlive⟩ := exec_alive hexec
  cases hlive
  exact ⟨hallowed, fun halive => ⟨hheld halive, Guarded.unlock_lock⟩⟩

theorem locking_closeSupervisorLock (h : Outside (runs n) n w) :
    Proc.wp (locking runs n) (Proc.call .closeSupervisorLock)
      (fun _ _ => Absent (runs n) n) E () w := by
  refine Proc.wp_call fun w₁ hrely r w' hs => ?_
  obtain ⟨a, hexec⟩ := hs
  obtain ⟨halive, hlive⟩ := exec_alive hexec
  obtain ⟨hheld, hlock⟩ := h.rely hrely halive
  cases hlive
  refine ⟨hlock, fun _ => ?_⟩
  unfold World.unlockSupervisor
  rw [if_pos hheld]
  refine ⟨fun heq => ?_, hlock⟩
  cases (Function.update_self (runs n) none w₁.supervisor).symm.trans heq

variable [Toolchain]

/-- However a transaction ends, it leaves no lock behind. -/
theorem locking_updateRegistry (purpose : Purpose)
    {update : PortRegistry → RegistryProc (List ReservedPort × PortRegistry)}
    (hupdate : ∀ registry, Proc.Straight (fun {_} c => Cmd.inner c = true) (update registry))
    (h : Outside (runs n) n w) :
    Proc.wp (locking runs n) (RegistryProc.updateRegistry purpose update)
      (fun _ _ => Outside (runs n) n) (fun _ _ => Outside (runs n) n) () w := by
  obtain ⟨rest, hrest, hstraight⟩ := RegistryProc.lockedUpdate_eq
    (P := fun {_} c => Cmd.inner c = true) (fun _ hc => hc) purpose hupdate
  refine Proc.wp_seq _ (Proc.wp_attempt_keeps keeps_outside rfl (fun _ _ h => h) h) ?_
  rintro _ _ w ⟨-, h⟩
  refine Proc.wp_ensuring ?_
  suffices hlocked : Proc.wp (locking runs n) (RegistryProc.lockedUpdate purpose update)
      (fun _ _ => Supervising (runs n) n) (fun _ _ => Supervising (runs n) n) () w from
    Proc.wp_mono hlocked (fun _ _ _ h => locking_closeLock h) fun _ _ _ h => locking_closeLock h
  rw [hrest]
  exact Proc.wp_seq _ (locking_lock purpose h) fun _ _ w h =>
    hstraight.wp_keeps keeps_supervising h

theorem locking_serve (user : User) (h : Outside (runs n) n w) :
    Proc.wp (locking runs n) (user.serve (runs n)) (fun _ _ => Outside (runs n) n)
      (fun _ _ => Outside (runs n) n) () w := by
  induction user generalizing w with
  | done => exact Proc.wp_pure h
  | reserve names next ih =>
    refine Proc.wp_seq _ (Proc.wp_outcome (Q := fun _ _ => Outside (runs n) n) ?_)
      fun result _ w h => ih result h
    unfold RegistryProc.reservePorts
    split
    · exact Proc.wp_pure h
    · exact locking_updateRegistry _
        (fun _ => RegistryProc.reserveUpdate_straight (fun _ hc => hc) _ _ _) h
  | release next ih =>
    refine Proc.wp_seq _ (Proc.wp_outcome (Q := fun _ _ => Outside (runs n) n) ?_)
      fun result _ w h => ih result h
    exact locking_updateRegistry _ (fun _ => .pure) h

theorem locking_supervise (user : User) (h : Absent (runs n) n w) :
    Proc.wp (locking runs n) (user.supervise (runs n)) (fun _ _ => Absent (runs n) n)
      (fun _ _ => Absent (runs n) n) () w := by
  refine Proc.wp_seq _ (locking_lockSupervisor h) fun _ _ w h => Proc.wp_ensuring ?_
  exact Proc.wp_mono (locking_serve user h) (fun _ _ w h => locking_closeSupervisorLock h)
    fun _ _ w h => locking_closeSupervisorLock h

end Programs

/-! ## Runs -/

section Runs

variable [Toolchain] {users : Nat → User} {file : Option PortRegistry}
  {ms : List (system runs).Move} {cfg : (system runs).Config}
  (h : Machine.TamperedRun (M := system runs) (Machine.always (system runs)) (kills runs)
    (initial runs users file) ms cfg)

omit h in
theorem initial_locking (n : Nat) : ((initial runs users file).thread n).wp (locking runs n)
    (fun _ => Absent (runs n) n) (initial runs users file).world := by
  have habsent : Absent (runs n) n { file } := fun _ => ⟨(fun h => by cases h), fun h => by cases h⟩
  refine Prog.wp_mono ?_ (locking_supervise (users n) habsent)
  rintro ⟨e | u, s⟩ w h <;> exact h

include h

/-- Every step of a run keeps the discipline of the locks. -/
theorem mayLock_of_run : Machine.TamperedRun (M := system runs)
    (Machine.guaranteed (Machine.always (system runs)) (fun _ => id) (locking runs)) (kills runs)
    (initial runs users file) ms cfg :=
  h.cooperate (M := system runs) (V := fun _ => id) (L := locking runs)
    (Q := fun n _ => Absent (runs n) n)
    (fun _ _ _ a _ _ _ _ he => ⟨a, he⟩)
    (fun _ _ hne _ _ _ _ _ _ _ he hmay => .of_step hne (exec_killed he) (exec_locks hmay he))
    (fun _ _ _ _ hrely habsent => absent_rely habsent hrely) (fun _ _ _ hkills => .of_kills hkills)
    initial_locking

theorem locking_of_run (n : Nat) :
    (cfg.thread n).wp (locking runs n) (fun _ => Absent (runs n) n) cfg.world :=
  (mayLock_of_run h).wp (M := system runs) (V := id) (Q := fun _ => Absent (runs n) n)
    (Machine.describes_guaranteed (M := system runs) (V := fun _ => id) (L := locking runs)
      (fun _ _ _ a _ _ _ _ he => ⟨a, he⟩)
      (fun _ _ hne _ _ _ _ _ _ _ he hmay => .of_step hne (exec_killed he) (exec_locks hmay he)) n)
    (fun _ _ _ hrely habsent => absent_rely habsent hrely) (fun _ _ hkills => .of_kills hkills)
    (initial_locking n)

end Runs

/-! ## A process that nobody holds up -/

/-- The process lives, and nobody else has a lock that it may wait for. -/
structure Unhindered (runId : String) (n : Nat) (w : World) : Prop where
  alive : w.killed n = false
  lock : w.lock = none ∨ w.lock = some n
  supervisor : w.supervisor runId = none ∨ w.supervisor runId = some n

namespace Unhindered

variable {runId : String}

theorem unlock (h : Unhindered runId n w) : Unhindered runId n (w.unlock n) := by
  unfold World.unlock
  split
  · exact ⟨h.alive, .inl rfl, h.supervisor⟩
  · exact h

theorem write (h : Unhindered runId n w) (registry : PortRegistry)
    (reserved : List ReservedPort) (reported : Bool) :
    Unhindered runId n (w.write runId registry reserved reported) := by
  unfold World.write
  split
  · exact ⟨h.alive, h.lock, h.supervisor⟩
  · exact ⟨h.alive, h.lock, h.supervisor⟩

theorem unlockSupervisor (h : Unhindered runId n w) :
    Unhindered runId n (w.unlockSupervisor runId n) := by
  unfold World.unlockSupervisor
  split
  · exact ⟨h.alive, h.lock, .inl (Function.update_self ..)⟩
  · exact h

theorem execLive {β : Type} {c : Cmd β} {a : Answer} (h : w.killed n = false) :
    exec runId n c a w = execLive runId n c a w := by
  unfold exec
  rw [h]
  rfl

/-- A call that may fail can be executed if it can be executed without a failure. -/
theorem fallible {α : Type} {a : Answer} {success : Option (Except AppError α × World)}
    (h : Unhindered runId n w) (hsuccess : ∃ r w', success = some (r, w') ∧ Unhindered runId n w') :
    ∃ r w', Registry.fallible a w success = some (r, w') ∧ Unhindered runId n w' := by
  unfold Registry.fallible
  cases a.fault with
  | some fault => exact ⟨_, _, rfl, h⟩
  | none => exact hsuccess

/-- A call can be executed, whatever the world answers. -/
theorem next {β : Type} {c : Cmd β} (h : Unhindered (runs n) n w)
    (hmay : MayLock (runs n) n w c) (a : Answer) :
    ∃ b w', exec (runs n) n c a w = some (b, w') ∧ Unhindered (runs n) n w' := by
  rw [execLive h.alive]
  cases c with
  | lockSupervisor =>
    have hfree : w.supervisor (runs n) = none := h.supervisor.resolve_right hmay
    refine h.fallible ⟨.ok (),
      { w with supervisor := Function.update w.supervisor (runs n) (some n) }, ?_, h.alive, h.lock,
      .inr (Function.update_self ..)⟩
    simp only [hfree, Option.isSome_none, Bool.false_eq_true, if_false]
  | lock purpose =>
    have hfree : w.lock = none := h.lock.resolve_right hmay.2
    refine h.fallible ⟨.ok (),
      { w with lock := some n, reservation := purpose.reservation (runs n) }, ?_, h.alive,
      .inr rfl, h.supervisor⟩
    simp only [hfree, Option.isSome_none, Bool.false_eq_true, if_false]
  | openLock => exact h.fallible ⟨_, _, rfl, h⟩
  | pathExists => exact ⟨_, _, rfl, h⟩
  | readJson => exact h.fallible ⟨_, _, rfl, h⟩
  | supervisorActive tested => exact ⟨_, _, rfl, h.alive, h.lock, h.supervisor⟩
  | bind => exact h.fallible ⟨_, _, rfl, h⟩
  | now => exact ⟨_, _, rfl, h⟩
  | writeJson registry reserved =>
    simp only [Registry.execLive]
    cases a.fault with
    | none => exact ⟨_, _, rfl, h.write registry reserved true⟩
    | some fault =>
      refine ⟨_, _, rfl, ?_⟩
      split
      · exact h.write registry reserved false
      · exact h
  | unlock => exact h.fallible ⟨_, _, rfl, h.unlock⟩
  | closeLock => exact ⟨_, _, rfl, h.unlock⟩
  | closeSupervisorLock => exact ⟨_, _, rfl, h.unlockSupervisor⟩

/-- A process that lives can make its next call, if only one that fails. -/
theorem executable (runs : Nat → String) {β : Type} (c : Cmd β) (halive : w.killed n = false) :
    ∃ b w', (locking runs n).step c w b w' := by
  let failing : Answer := { fault := some (.document "") }
  have hstep {b : β} {w' : World}
      (hexec : Registry.execLive (runs n) n c failing w = some (b, w')) :
      ∃ b w', (locking runs n).step c w b w' := ⟨b, w', failing, (execLive halive).trans hexec⟩
  cases c <;> exact hstep rfl

/-- A process that nobody holds up comes to its end, and has no lock then. -/
theorem finishes [Toolchain] {init cfg : (system runs).Config} {ms : List (system runs).Move}
    {ok : (system runs).Condition}
    (hanswered : ∀ (m : Nat) {β : Type} (c : Cmd β) (w : World), ∃ a, ok m c a w)
    (h : Machine.TamperedRun (M := system runs) (Machine.always (system runs)) (kills runs) init ms
      cfg)
    (hstraight : (cfg.thread n).Straight (fun {_} _ => True))
    (hwp : (cfg.thread n).wp (locking runs n) (fun _ => Absent (runs n) n) cfg.world)
    (hfree : Unhindered (runs n) n cfg.world) :
    ∃ ms' cfg' r, Machine.Reach ok cfg cfg' ∧
      Machine.TamperedRun (M := system runs) (Machine.always (system runs)) (kills runs) init ms'
        cfg' ∧
      cfg'.thread n = .ret r ∧ cfg'.world.lock = none ∧ cfg'.world.supervisor (runs n) = none := by
  obtain ⟨ms', cfg', r, hreach, htampered, hr, habsent, hfree'⟩ :=
    h.finishes (M := system runs) (V := id) (L := locking runs n) (I := Unhindered (runs n) n)
      (fun c a w b w' _ he => ⟨a, he⟩)
      (fun c k w hwp hI => by
        obtain ⟨b, w', hstep⟩ := executable runs c hI.alive
        obtain ⟨a, hok⟩ := hanswered n c w
        obtain ⟨b, w', hexec, hI⟩ := hI.next (Prog.wp_exec_elim hwp hstep).1 a
        exact ⟨a, b, w', hok, trivial, hexec, hI⟩)
      hstraight hwp hfree
  have hgone := habsent hfree'.alive
  exact ⟨ms', cfg', r, hreach, htampered, hr, hfree'.lock.resolve_right hgone.2,
    hfree'.supervisor.resolve_right hgone.1⟩

end Unhindered

/-! ## Progress -/

section Reached

variable [Toolchain] {users : Nat → User} {file : Option PortRegistry}
  {cfg : (system runs).Config} {ok : (system runs).Condition}
  (hanswered : ∀ (m : Nat) {β : Type} (c : Cmd β) (w : World), ∃ a, ok m c a w)

/-- The configurations of all runs. -/
def Reached (runs : Nat → String) (users : Nat → User) (file : Option PortRegistry)
    (cfg : (system runs).Config) : Prop :=
  ∃ ms, Machine.TamperedRun (M := system runs) (Machine.always (system runs)) (kills runs)
    (initial runs users file) ms cfg

include hanswered

/-- A process that nobody holds up can be led to its end. -/
theorem Reached.finishes (h : Reached runs users file cfg)
    (hfree : Unhindered (runs n) n cfg.world) :
    ∃ cfg' r, Machine.Reach ok cfg cfg' ∧ Reached runs users file cfg' ∧ cfg'.thread n = .ret r ∧
      cfg'.world.lock = none ∧ cfg'.world.supervisor (runs n) = none := by
  obtain ⟨ms, h⟩ := h
  have hstraight : (cfg.thread n).Straight (fun {_} (_ : Cmd _) => True) :=
    h.straight (M := system runs) (i := n)
      ((users n).supervise_straight (fun _ => trivial) (runs n) ())
  obtain ⟨ms', cfg', r, hreach, htampered, hrest⟩ :=
    hfree.finishes hanswered h hstraight (locking_of_run h n)
  exact ⟨cfg', r, hreach, ⟨ms', htampered⟩, hrest⟩

end Reached

end Registry

end Procherd

namespace Procherd.Reference

open Interaction Registry

end Procherd.Reference
