-- SUMMARY: Failed acquisitions: they leave no entry of their run in the port registry, and every entry of a run whose lock is held.
import Procherd.LeaseDelivery
import Procherd.Interaction.Runs

/-!
# Failed acquisitions

`acquire` may fail before, in and after its registry transaction. The entries it
has committed by then are released; an entry of another run is only ever dropped
when the lock of its run is free.
-/

namespace Procherd

open Interaction

/-! ## Entries -/

/-- The entries in `port-leases.json`. -/
def World.leased (w : World) : List PortRegistryEntry := (w.registry.getD .empty).entries

/-- The registry has no entry of the run. -/
def NoEntries (runId : String) (w : World) : Prop := ∀ entry ∈ w.leased, entry.runId ≠ runId

instance (runId : String) (w : World) : Decidable (NoEntries runId w) :=
  inferInstanceAs (Decidable (∀ entry ∈ w.leased, entry.runId ≠ runId))

/-- Every entry of a run whose lock is held is still in the registry. -/
def KeepsHeld (held : String → Prop) (w w' : World) : Prop :=
  ∀ entry ∈ w.leased, held entry.runId → entry ∈ w'.leased

/-! ## The transactions -/

section Transactions

variable {runId : String} {held : String → Prop} {registry registry' : PortRegistry}

theorem reserveNames_entries {offers : PortOffers} {names : List String} {unavailable : List Nat}
    {i k : Nat} {entries entries' : List PortRegistryEntry}
    {reserved reserved' : List ReservedPort}
    (h : reserveNames offers runId names unavailable i k entries reserved =
      .ok (reserved', entries')) : entries ⊆ entries' := by
  induction names generalizing unavailable i k entries reserved with
  | nil =>
    cases h
    exact List.Subset.refl _
  | cons name rest ih =>
    rw [reserveNames] at h
    split at h
    · cases h
    · exact List.Subset.trans (List.subset_append_left _ _) (ih h)

/-- A reservation keeps the entries whose locks are reported held. -/
theorem reservePorts_keeps {active : Nat → String → Bool} {offers : PortOffers}
    {names : List String} {reserved : List ReservedPort}
    (h : reservePorts active offers runId names registry = .ok (reserved, registry'))
    (hactive : ∀ i id, held id → active i id) :
    ∀ entry ∈ registry.entries, held entry.runId → entry ∈ registry'.entries := by
  intro entry hentry hheld
  obtain ⟨j, hj⟩ := List.mem_iff_getElem?.mp hentry
  have hretained : entry ∈ retainActive active 0 registry.entries :=
    mem_retainActive hj (hactive _ _ hheld)
  simp only [reservePorts, bind, Except.bind] at h
  split at h
  · cases h
  rename_i result hresult
  cases h
  exact reserveNames_entries hresult hretained

/-- A release drops the entries of its run and no others. -/
theorem mem_releaseEntries (h : releaseEntries runId registry = .ok ((), registry'))
    {entry : PortRegistryEntry} :
    entry ∈ registry'.entries ↔ entry ∈ registry.entries ∧ entry.runId ≠ runId := by
  cases h
  simp

end Transactions

/-! ## Acquisition -/

section Acquisition

variable [Toolchain]

/-- What the system does in an acquisition: the locks that are held are reported
    held, a write of the registry that fails leaves the old file, and a release
    succeeds. -/
def Provided (held : String → Prop) :
    {β : Type} → BodyCmd β → Answer → β → Prop
  | _, .reservePorts _ _, a, _ =>
    (∀ i id, held id → a.active i id) ∧ (a.fault.isSome → a.took = false)
  | _, .releaseRegistry _, _, released => released = .ok ()
  | _, _, _, _ => True

/-- The commands of the supervisor under these provisions. -/
def providing (held : String → Prop) {β : Type} (c : BodyCmd β) (w : World) (b : β) (w' : World) :
    Prop :=
  ∃ a, execBody c a w = some (b, w') ∧ Provided held c a b

/-- The supervisor by itself. -/
abbrev alone (held : String → Prop) : Interface BodyCmd World :=
  .isolated (providing held) fun _ _ _ _ => True

variable {held : String → Prop} {σ : Type} {s : σ} {w₀ w : World} {runId : String}

/-- Nothing has been reserved that a release does not drop. -/
structure Reserving (held : String → Prop) (runId : String) (w₀ w : World) : Prop where
  fresh : NoEntries runId w₀
  keeps : KeepsHeld held w₀ w

theorem Reserving.release {w' : World} {a : Answer} (h : Reserving held runId w₀ w)
    (hexec : execBody (.releaseRegistry runId) a w = some (.ok (), w')) :
    NoEntries runId w' ∧ KeepsHeld held w₀ w' := by
  simp only [execBody, committed, fallible] at hexec
  split at hexec
  · rename_i registry hupdate
    have hrelease := updateRegistry_ok hupdate
    split at hexec <;> cases hexec
    refine ⟨fun entry hentry => ((mem_releaseEntries hrelease).mp hentry).2, ?_⟩
    exact fun entry hentry hheld => (mem_releaseEntries hrelease).mpr
      ⟨h.keeps entry hentry hheld, h.fresh entry hentry⟩
  · split at hexec <;> cases hexec

theorem wp_reservePortNames (names : List String) (h : NoEntries runId w) :
    Proc.wp (alone held) (reservePortNames runId names)
      (fun _ _ => Reserving held runId w)
      (fun _ _ w' => NoEntries runId w' ∧ KeepsHeld held w w') s w := by
  unfold reservePortNames
  split
  · exact Proc.wp_pure ⟨h, fun _ hentry _ => hentry⟩
  refine Proc.wp_attempt ?_
  rintro _ rfl r w' ⟨a, hexec, hactive, htook⟩
  refine ⟨trivial, ?_⟩
  simp only [execBody, committed, fallible] at hexec
  split at hexec
  · rename_i reserved registry hupdate
    have hreserve := updateRegistry_ok hupdate
    split at hexec
    · rename_i fault hfault
      cases hexec
      rw [htook (by rw [hfault]; rfl)]
      exact ⟨h, fun _ hentry _ => hentry⟩
    · cases hexec
      exact ⟨h, reservePorts_keeps hreserve hactive⟩
  · split at hexec <;>
    · cases hexec
      exact ⟨h, fun _ hentry _ => hentry⟩

theorem wp_discardReserved {ports : List ReservedPort} (h : Reserving held runId w₀ w)
    {E : AppError → σ → World → Prop} :
    Proc.wp (alone held) (discardLeases { runId, ports })
      (fun _ _ w' => NoEntries runId w' ∧ KeepsHeld held w₀ w') E s w := by
  refine Proc.wp_seq (fun released _ w' =>
    released.isOk ∧ NoEntries runId w' ∧ KeepsHeld held w₀ w') (Proc.wp_outcome ?_) ?_
  · refine Proc.wp_bind (Proc.wp_attempt ?_)
    rintro _ rfl released w' ⟨a, hexec, rfl⟩
    exact ⟨trivial, Proc.wp_pure ⟨rfl, h.release hexec⟩⟩
  · rintro (_ | _) s w' ⟨hok, hw'⟩
    · cases hok
    · exact Proc.wp_pure hw'

theorem wp_acquire_rollback {state : RunState} {requests : LeaseRequests}
    (h : NoEntries state.runId w) :
    Proc.wp (alone held) (LeaseAllocation.acquire state requests) (fun _ _ _ => True)
      (fun _ _ w' => NoEntries state.runId w' ∧ KeepsHeld held w w') s w := by
  have hnothing : NoEntries state.runId w ∧ KeepsHeld held w w := ⟨h, fun _ hentry _ => hentry⟩
  refine Proc.wp_bind (Proc.wp_ofExcept (fun runId hrunId => ?_) fun _ _ => hnothing)
  obtain rfl := canonicalRunId_eq hrunId
  refine Proc.wp_bind (Proc.wp_ofExcept (fun _ _ => ?_) fun _ _ => hnothing)
  refine Proc.wp_bind (Proc.wp_ofExcept (fun _ _ => ?_) fun _ _ => hnothing)
  refine Proc.wp_bind (Proc.wp_call ?_)
  rintro _ rfl acquiredAtMs w' ⟨a, hexec, -⟩
  cases hexec
  refine ⟨trivial, Proc.wp_seq (fun _ _ w' => w' = w) ?_ ?_⟩
  · unfold createTempDirectories
    split
    · exact Proc.wp_pure rfl
    refine Proc.wp_attempt ?_
    rintro _ rfl created w' ⟨a, hexec, -⟩
    simp only [execBody, fallible] at hexec
    refine ⟨trivial, ?_⟩
    split at hexec <;> cases hexec
    · exact hnothing
    · rfl
  rintro tempPaths s w rfl
  refine Proc.wp_seq _ (wp_reservePortNames requests.portNames h) fun ports s w' hw' => ?_
  split
  · exact Proc.wp_seq _ (wp_discardReserved hw') fun _ _ _ hw' => Proc.wp_throw hw'
  · exact Proc.wp_pure trivial

end Acquisition

theorem failed_acquire_leaves_nothing [Toolchain] {σ : Type} {held : String → Prop}
    {state : RunState} {requests : LeaseRequests} {e : AppError} {s s' : σ} {w w' : World}
    (hfresh : NoEntries state.runId w)
    (h : (LeaseAllocation.acquire state requests s).Runs (providing held) w (.error e, s') w') :
    NoEntries state.runId w' ∧ KeepsHeld held w w' := by
  have hwp : Proc.wp (alone held) (LeaseAllocation.acquire state requests) _ _ s w :=
    wp_acquire_rollback hfresh
  exact Prog.Runs.satisfies h hwp

end Procherd

namespace Procherd.Reference

def otherRun : String := "run_01BX5ZZKBKACTAV9WEVGEMMVRZ"

/-- The registry has an entry of a run whose lock is held, and one of a run that is gone. -/
def shared : PortRegistry :=
  { PortRegistry.empty with
    entries := [
      { runId := "run_01BX5ZZKBKACTAV9WEVGEMMVS0", name := "old", port := 4000, acquiredAtMs := 1 },
      { runId := otherRun, name := "web", port := 4001, acquiredAtMs := 2 }] }

/-- The commands of an acquisition whose release succeeds. -/
def execProvided : {β : Type} → BodyCmd β → Answer → World → Option (β × World)
  | _, .releaseRegistry runId, a, w =>
    (execBody (.releaseRegistry runId) a w).filter fun r => r.1.isOk
  | _, c, a, w => execBody c a w

theorem providing_of_execProvided {held : String → Prop} {a : Answer} (hfault : a.fault = none)
    (hactive : ∀ i id, held id → a.active i id) {β : Type} {c : BodyCmd β} {w w' : World} {b : β}
    (h : execProvided c a w = some (b, w')) : providing held c w b w' := by
  cases c with
  | releaseRegistry runId =>
    obtain ⟨hexec, hok⟩ := Option.filter_eq_some_iff.mp h
    refine ⟨a, hexec, ?_⟩
    cases b with
    | ok _ => rfl
    | error _ => cases hok
  | reservePorts runId names =>
    exact ⟨a, h, hactive, fun hsome => by rw [hfault] at hsome; cases hsome⟩
  | _ => exact ⟨a, h, trivial⟩

def leaseWeb : RunState := options.initialState { portNames := ["web"], tempDirectoryNames := [] } 0

def requestHttp : LeaseRequests := { portNames := ["http"], tempDirectoryNames := [] }

def sharing : World :=
  { runDir := .ofString "/state/run", runId := options.runId, pipe := fun _ => []
    registry := some shared }

/-- The lock of the other run is reported held. -/
def observing : Answer :=
  { active := fun _ id => id = otherRun, offers := { bind := fun _ => .ok 5000 } }

theorem failed_acquire_leaves_nothing_mismatch :
    ∃ e w', (LeaseAllocation.acquire leaseWeb requestHttp ()).Runs (providing (· = otherRun)) sharing
        (.error e, ()) w' ∧
      w'.leased = [{ runId := otherRun, name := "web", port := 4001, acquiredAtMs := 2 }] ∧
      NoEntries leaseWeb.runId w' ∧ KeepsHeld (· = otherRun) sharing w' := by
  have hexecute : ((Interaction.Prog.execute (fun {_} => execProvided)
      (List.replicate 3 observing) (LeaseAllocation.acquire leaseWeb requestHttp ()) sharing).any
        fun r => !r.1.1.isOk &&
          r.2.leased = [{ runId := otherRun, name := "web", port := 4001, acquiredAtMs := 2 }]) := by
    decide +kernel
  obtain ⟨⟨⟨_ | _, _⟩, w'⟩, hexec, hcheck⟩ := (Option.any_eq_true _ _).mp hexecute
  · have hrun := Interaction.Prog.runs_of_execute (fun a ha _ _ _ _ _ h => by
      obtain rfl := List.eq_of_mem_replicate ha
      exact providing_of_execProvided rfl (fun _ _ heq => decide_eq_true heq) h) hexec
    exact ⟨_, w', hrun, of_decide_eq_true hcheck,
      failed_acquire_leaves_nothing (by decide +kernel) hrun⟩
  · cases hcheck

end Procherd.Reference
