-- SUMMARY: The evidence of a release: a port lease is only recorded as released when the registry has no entry of the run.
import Procherd.Supervision
import Procherd.Rollback
import Procherd.Reference

/-!
# Release evidence

Two paths write the time of a release. `release` writes it after its registry
transaction. `mark_supervisor_failed` writes it into the leases that are still
held, after `Drop` has tried to release them and discarded the result.
-/

namespace Procherd

open Interaction

/-! ## The view -/

/-- What a release shows of the world. -/
structure ReleaseView where
  document : Option RunState
  /-- The registry has no entry of the run. -/
  clear : Bool

/-- What the document says about releases is true. -/
def ReleaseView.Truthful (o : ReleaseView) : Prop :=
  ∀ state, o.document = some state → ¬ state.Unreleased → o.clear

def World.releaseView (runId : String) (w : World) : ReleaseView :=
  { document := w.state?, clear := decide (NoEntries runId w) }

/-- Some port lease is acquired and not released. -/
def RunState.HoldsPorts (state : RunState) : Prop :=
  ∃ lease ∈ state.leases.ports, lease.acquiredAtMs.isSome ∧ lease.releasedAtMs.isNone

/-- `mark_supervisor_failed` finds no entry of the run, if it expires a lease. -/
def ReleaseView.Expires (state : RunState) (o : ReleaseView) : Prop :=
  state.exit.any (·.reason = .supervisorFailed) →
    ∀ old, o.document = some old → old.HoldsPorts → o.clear

/-- A registry transaction adds no entry of the run. -/
def ClientCmd.Foreign (runId : String) : {β : Type} → ClientCmd β → Prop
  | _, .updateRegistry update =>
    ∀ registry, ∀ entry ∈ (update registry).entries, entry.runId = runId → entry ∈ registry.entries
  | _, _ => True

section OtherRuns

variable {runId other : String} {registry registry' : PortRegistry}

theorem reserveNames_foreign (hother : other ≠ runId) {offers : PortOffers} {names : List String}
    {unavailable : List Nat} {i k : Nat} {entries entries' : List PortRegistryEntry}
    {reserved reserved' : List ReservedPort}
    (h : reserveNames offers other names unavailable i k entries reserved =
      .ok (reserved', entries')) :
    ∀ entry ∈ entries', entry.runId = runId → entry ∈ entries := by
  induction names generalizing unavailable i k entries reserved with
  | nil =>
    cases h
    exact fun _ hentry _ => hentry
  | cons name rest ih =>
    rw [reserveNames] at h
    split at h
    · cases h
    · intro entry hentry hrunId
      rcases List.mem_append.mp (ih h entry hentry hrunId) with hold | hnew
      · exact hold
      · rw [List.mem_singleton.mp hnew] at hrunId
        exact absurd hrunId hother

theorem reservePorts_foreign (hother : other ≠ runId) {active : Nat → String → Bool}
    {offers : PortOffers} {names : List String} {reserved : List ReservedPort}
    (h : reservePorts active offers other names registry = .ok (reserved, registry')) :
    ∀ entry ∈ registry'.entries, entry.runId = runId → entry ∈ registry.entries := by
  simp only [reservePorts, bind, Except.bind] at h
  split at h
  · cases h
  rename_i result hresult
  cases h
  exact fun entry hentry hrunId => (retainActive_sublist _ _ _).subset
    (reserveNames_foreign hother hresult entry hentry hrunId)

/-- The transactions of a run: a reservation, a release, or one that fails. -/
def Transaction (runId : String) (update : PortRegistry → PortRegistry) : Prop :=
  ∀ registry, update registry = registry ∨
    releaseEntries runId registry = .ok ((), update registry) ∨
    ∃ active offers names reserved,
      reservePorts active offers runId names registry = .ok (reserved, update registry)

theorem foreign_of_other (hother : other ≠ runId) {update : PortRegistry → PortRegistry}
    (h : Transaction other update) : (ClientCmd.updateRegistry update).Foreign runId := by
  intro registry entry hentry hrunId
  obtain heq | hrelease | ⟨active, offers, names, reserved, hreserve⟩ := h registry
  · exact heq ▸ hentry
  · exact ((mem_releaseEntries hrelease).mp hentry).1
  · exact reservePorts_foreign hother hreserve entry hentry hrunId

end OtherRuns

namespace ReleaseView

def step (runId : String) : {β : Type} → BodyCmd β → ReleaseView → β → ReleaseView → Prop
  | _, .persistState state, o, r, o' =>
    o.Expires state ∧ o'.clear = o.clear ∧
      (o'.document = some state ∨ (o' = o ∧ r ≠ .ok ()))
  | _, .reservePorts _ _, o, _, o' => o'.document = o.document
  | _, .releaseRegistry id, o, r, o' =>
    o'.document = o.document ∧ (o.clear → o'.clear) ∧ (id = runId → r = .ok () → o'.clear)
  | _, .readState, o, r, o' => o' = o ∧ ∀ state, r = .ok state → o.document = some state
  | _, _, o, _, o' => o' = o

/-- The view of the supervisor. What it guarantees is that the document stays true. -/
def interface (runId : String) : Interface BodyCmd ReleaseView where
  step := step runId
  rely o o' := o'.document = o.document ∧ (o.clear → o'.clear)
  guar _ _ _ o' := o'.Truthful
  rely_refl _ := ⟨rfl, id⟩
  rely_trans h h' := ⟨h'.1.trans h.1, h'.2 ∘ h.2⟩

variable {runId : String} {o o' o'' : ReleaseView}

theorem step_plain {β : Type} {c : BodyCmd β} {b : β} (hc : c.plain)
    (h : step runId c o b o') : o' = o := by
  cases c with
  | readState => exact h.1
  | persistState _ => cases hc
  | createLog => cases hc
  | reservePorts _ _ => cases hc
  | releaseRegistry _ => cases hc
  | _ => exact h

theorem Truthful.later (h : o.Truthful) (hdocument : o'.document = o.document)
    (hclear : o.clear → o'.clear) : o'.Truthful :=
  fun state hstate hreleased => hclear (h state (hdocument ▸ hstate) hreleased)

/-- A document without releases is true. -/
theorem Truthful.of_unreleased {state : RunState} (hdocument : o.document = some state)
    (h : state.Unreleased) : o.Truthful := by
  intro _ hstate hreleased
  cases hdocument.symm.trans hstate
  exact absurd h hreleased

/-! ## The supervisor -/

/-- The release times may be written. -/
structure Releasable (released : List (Option Nat)) (o : ReleaseView) : Prop where
  truthful : o.Truthful
  clear : ¬ (∀ time ∈ released, time = none) → o.clear

theorem Releasable.later {released : List (Option Nat)} (h : Releasable released o)
    (hdocument : o'.document = o.document) (hclear : o.clear → o'.clear) :
    Releasable released o' :=
  ⟨h.truthful.later hdocument hclear, fun hreleased => hclear (h.clear hreleased)⟩

theorem Releasable.persist {state : RunState} {r : Except AppError Unit}
    (h : Releasable state.released o) (hclear : o'.clear = o.clear)
    (hdocument : o'.document = some state ∨ (o' = o ∧ r ≠ .ok ())) : o'.Truthful := by
  obtain hdocument | ⟨rfl, -⟩ := hdocument
  · intro _ hstate hreleased
    cases hdocument.symm.trans hstate
    rw [hclear]
    exact h.clear hreleased
  · exact h.truthful

theorem supervision :
    Supervision (interface runId) runId (fun _ => Releasable) Truthful where
  keeps _ _ _ _ hc _ _ _ _ h hrely hs := by
    cases step_plain hc hs
    have h := h.later hrely.1 hrely.2
    exact ⟨h.truthful, h⟩
  keepsFailed _ hc _ _ _ _ h hrely hs := by
    cases step_plain hc hs
    have h := h.later hrely.1 hrely.2
    exact ⟨h, h⟩
  fails h := h.truthful
  persist _ h hrely hs := by
    have htrue := (h.later hrely.1 hrely.2).persist hs.2.1 hs.2.2
    refine ⟨htrue, htrue, fun _ released hreleased => ⟨htrue, fun hsome => ?_⟩⟩
    rw [hs.2.1]
    exact hrely.2 (hreleased.clear hsome)
  createLog h hrely hs := by
    cases hs
    have h := h.later hrely.1 hrely.2
    exact ⟨h.truthful, h.truthful, fun _ _ hreleased => hreleased.later hrely.1 hrely.2⟩
  release h hrely hs := by
    obtain ⟨hdocument, hclear, hok⟩ := hs
    have h := (h.later hrely.1 hrely.2).later hdocument hclear
    exact ⟨h.truthful, h.truthful, fun hr _ => ⟨h.truthful, fun _ => hok rfl hr⟩⟩
  releaseFailed h hrely hs := by
    obtain ⟨hdocument, hclear, -⟩ := hs
    have h := (h.later hrely.1 hrely.2).later hdocument hclear
    exact ⟨h, h⟩

/-- What the supervisor finds and writes until it has acquired its leases. -/
def Unreleased (runId : String) (o : ReleaseView) : Prop :=
  ∃ state, o.document = some state ∧ state.runId = runId ∧ state.Unreleased

theorem Unreleased.truthful (h : Unreleased runId o) : o.Truthful := by
  obtain ⟨state, hstate, -, hunreleased⟩ := h
  exact .of_unreleased hstate hunreleased

theorem Unreleased.later (h : Unreleased runId o) (hdocument : o'.document = o.document) :
    Unreleased runId o' := by
  obtain ⟨state, hstate, hrest⟩ := h
  exact ⟨state, hdocument.trans hstate, hrest⟩

theorem Unreleased.kept (h : Unreleased runId o) : o.Truthful ∧ Unreleased runId o :=
  ⟨h.truthful, h⟩

/-- A lease that the failed state releases was released before, or is expired. -/
theorem failedState_released {error : AppError} {updatedAtMs finishedAtMs : Nat} {state : RunState}
    (h : ¬ (failedState error updatedAtMs finishedAtMs state).Unreleased) :
    ¬ state.Unreleased ∨ state.HoldsPorts := by
  simp only [RunState.Unreleased, RunState.released, failedState, List.map_map, List.mem_map,
    not_forall] at h
  obtain ⟨_, ⟨lease, hlease, rfl⟩, hreleased⟩ := h
  by_cases hnone : lease.releasedAtMs = none
  · refine .inr ⟨lease, hlease, ?_, hnone ▸ rfl⟩
    by_contra hacquired
    refine hreleased ?_
    simp only [Function.comp_apply, PortLease.expire]
    rw [if_neg fun h => hacquired h.1]
    exact hnone
  · exact .inl fun h => hnone (h _ (List.mem_map_of_mem hlease))

theorem frame : SupervisorFrame (interface runId) runId (Unreleased runId) (fun _ => Releasable)
    Truthful fun state o => o.document = some state ∧ o.Truthful where
  supervision := supervision
  keeps _ hc _ _ _ _ h hrely hs := by
    cases step_plain hc hs
    exact (h.later hrely.1).kept
  fails := Unreleased.truthful
  found h hrely hs := by
    obtain ⟨state, hstate, hrunId, hunreleased⟩ := h
    cases (hs.2 _ rfl).symm.trans (hrely.1.trans hstate)
    exact ⟨hrunId, hunreleased⟩
  persist hrunId hunreleased _ h hrely hs := by
    refine Unreleased.kept ?_
    obtain ⟨-, -, hdocument | ⟨rfl, -⟩⟩ := hs
    · exact ⟨_, hdocument, hrunId, hunreleased⟩
    · exact h.later hrely.1
  reserve h hrely hs := ((h.later hrely.1).later hs).kept
  release h hrely hs := ((h.later hrely.1).later hs.1).kept
  acquired hunreleased h := ⟨h.truthful, fun hreleased => absurd hunreleased hreleased⟩
  keepsRead _ _ _ hc _ _ _ _ h hrely hs := by
    cases step_plain hc hs
    have htrue := h.2.later hrely.1 hrely.2
    exact ⟨htrue, hrely.1.trans h.1, htrue⟩
  read h hrely hs := by
    cases hs.1
    exact ⟨hs.2 _ rfl, h.later hrely.1 hrely.2⟩
  mark h hrely hs := by
    have htrue := h.2.later hrely.1 hrely.2
    obtain ⟨hexpires, hclear, hdocument | ⟨rfl, -⟩⟩ := hs
    · intro _ hstate hreleased
      cases hdocument.symm.trans hstate
      rw [hclear]
      have hold := hrely.1.trans h.1
      rcases failedState_released hreleased with hreleased | hholds
      · exact htrue _ hold hreleased
      · exact hexpires rfl _ hold hholds
    · exact htrue

end ReleaseView

/-! ## Runs -/

variable [Toolchain] {setup : Setup} {ok : system.Condition} {cfg : system.Config}

/-- The failed state expires a lease only when the registry has no entry of the
    run, and the transactions of other runs add none. -/
def truthfulReleases (runId : String) : system.Condition
  | .supervisor, _, .inr (.persistState state), _, w => (w.releaseView runId).Expires state
  | .start, _, .inr c, _, _ => c.Foreign runId
  | .client _, _, c, _, _ => c.Foreign runId
  | _, _, _, _, _ => True

section Steps

variable {runId : String} {β : Type} {a : Answer} {w w' : World} {b : β}

omit [Toolchain] in
theorem noEntries_congr (h : w'.registry = w.registry) : NoEntries runId w' ↔ NoEntries runId w := by
  simp only [NoEntries, World.leased, h]

omit [Toolchain] in
theorem releaseView_congr (hstate : w'.stateJson = w.stateJson)
    (hregistry : w'.registry = w.registry) : w'.releaseView runId = w.releaseView runId :=
  congrArg₂ ReleaseView.mk (congrArg StateFile.state? hstate)
    (decide_eq_decide.mpr (noEntries_congr hregistry))

theorem execBody_releaseView {c : BodyCmd β} (hc : c.plain) (h : execBody c a w = some (b, w')) :
    w'.releaseView runId = w.releaseView runId := by
  refine releaseView_congr ?_ ?_
  all_goals
    cases c with
    | persistState _ => cases hc
    | createLog => cases hc
    | reservePorts _ _ => cases hc
    | releaseRegistry _ => cases hc
    | _ =>
      simp only [execBody, fallible, fallibleIo, receive] at h
      repeat' split at h
      all_goals cases h <;> rfl

theorem releaseRegistry_view {id : String} {r : Except AppError Unit}
    (h : execBody (.releaseRegistry id) a w = some (r, w')) :
    (w'.releaseView runId).document = (w.releaseView runId).document ∧
      ((w.releaseView runId).clear → (w'.releaseView runId).clear) ∧
      (id = runId → r = .ok () → (w'.releaseView runId).clear) := by
  simp only [World.releaseView, decide_eq_true_eq]
  have hkeep (hw : w' = w) (hr : r ≠ .ok ()) : w'.state? = w.state? ∧
      (NoEntries runId w → NoEntries runId w') ∧ (id = runId → r = .ok () → NoEntries runId w') := by
    subst hw
    exact ⟨rfl, fun h => h, fun _ hok => absurd hok hr⟩
  simp only [execBody] at h
  split at h
  · rename_i registry hupdate
    have hmem (entry : PortRegistryEntry) :
        entry ∈ registry.entries ↔ entry ∈ w.leased ∧ entry.runId ≠ id :=
      mem_releaseEntries (updateRegistry_ok hupdate)
    have htaken (hw : w' = { w with registry := some registry }) : w'.state? = w.state? ∧
        (NoEntries runId w → NoEntries runId w') ∧
        (id = runId → r = .ok () → NoEntries runId w') := by
      subst hw
      refine ⟨rfl, fun hnone entry hentry => hnone entry ((hmem entry).mp hentry).1, ?_⟩
      rintro rfl - entry hentry
      exact ((hmem entry).mp hentry).2
    obtain ⟨fault, -, rfl, hw | hw⟩ | ⟨-, -, hw⟩ := committed_cases h
    · exact hkeep hw (fun h => by cases h)
    · exact htaken hw
    · exact htaken hw
  · obtain ⟨fault, -, rfl, hw⟩ | ⟨-, h⟩ := fallible_cases h
    · exact hkeep hw (fun h => by cases h)
    · cases h
      exact hkeep rfl (fun h => by cases h)

theorem step_releaseView {c : BodyCmd β} (hok : truthfulReleases runId .supervisor (.inr c) a w)
    (h : execBody c a w = some (b, w')) :
    ReleaseView.step runId c (w.releaseView runId) b (w'.releaseView runId) := by
  cases c with
  | persistState state =>
    refine ⟨hok, ?_⟩
    obtain ⟨fault, -, rfl, rfl | rfl⟩ | ⟨-, -, rfl⟩ := committed_cases h
    · exact ⟨rfl, .inr ⟨rfl, nofun⟩⟩
    · exact ⟨rfl, .inl rfl⟩
    · exact ⟨rfl, .inl rfl⟩
  | reservePorts id names =>
    simp only [execBody, committed, fallible] at h
    repeat' split at h
    all_goals cases h; rfl
  | releaseRegistry id => exact releaseRegistry_view h
  | readState =>
    refine ⟨execBody_releaseView rfl h, fun state hread => ?_⟩
    obtain ⟨fault, -, rfl, -⟩ | ⟨-, h⟩ := fallible_cases h
    · cases hread
    · cases h
      exact StateFile.read_ok hread
  | createLog =>
    simp only [execBody, fallible] at h
    split at h <;> cases h <;> exact releaseView_congr rfl rfl
  | _ => exact execBody_releaseView rfl h

/-- The other threads let the document of an active run be. -/
theorem client_releaseView {t : Thread} {c : ClientCmd β} (hok : c.Foreign runId)
    (h : execClient t c a w = some (b, w')) :
    (w'.releaseView runId).document = (w.releaseView runId).document ∧
      ((w.releaseView runId).clear → (w'.releaseView runId).clear) := by
  have hstate : w'.stateJson = w.stateJson := by rw [execClient_frame h]
  refine ⟨congrArg StateFile.state? hstate, ?_⟩
  simp only [World.releaseView, decide_eq_true_eq]
  cases c with
  | updateRegistry update =>
    cases h
    intro hnone entry hentry hrunId
    exact hnone entry (hok _ entry hentry hrunId) hrunId
  | _ =>
    have hregistry : w'.registry = w.registry := by
      simp only [execClient, fallible, committed, fallibleIo] at h
      repeat' split at h
      all_goals cases h <;> rfl
    exact (noEntries_congr hregistry).mpr

theorem unreleased_of_created {options : StartOptions} (h : Created options w) :
    ReleaseView.Unreleased options.runId (w.releaseView options.runId) := by
  obtain ⟨requests, createdAtMs, -, -, hstate, -⟩ := h.documents
  refine ⟨_, ?_, rfl, initialState_unreleased options requests createdAtMs⟩
  simp only [World.releaseView, World.state?, hstate]
  rfl

/-- The documents that `start` writes have no release in them. -/
theorem start_truthful {options : StartOptions} {c : CreateCmd β}
    (hok : startProtocol options .start (.inl c) a w) (h : execCreate c a w = some (b, w'))
    (hw : (w.releaseView options.runId).Truthful) : (w'.releaseView options.runId).Truthful := by
  have hsame (hstate : w'.stateJson = w.stateJson) (hregistry : w'.registry = w.registry) :
      (w'.releaseView options.runId).Truthful := releaseView_congr hstate hregistry ▸ hw
  cases c with
  | writeNewState state =>
    obtain ⟨-, -, requests, createdAtMs, -, -, rfl⟩ := hok
    have hnew : ((w.setState (options.initialState requests createdAtMs)).releaseView
        options.runId).Truthful :=
      .of_unreleased rfl (initialState_unreleased options requests createdAtMs)
    obtain ⟨-, -, -, rfl | rfl⟩ | ⟨-, -, rfl⟩ := committed_cases h
    · exact hw
    · exact hnew
    · exact hnew
  | replaceState state =>
    obtain ⟨-, hcreated, old, error, updatedAtMs, finishedAtMs, hold, rfl⟩ := hok
    obtain ⟨found, hfound, -, hunreleased⟩ := unreleased_of_created hcreated
    obtain rfl : old = found := by
      simp only [World.releaseView, World.state?, hold] at hfound
      exact Option.some.inj hfound
    have hnew : ((w.setState (launchFailedState error updatedAtMs finishedAtMs old)).releaseView
        options.runId).Truthful := .of_unreleased rfl hunreleased
    obtain ⟨-, -, -, rfl | rfl⟩ | ⟨-, -, rfl⟩ := committed_cases h
    · exact hw
    · exact hnew
    · exact hnew
  | createState =>
    obtain ⟨-, -, -, rfl⟩ | ⟨-, h⟩ := fallible_cases h
    · exact hw
    · cases h
      intro state hstate
      exact absurd hstate (Option.some_ne_none state).symm
  | _ =>
    simp only [execCreate, fallible] at h
    repeat' split at h
    all_goals cases h <;> exact hsame rfl rfl

end Steps

/-- Every write of the supervisor leaves a true document. -/
theorem reach_releases
    (h : Machine.Reach (truthfulReleases setup.options.runId) setup.initial cfg) :
    Machine.Reach (fun i _ c a w => (truthfulReleases setup.options.runId i c a w ∧
      launchProtocol setup.options i c a w ∧ Launched setup.options w) ∧
      bodyGuarantee (World.releaseView setup.options.runId)
        (ReleaseView.interface setup.options.runId) i c a w) setup.initial cfg := by
  refine reach_bodyGuarantee (ReleaseView.Unreleased setup.options.runId)
    (fun c a w b w' hok hexec => step_releaseView hok.1 hexec) ?_ ?_
    (fun path o ho => ReleaseView.frame.wp_superviseAndMark path ho) (reach_launched h)
  · intro β j hj c a w b w' hok hexec hactive
    refine ⟨congrArg StateFile.state? (sameRun_of_active hj hok.2.1 hexec hactive).stateJson, ?_⟩
    cases j with
    | supervisor => exact absurd rfl hj
    | start =>
      cases c with
      | inl c =>
        have hregistry : w'.registry = w.registry := by
          rw [execCreate_frame (show execCreate c a w = some (b, w') from hexec)]
        simp only [World.releaseView, decide_eq_true_eq]
        exact (noEntries_congr hregistry).mpr
      | inr c => exact (client_releaseView hok.1 hexec).2
    | reader stream =>
      rw [execReader_frame (show execReader stream c a w = some (b, w') from hexec)]
      exact id
    | client index => exact (client_releaseView hok.1 hexec).2
  · intro a w w' hok hexec
    simp only [execLock] at hexec
    repeat' split at hexec
    all_goals cases hexec
    rename_i hphase _ _ _
    have hcreated := hok.2.2.created (not_not.mp hphase)
    exact unreleased_of_created ⟨hcreated.documents, hcreated.ownerToken⟩

theorem noEntries_of_released (setup : Setup) {cfg : system.Config}
    (h : Machine.Reach (truthfulReleases setup.options.runId) setup.initial cfg) {state : RunState}
    (hstate : cfg.world.state? = some state) {lease : PortLease}
    (hlease : lease ∈ state.leases.ports) (hreleased : lease.releasedAtMs.isSome) :
    NoEntries setup.options.runId cfg.world := by
  have htrue : (cfg.world.releaseView setup.options.runId).Truthful := by
    refine Machine.Reach.invariant (M := system)
      (J := fun w => (w.releaseView setup.options.runId).Truthful) ?_ (reach_releases h)
      fun _ h => nomatch h
    intro i β c a w b w' hok hexec hw
    cases i with
    | start =>
      cases c with
      | inl c => exact start_truthful hok.1.2.1.1 hexec hw
      | inr c =>
        obtain ⟨hdocument, hclear⟩ := client_releaseView hok.1.1 hexec
        exact hw.later hdocument hclear
    | supervisor =>
      cases c with
      | inl c =>
        rw [execLock_frame (show execLock c a w = some (b, w') from hexec)]
        exact hw
      | inr c => exact hok.2 b w' hexec
    | reader stream =>
      rw [execReader_frame (show execReader stream c a w = some (b, w') from hexec)]
      exact hw
    | client index =>
      obtain ⟨hdocument, hclear⟩ := client_releaseView hok.1.1 hexec
      exact hw.later hdocument hclear
  refine of_decide_eq_true (htrue state hstate fun hunreleased => ?_)
  rw [hunreleased _ (List.mem_map_of_mem hlease)] at hreleased
  cases hreleased

/-- Where the document has a release time, the registry has no entry of the run;
    the transactions of other runs meet the condition. -/
theorem released_without_entries (setup : Setup) :
    (∀ cfg : system.Config,
      Machine.Reach (truthfulReleases setup.options.runId) setup.initial cfg →
      ∀ state, cfg.world.state? = some state → ∀ lease ∈ state.leases.ports,
        lease.releasedAtMs.isSome → NoEntries setup.options.runId cfg.world) ∧
    ∀ other ≠ setup.options.runId, ∀ update, Transaction other update →
      (ClientCmd.updateRegistry update).Foreign setup.options.runId :=
  ⟨fun _ h _ hstate _ hlease hreleased =>
      noEntries_of_released setup h hstate hlease hreleased,
    fun _ hother _ h => foreign_of_other hother h⟩

end Procherd

namespace Procherd.Reference

open Interaction

/-- A run with one leased port. -/
def leasing : Setup := { setup idle with options := { options with leasePorts := ["web"] } }

def noSpace : Answer :=
  { fault := some (.io { kind := .other, rawOsError := some 28, message := "No space left on device" }) }

/-- From the creation to the failure to create the log, and the kill of the child. -/
def failLog : List system.Move :=
  steps .start 9 {} ++ steps .supervisor 19 (offering 5000) ++ steps .supervisor 1 noSpace ++
    steps .supervisor 2 {}

/-- A command that no condition on releases forbids. -/
def releasesTruly : (t : Thread) → {β : Type} → t.Cmd β → World → Bool
  | .supervisor, _, .inr (.persistState state), w =>
    decide (NoEntries options.runId w) || !state.exit.any (·.reason = .supervisorFailed)
  | .start, _, .inr (.updateRegistry _), _ => false
  | .client _, _, _, _ => false
  | _, _, _, _ => true

def releasesTrulyNext (cfg : system.Config) (m : system.Move) : Bool :=
  match cfg.thread m.1 with
  | .exec c _ => releasesTruly m.1 c cfg.world
  | _ => true

theorem meets_truthfulReleases (cfg : system.Config) (m : system.Move)
    (h : releasesTrulyNext cfg m) :
    Machine.Meets (M := system) (truthfulReleases options.runId) cfg m := by
  intro β c k hc
  obtain ⟨t, a⟩ := m
  simp only [releasesTrulyNext, hc] at h
  cases t with
  | start =>
    cases c with
    | inl c => trivial
    | inr c =>
      cases c with
      | updateRegistry update => cases h
      | _ => trivial
  | supervisor =>
    cases c with
    | inl c => trivial
    | inr c =>
      cases c with
      | persistState state =>
        intro hfailed old hold hholds
        simp only [releasesTruly, Bool.or_eq_true, Bool.not_eq_true'] at h
        rcases h with hclear | hreason
        · exact hclear
        · rw [hreason] at hfailed
          cases hfailed
      | _ => trivial
  | reader stream => trivial
  | client index => cases h

/-- The log is not created, and `Drop` releases the port. -/
theorem released_without_entries_failed : ∃ (cfg : system.Config) (state : RunState)
    (lease : PortLease), cfg.world.state? = some state ∧ lease ∈ state.leases.ports ∧
      lease.releasedAtMs.isSome ∧ NoEntries options.runId cfg.world := by
  have hrun : (Machine.runChecked releasesTrulyNext leasing.initial
      (failLog ++ steps .supervisor 5 {})).map (fun cfg => cfg.world.state?.map fun state =>
        state.leases.ports.map (·.releasedAtMs.isSome)) = some (some [true]) := by decide +kernel
  obtain ⟨cfg, hcfg, hstate⟩ := Option.map_eq_some_iff.mp hrun
  obtain ⟨state, hstate, hreleased⟩ := Option.map_eq_some_iff.mp hstate
  obtain ⟨lease, hlease, hreleased⟩ := List.mem_map.mp (hreleased ▸ List.mem_singleton_self true)
  exact ⟨cfg, state, lease, hstate, hlease, hreleased, (released_without_entries leasing).1 cfg
    (.of_runChecked meets_truthfulReleases hcfg) state hstate lease hlease hreleased⟩

/-- The log is not created, and `Drop` cannot write the registry either. -/
theorem released_with_entries : ∃ (cfg : system.Config) (state : RunState) (lease : PortLease),
    Machine.Reach system.always leasing.initial cfg ∧ cfg.world.state? = some state ∧
      lease ∈ state.leases.ports ∧ lease.releasedAtMs.isSome ∧
      ¬ NoEntries options.runId cfg.world := by
  have hrun : (Machine.run leasing.initial
      (failLog ++ steps .supervisor 1 noSpace ++ steps .supervisor 4 {})).map
      (fun cfg => (cfg.world.state?.map fun state =>
        state.leases.ports.map (·.releasedAtMs.isSome), decide (NoEntries options.runId cfg.world))) =
      some (some [true], false) := by decide +kernel
  obtain ⟨cfg, hcfg, hresult⟩ := Option.map_eq_some_iff.mp hrun
  obtain ⟨hstate, hentries⟩ := Prod.mk.inj hresult
  obtain ⟨state, hstate, hreleased⟩ := Option.map_eq_some_iff.mp hstate
  obtain ⟨lease, hlease, hreleased⟩ := List.mem_map.mp (hreleased ▸ List.mem_singleton_self true)
  exact ⟨cfg, state, lease, .of_run hcfg, hstate, hlease, hreleased, of_decide_eq_false hentries⟩

end Procherd.Reference
