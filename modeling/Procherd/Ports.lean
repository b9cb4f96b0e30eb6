-- SUMMARY: The port registry that the runs of a state root share: its transactions, crashes and prunings never give one port to two leases.
import Procherd.Reference

/-!
# Ports

All runs of a state root share one registry. A reservation holds the registry
lock from the first liveness test of its pruning to its write; meanwhile the
supervisors of other runs come and go. A supervisor that crashes leaves its
entries behind, and only a later pruning removes them.
-/

namespace Procherd

/-! ## The state root -/

/-- A transaction of `reserve_ports` between its `lock` and its write. -/
structure Reservation where
  runId : String
  names : List String
  /-- The answers of `run_supervisor_active` for the first entries. -/
  answers : List Bool := []
deriving DecidableEq

/-- The answers of a reservation as `prune_stale` asks for them. -/
def Reservation.active (reservation : Reservation) (i : Nat) (_ : String) : Bool :=
  reservation.answers.getD i false

/-- A state root, as far as ports are concerned. -/
structure Root where
  registry : Option PortRegistry := none
  /-- The supervisor of the run holds its `supervisor.lock`. -/
  held : String → Bool := fun _ => false
  /-- The ports that a run has reserved and not released. -/
  leases : String → List ReservedPort := fun _ => []
  /-- The transaction that holds the registry lock. -/
  reservation : Option Reservation := none

inductive RootEvent where
  | acquireLock (runId : String)
  /-- The supervisor of the run ends or crashes. -/
  | closeLock (runId : String)
  | openReservation (runId : String) (names : List String)
  /-- `run_supervisor_active` for the next entry of the pruning. -/
  | testLock (answer : Bool)
  /-- The write of a reservation takes effect. Unless `reported`, its caller sees
      an error nevertheless. -/
  | commit (offers : PortOffers) (reported : Bool)
  | abort
  /-- The write of `release_registry` takes effect. -/
  | release (runId : String)

namespace Root

variable {root root' : Root}

def entries (root : Root) : List PortRegistryEntry := (root.registry.getD .empty).entries

/-- One event, where it is possible. A reservation or a release that fails
    without an effect on the registry is an `abort`, or no event. -/
def step [Toolchain] (root : Root) : RootEvent → Option Root
  | .acquireLock runId =>
    if root.held runId then none
    else some { root with held := Function.update root.held runId true }
  | .closeLock runId =>
    some { root with
      held := Function.update root.held runId false
      leases := Function.update root.leases runId []
      reservation := root.reservation.filter fun reservation => reservation.runId ≠ runId }
  | .openReservation runId names =>
    if root.held runId ∧ root.reservation = none then
      some { root with reservation := some { runId, names } }
    else none
  | .testLock answer =>
    match root.reservation with
    | none => none
    | some reservation =>
      if reservation.answers.length < root.entries.length then
        some { root with reservation := some { reservation with
          answers := reservation.answers ++ [answer] } }
      else none
  | .commit offers reported =>
    match root.reservation with
    | none => none
    | some reservation =>
      if reservation.answers.length < root.entries.length then none
      else
        match updateRegistry root.registry
          (reservePorts reservation.active offers reservation.runId reservation.names) with
        | .error _ => none
        | .ok (reserved, registry) => some { root with
            registry := some registry
            leases := if reported then
                Function.update root.leases reservation.runId
                  (root.leases reservation.runId ++ reserved)
              else root.leases
            reservation := none }
  | .abort => some { root with reservation := none }
  | .release runId =>
    if root.held runId ∧ root.reservation = none then
      match updateRegistry root.registry (releaseEntries runId) with
      | .error _ => none
      | .ok ((), registry) => some { root with
          registry := some registry
          leases := Function.update root.leases runId [] }
    else none

/-- A lock test reports a held lock as held. -/
def truthful (root : Root) : RootEvent → Bool
  | .testLock answer =>
    match root.reservation with
    | none => true
    | some reservation =>
      (root.entries[reservation.answers.length]?).all fun entry => !root.held entry.runId || answer
  | _ => true

/-- No run has ports: the registry has no entries, and nobody accesses it. -/
structure Initial (root : Root) : Prop where
  entries : root.entries = []
  leases : ∀ runId, root.leases runId = []
  reservation : root.reservation = none

/-- What the events of any number of runs lead to. -/
inductive Reach [Toolchain] : Root → Prop where
  | init {root : Root} (h : Initial root) : Reach root
  | step {root root' : Root} {event : RootEvent} (h : Reach root)
      (htruthful : root.truthful event) (hstep : root.step event = some root') : Reach root'

/-- A list of events, as long as they are possible and truthful. -/
def run [Toolchain] (root : Root) : List RootEvent → Option Root
  | [] => some root
  | event :: events =>
    if root.truthful event then (root.step event).bind fun root' => root'.run events else none

theorem Reach.run [Toolchain] {events : List RootEvent} (h : Reach root)
    (hrun : root.run events = some root') : Reach root' := by
  induction events generalizing root with
  | nil => cases hrun; exact h
  | cons event events ih =>
    simp only [Root.run] at hrun
    split at hrun
    · rename_i htruthful
      obtain ⟨next, hstep, hrun⟩ := Option.bind_eq_some_iff.mp hrun
      exact ih (h.step htruthful hstep) hrun
    · cases hrun

/-! ## The invariant -/

/-- A lease has its entry. -/
def HasEntry (root : Root) (runId : String) (lease : ReservedPort) : Prop :=
  ∃ entry ∈ root.entries, entry.runId = runId ∧ entry.reserved = lease

/-- The registry knows the leases of all runs. A run whose supervisor has gone
    has none, and neither has a run of which the running reservation found the
    lock free: it cannot reserve before that reservation ends. -/
structure Registered (root : Root) : Prop where
  ports : (root.entries.map (·.port)).Nodup
  entry : ∀ runId, ∀ lease ∈ root.leases runId, root.HasEntry runId lease
  closed : ∀ runId, root.held runId = false → root.leases runId = []
  owner : ∀ reservation, root.reservation = some reservation → root.held reservation.runId
  tested : ∀ reservation, root.reservation = some reservation →
    ∀ (i : Nat) (entry : PortRegistryEntry), reservation.answers[i]? = some false →
      root.entries[i]? = some entry → root.leases entry.runId = []

namespace Registered

variable {runId : String}

theorem of_initial (h : Initial root) : Registered root where
  ports := by rw [h.entries]; exact .nil
  entry runId lease hlease := by rw [h.leases runId] at hlease; cases hlease
  closed runId _ := h.leases runId
  owner reservation hreservation := by rw [h.reservation] at hreservation; cases hreservation
  tested reservation hreservation := by rw [h.reservation] at hreservation; cases hreservation

/-- An event that leaves the registry and the leases alone. -/
theorem of_frame (h : Registered root) (hregistry : root'.registry = root.registry)
    (hleases : root'.leases = root.leases)
    (hclosed : ∀ runId, root'.held runId = false → root.leases runId = [])
    (howner : ∀ reservation, root'.reservation = some reservation → root'.held reservation.runId)
    (htested : ∀ reservation, root'.reservation = some reservation →
      ∀ (i : Nat) (entry : PortRegistryEntry), reservation.answers[i]? = some false →
        root.entries[i]? = some entry → root.leases entry.runId = []) : Registered root' := by
  have hentries : root'.entries = root.entries := by rw [entries, hregistry]; rfl
  refine ⟨?_, ?_, ?_, howner, ?_⟩
  · rw [hentries]
    exact h.ports
  · intro runId lease hlease
    rw [hleases] at hlease
    obtain ⟨entry, hmem, hentry⟩ := h.entry runId lease hlease
    exact ⟨entry, hentries ▸ hmem, hentry⟩
  · rw [hleases]
    exact hclosed
  · rw [hleases, hentries]
    exact htested

theorem acquireLock (h : Registered root) :
    Registered { root with held := Function.update root.held runId true } := by
  have hheld (other : String) (hother : root.held other) :
      Function.update root.held runId true other = true := by
    rw [Function.update_apply]
    split
    · rfl
    · exact hother
  refine h.of_frame rfl rfl (fun other hother => h.closed other ?_)
    (fun r hr => hheld _ (h.owner r hr)) h.tested
  by_contra hne
  have hkept := hheld other (Bool.eq_true_of_not_eq_false hne)
  exact absurd (hkept.symm.trans hother) (by decide)

/-- The leases of one run go away. -/
theorem dropLeases {registry : Option PortRegistry} {held : String → Bool}
    {reservation : Option Reservation} (h : Registered root)
    (hports : ((registry.getD .empty).entries.map (·.port)).Nodup)
    (hentries : ∀ entry ∈ root.entries, entry.runId ≠ runId →
      entry ∈ (registry.getD .empty).entries)
    (hheld : ∀ other, other ≠ runId → held other = root.held other)
    (hreservation : ∀ r, reservation = some r →
      root.reservation = some r ∧ r.runId ≠ runId ∧ registry = root.registry) :
    Registered { registry, held, leases := Function.update root.leases runId [], reservation } := by
  have hcases (other : String) : Function.update root.leases runId [] other = [] ∨
      other ≠ runId ∧ Function.update root.leases runId [] other = root.leases other := by
    by_cases heq : other = runId
    · exact .inl (heq ▸ Function.update_self ..)
    · exact .inr ⟨heq, Function.update_of_ne heq _ _⟩
  refine ⟨hports, fun other lease hlease => ?_, fun other hother => ?_, fun r hr => ?_,
    fun r hr i entry hi he => ?_⟩
  · obtain hnil | ⟨hne, hsame⟩ := hcases other
    · have hlease : lease ∈ Function.update root.leases runId [] other := hlease
      rw [hnil] at hlease
      cases hlease
    · have hlease : lease ∈ Function.update root.leases runId [] other := hlease
      rw [hsame] at hlease
      obtain ⟨entry, hmem, hrun, hlease⟩ := h.entry other lease hlease
      exact ⟨entry, hentries entry hmem (hrun ▸ hne), hrun, hlease⟩
  · obtain hnil | ⟨hne, hsame⟩ := hcases other
    · exact hnil
    · exact hsame.trans (h.closed other ((hheld other hne).symm.trans hother))
  · obtain ⟨hr, hne, -⟩ := hreservation r hr
    exact (hheld r.runId hne).trans (h.owner r hr)
  · obtain ⟨hold, -, rfl⟩ := hreservation r hr
    obtain hnil | ⟨-, hsame⟩ := hcases entry.runId
    · exact hnil
    · exact hsame.trans (h.tested r hold i entry hi he)

theorem testLock {reservation : Reservation} {answer : Bool} (h : Registered root)
    (hreservation : root.reservation = some reservation)
    (htruthful : root.truthful (.testLock answer)) :
    Registered { root with reservation := some { reservation with
      answers := reservation.answers ++ [answer] } } := by
  refine h.of_frame rfl rfl h.closed (by rintro _ ⟨⟩; exact h.owner reservation hreservation) ?_
  rintro _ ⟨⟩ i entry hi hentry
  obtain hlt | rfl | hgt := Nat.lt_trichotomy i reservation.answers.length
  · rw [List.getElem?_append_left hlt] at hi
    exact h.tested reservation hreservation i entry hi hentry
  · -- The test just made: a free lock is a lock that is not held.
    rw [List.getElem?_concat_length] at hi
    obtain rfl : answer = false := Option.some.inj hi
    apply h.closed
    rw [truthful, hreservation] at htruthful
    simpa [hentry] using htruthful
  · rw [List.getElem?_eq_none (by simp only [List.length_append, List.length_singleton]; omega)] at hi
    cases hi

theorem commit {reservation : Reservation} {offers : PortOffers} {registry : PortRegistry}
    {reserved : List ReservedPort} (reported : Bool) (h : Registered root)
    (hreservation : root.reservation = some reservation)
    (hcomplete : root.entries.length ≤ reservation.answers.length)
    (hreserve : reservePorts reservation.active offers reservation.runId reservation.names
      (root.registry.getD .empty) = .ok (reserved, registry)) :
    Registered { root with
      registry := some registry
      leases := if reported then
          Function.update root.leases reservation.runId (root.leases reservation.runId ++ reserved)
        else root.leases
      reservation := none } := by
  obtain ⟨new, hentries, hreserved, hrun, hports⟩ := reservePorts_spec hreserve h.ports
  -- The pruning keeps the entries of all leases.
  have hold (other : String) (lease : ReservedPort) (hlease : lease ∈ root.leases other) :
      ∃ entry ∈ registry.entries, entry.runId = other ∧ entry.reserved = lease := by
    obtain ⟨entry, hmem, hother, hentry⟩ := h.entry other lease hlease
    refine ⟨entry, ?_, hother, hentry⟩
    rw [hentries]
    apply List.mem_append_left
    obtain ⟨i, hi⟩ := List.mem_iff_getElem?.mp hmem
    apply mem_retainActive hi
    obtain ⟨hlt, -⟩ := List.getElem?_eq_some_iff.mp hi
    cases hanswer : reservation.answers[i]? with
    | none => exact absurd (List.getElem?_eq_none_iff.mp hanswer) (by omega)
    | some answer =>
      cases answer with
      | true => rw [Reservation.active, Nat.zero_add, List.getD_eq_getElem?_getD, hanswer]; rfl
      | false =>
        rw [← hother, h.tested reservation hreservation i entry hanswer hi] at hlease
        cases hlease
  refine ⟨hports, fun other lease hlease => ?_, fun other hother => ?_, nofun, nofun⟩
  · simp only at hlease
    split at hlease
    swap
    · exact hold other lease hlease
    by_cases heq : other = reservation.runId
    · subst heq
      rw [Function.update_self] at hlease
      rcases List.mem_append.mp hlease with hlease | hlease
      · exact hold _ lease hlease
      · rw [hreserved] at hlease
        obtain ⟨entry, hmem, rfl⟩ := List.mem_map.mp hlease
        refine ⟨entry, ?_, hrun entry hmem, rfl⟩
        change entry ∈ registry.entries
        rw [hentries]
        exact List.mem_append_right _ hmem
    · rw [Function.update_of_ne heq] at hlease
      exact hold other lease hlease
  · have hne : other ≠ reservation.runId := by
      rintro rfl
      exact absurd ((h.owner reservation hreservation).symm.trans hother) (by decide)
    simp only
    split
    · rw [Function.update_of_ne hne]
      exact h.closed other hother
    · exact h.closed other hother

theorem step [Toolchain] {event : RootEvent} (h : Registered root)
    (htruthful : root.truthful event) (hstep : root.step event = some root') :
    Registered root' := by
  cases event with
  | acquireLock runId =>
    simp only [Root.step] at hstep
    split at hstep <;> cases hstep
    exact h.acquireLock
  | closeLock runId =>
    cases hstep
    refine h.dropLeases h.ports (fun _ hmem _ => hmem)
      (fun other hne => Function.update_of_ne hne _ _) fun r hr => ?_
    obtain ⟨hr, hne⟩ := Option.filter_eq_some_iff.mp hr
    exact ⟨hr, of_decide_eq_true hne, rfl⟩
  | openReservation runId names =>
    simp only [Root.step] at hstep
    split at hstep <;> cases hstep
    rename_i hopen
    exact h.of_frame rfl rfl h.closed (by rintro _ ⟨⟩; exact hopen.1)
      (by rintro _ ⟨⟩ i _ hi _; cases hi)
  | testLock answer =>
    simp only [Root.step] at hstep
    split at hstep
    · cases hstep
    split at hstep <;> cases hstep
    rename_i reservation hreservation _
    exact h.testLock hreservation htruthful
  | commit offers reported =>
    simp only [Root.step] at hstep
    split at hstep
    · cases hstep
    split at hstep
    · cases hstep
    split at hstep <;> cases hstep
    rename_i reservation hreservation hcomplete _ reserved registry hupdate
    exact h.commit reported hreservation (Nat.le_of_not_lt hcomplete) (updateRegistry_ok hupdate)
  | abort =>
    cases hstep
    exact h.of_frame rfl rfl h.closed nofun nofun
  | release runId =>
    simp only [Root.step] at hstep
    split at hstep
    swap
    · cases hstep
    rename_i hopen
    split at hstep <;> cases hstep
    rename_i registry hupdate
    cases updateRegistry_ok hupdate
    refine h.dropLeases (h.ports.sublist (List.filter_sublist.map _)) (fun entry hmem hne => ?_)
      (fun _ _ => rfl) fun r hr => ?_
    · exact List.mem_filter.mpr ⟨hmem, decide_eq_true hne⟩
    · rw [hopen.2] at hr
      cases hr

end Registered

theorem Reach.registered [Toolchain] (h : Reach root) : Registered root := by
  induction h with
  | init h => exact .of_initial h
  | step _ htruthful hstep ih => exact ih.step htruthful hstep

/-! ## Exclusivity -/

/-- No two leases of running supervisors have the same port. -/
structure Exclusive (root : Root) : Prop where
  ports : (root.entries.map (·.port)).Nodup
  entry : ∀ runId, root.held runId → ∀ lease ∈ root.leases runId, root.HasEntry runId lease
  distinct : ∀ runId runId', root.held runId → root.held runId' →
    ∀ lease ∈ root.leases runId, ∀ lease' ∈ root.leases runId',
      (runId, lease.name) ≠ (runId', lease'.name) → lease.port ≠ lease'.port

theorem Registered.exclusive (h : Registered root) : Exclusive root where
  ports := h.ports
  entry runId _ := h.entry runId
  distinct runId runId' _ _ lease hlease lease' hlease' hne := by
    obtain ⟨entry, hmem, rfl, rfl⟩ := h.entry runId lease hlease
    obtain ⟨entry', hmem', rfl, rfl⟩ := h.entry runId' lease' hlease'
    intro hport
    have heq : entry = entry' := List.inj_on_of_nodup_map h.ports hmem hmem' hport
    exact hne (heq ▸ rfl)

/-- At every moment the ports of running supervisors are exclusive. -/
theorem ports_exclusive [Toolchain] (h : Reach root) : Exclusive root :=
  h.registered.exclusive

end Root

end Procherd

namespace Procherd.Reference

/-- The system offers these ports in turn. -/
def offers (ports : List Nat) : PortOffers := { bind := fun i => .ok (ports.getD i 0) }

def otherRunId : String := "run_01BX5ZZKBKACTAV9WEVGEMMVRZ"

/-- A run crashes, another one prunes its entry and takes over its port, and the
    first is offered a port that is taken. -/
def takeOver : List RootEvent :=
  [.acquireLock otherRunId, .openReservation otherRunId ["http"], .commit (offers [8080]) true,
    .closeLock otherRunId, .acquireLock options.runId,
    .openReservation options.runId ["http", "admin"], .testLock false,
    .commit (offers [8080, 8080, 8081]) true, .acquireLock otherRunId,
    .openReservation otherRunId ["http"], .testLock true, .testLock true,
    .commit (offers [8081, 8082]) true]

theorem ports_exclusive_takeOver : ∃ root : Root,
    root.leases options.runId = [⟨"http", 8080⟩, ⟨"admin", 8081⟩] ∧
    root.leases otherRunId = [⟨"http", 8082⟩] ∧ root.Exclusive := by
  have hrun : (Root.run {} takeOver).map
      (fun root => (root.leases options.runId, root.leases otherRunId)) =
      some ([⟨"http", 8080⟩, ⟨"admin", 8081⟩], [⟨"http", 8082⟩]) := by decide +kernel
  obtain ⟨root, hroot, hleases⟩ := Option.map_eq_some_iff.mp hrun
  have hinit : Root.Reach {} := .init ⟨rfl, fun _ => rfl, rfl⟩
  exact ⟨root, congrArg Prod.fst hleases, congrArg Prod.snd hleases,
    Root.ports_exclusive (hinit.run hroot)⟩

end Procherd.Reference
