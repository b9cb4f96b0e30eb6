-- SUMMARY: Named leases (`leases.rs`): request validation, the port registry and its transactions, and what a lease puts into the state.
import Procherd.Toolchain
import Mathlib.Data.List.Forall2

/-!
# Leases

The registry is a document shared by all runs of a state root. Every access is
one transaction under the registry lock: read, check, update, write back. What
the operating system decides in a transaction (the ports it offers, the locks it
reports held) is a parameter of the pure functions here.
-/

namespace Procherd

def REGISTRY_SCHEMA : String := "procherd.port-leases.v1"
def MAX_LEASES_PER_KIND : Nat := 16
def MAX_ALLOCATION_ATTEMPTS : Nat := 128

/-! ## Ordered maps

A `BTreeMap` keyed by strings is the list of its entries in key order. -/

abbrev BTreeMap (α : Type) := List (String × α)

namespace BTreeMap

variable {α : Type}

def insert (key : String) (value : α) : BTreeMap α → BTreeMap α
  | [] => [(key, value)]
  | (k, v) :: rest =>
    if key = k then (key, value) :: rest
    else if key < k then (key, value) :: (k, v) :: rest
    else (k, v) :: insert key value rest

/-- `collect::<BTreeMap<_, _>>()`. -/
def ofList (entries : List (String × α)) : BTreeMap α :=
  entries.foldl (fun map entry => insert entry.1 entry.2 map) []

def get? (map : BTreeMap α) (key : String) : Option α :=
  (map.find? fun entry => entry.1 = key).map Prod.snd

end BTreeMap

/-- `sort_unstable` followed by `dedup`. -/
def sortDedup (names : List String) : List String :=
  (BTreeMap.ofList (names.map fun name => (name, ()))).map Prod.fst

/-! ## Run identifiers

`canonical_run_id` of `store.rs`, which the registry checks too. -/

def canonicalRunId [Toolchain] (runId : String) : Except AppError String :=
  if "run_".toList.isPrefixOf runId.toList then
    let suffix := String.ofList (runId.toList.drop 4)
    let malformed := AppError.usage "run ID must contain a canonical 26-character uppercase ULID"
    match Toolchain.parseUlid suffix with
    | none => .error malformed
    | some parsed =>
      let canonical := "run_" ++ Toolchain.displayUlid parsed
      if suffix.utf8ByteSize ≠ 26 ∨ canonical ≠ runId then .error malformed else .ok canonical
  else .error (.usage "run ID must start with run_")

theorem canonicalRunId_eq [Toolchain] {runId canonical : String}
    (h : canonicalRunId runId = .ok canonical) : canonical = runId := by
  unfold canonicalRunId at h
  simp only at h
  split at h
  · split at h
    · cases h
    · split at h
      · cases h
      · rename_i hne
        cases h
        exact Decidable.not_not.mp (not_or.mp hne).2
  · cases h

theorem canonicalRunId_error [Toolchain] {runId : String} {e : AppError}
    (h : canonicalRunId runId = .error e) : e.kind = "usage" := by
  simp only [canonicalRunId] at h
  repeat' split at h
  all_goals cases h
  all_goals rfl

/-! ## Names -/

def lowercase (byte : UInt8) : Bool := 97 ≤ byte && byte ≤ 122

def validName (name : String) : Bool :=
  let bytes := (OsString.ofString name).bytes
  decide (1 ≤ bytes.length ∧ bytes.length ≤ 32) && bytes.head?.any lowercase &&
    bytes.all fun byte => lowercase byte || (48 ≤ byte && byte ≤ 57) || byte == 95 || byte == 45

def validateNames [Toolchain] : List String → Except AppError Unit :=
  go []
where
  go (unique : List String) : List String → Except AppError Unit
    | [] => .ok ()
    | name :: rest =>
      if !validName name then
        .error (.usage ("invalid lease name " ++ Toolchain.debugStr name ++
          "; use 1-32 lowercase ASCII letters, digits, _ or -, starting with a letter"))
      else if name ∈ unique then
        .error (.usage ("duplicate lease name " ++ Toolchain.debugStr name))
      else go (name :: unique) rest

def validateRequests [Toolchain] (portNames tempDirectoryNames : List String) :
    Except AppError LeaseRequests := do
  if MAX_LEASES_PER_KIND < portNames.length ∨ MAX_LEASES_PER_KIND < tempDirectoryNames.length then
    throw (.usage ("at most 16 port and 16 temporary-directory leases may be requested"))
  validateNames portNames
  validateNames tempDirectoryNames
  return { portNames, tempDirectoryNames }

theorem validateNames_error [Toolchain] {names : List String} {e : AppError}
    (h : validateNames names = .error e) : e.kind = "usage" := by
  suffices hgo : ∀ unique, validateNames.go unique names = .error e → e.kind = "usage" from hgo [] h
  clear h
  induction names with
  | nil => exact fun _ h => nomatch h
  | cons name rest ih =>
    intro unique h
    rw [validateNames.go] at h
    split at h
    · exact congrArg AppError.kind (Except.error.inj h).symm
    split at h
    · exact congrArg AppError.kind (Except.error.inj h).symm
    · exact ih _ h

theorem validateRequests_error [Toolchain] {portNames tempDirectoryNames : List String}
    {e : AppError}
    (h : validateRequests portNames tempDirectoryNames = .error e) : e.kind = "usage" := by
  simp only [validateRequests, bind, Except.bind, throw, throwThe, MonadExceptOf.throw, pure,
    Except.pure] at h
  repeat' split at h
  all_goals cases h
  all_goals first
    | rfl
    | (rename_i hnames; exact validateNames_error hnames)

/-! ## The port registry -/

structure PortRegistryEntry where
  runId : String
  name : String
  port : Nat
  acquiredAtMs : Nat
deriving DecidableEq

structure PortRegistry where
  schemaVersion : String
  entries : List PortRegistryEntry
deriving DecidableEq

def PortRegistry.empty : PortRegistry := { schemaVersion := REGISTRY_SCHEMA, entries := [] }

def validateRegistry [Toolchain] (registry : PortRegistry) : Except AppError Unit :=
  registry.entries.forM fun entry => do
    match canonicalRunId entry.runId with
    | .error _ =>
      throw (.integrity ("port lease registry contains invalid run ID " ++
        Toolchain.debugStr entry.runId))
    | .ok _ =>
      if !validName entry.name then
        throw (.integrity ("port lease registry contains invalid lease name " ++
          Toolchain.debugStr entry.name))

/-- The locked part of `update_registry`, up to the write: the document to write
    back and what the update returns. `disk` is the document on disk, if any. -/
def updateRegistry [Toolchain] {α : Type} (disk : Option PortRegistry)
    (update : PortRegistry → Except AppError (α × PortRegistry)) :
    Except AppError (α × PortRegistry) := do
  let registry := disk.getD .empty
  if registry.schemaVersion ≠ REGISTRY_SCHEMA then
    throw (.integrity ("unsupported port lease registry schema " ++ registry.schemaVersion))
  validateRegistry registry
  update registry

/-- The entries that `prune_stale` retains, where `active i` is the answer of the
    `i`-th call of `run_supervisor_active`. -/
def retainActive (active : Nat → String → Bool) : Nat → List PortRegistryEntry →
    List PortRegistryEntry
  | _, [] => []
  | i, entry :: rest =>
    if active i entry.runId then entry :: retainActive active (i + 1) rest
    else retainActive active (i + 1) rest

def pruneStale (active : Nat → String → Bool) (registry : PortRegistry) : PortRegistry :=
  { registry with entries := retainActive active 0 registry.entries }

structure ReservedPort where
  name : String
  port : Nat
deriving DecidableEq

/-- What the system answers to the successive `TcpListener::bind` calls of one
    transaction, and to its `now_ms` calls. -/
structure PortOffers where
  bind : Nat → Except IoError Nat := fun _ => .ok 0
  clock : Nat → Nat := fun _ => 0

/-- The attempts for one name, from the `i`-th bind on. -/
def allocatePort (offers : PortOffers) (unavailable : List Nat) :
    Nat → Nat → Except AppError (Nat × Nat)
  | 0, _ =>
    .error (.operational "port_lease"
      "could not find a free port outside the ProcHerd lease registry")
  | attempts + 1, i =>
    match offers.bind i with
    | .error e => .error (.ofIo e)
    | .ok port =>
      if port ∈ unavailable then allocatePort offers unavailable attempts (i + 1)
      else .ok (port, i + 1)

/-- The loop of `reserve_ports` over the names. -/
def reserveNames (offers : PortOffers) (runId : String) :
    List String → List Nat → Nat → Nat → List PortRegistryEntry → List ReservedPort →
      Except AppError (List ReservedPort × List PortRegistryEntry)
  | [], _, _, _, entries, reserved => .ok (reserved, entries)
  | name :: rest, unavailable, i, k, entries, reserved =>
    match allocatePort offers unavailable MAX_ALLOCATION_ATTEMPTS i with
    | .error e => .error e
    | .ok (port, i') =>
      let entry := { runId, name, port, acquiredAtMs := offers.clock k }
      reserveNames offers runId rest (port :: unavailable) i' (k + 1) (entries ++ [entry])
        (reserved ++ [{ name, port }])

/-- The update closure of `reserve_ports`. -/
def reservePorts (active : Nat → String → Bool) (offers : PortOffers) (runId : String)
    (names : List String) (registry : PortRegistry) :
    Except AppError (List ReservedPort × PortRegistry) := do
  let registry := pruneStale active registry
  let unavailable := registry.entries.map (·.port)
  let (reserved, entries) ← reserveNames offers runId names unavailable 0 0 registry.entries []
  return (reserved, { registry with entries })

/-- The update closure of `release_registry`. -/
def releaseEntries (runId : String) (registry : PortRegistry) :
    Except AppError (Unit × PortRegistry) :=
  .ok ((), { registry with entries := registry.entries.filter fun entry => entry.runId ≠ runId })

/-! What a transaction does to the entries. -/

theorem updateRegistry_ok [Toolchain] {α : Type} {disk : Option PortRegistry}
    {update : PortRegistry → Except AppError (α × PortRegistry)} {r : α × PortRegistry}
    (h : updateRegistry disk update = .ok r) : update (disk.getD .empty) = .ok r := by
  simp only [updateRegistry, bind, Except.bind, throw, throwThe, MonadExceptOf.throw] at h
  repeat' split at h
  all_goals first
    | exact h
    | cases h

theorem retainActive_sublist (active : Nat → String → Bool) (i : Nat)
    (entries : List PortRegistryEntry) : (retainActive active i entries).Sublist entries := by
  induction entries generalizing i with
  | nil => exact .slnil
  | cons entry rest ih =>
    rw [retainActive]
    split
    · exact (ih (i + 1)).cons_cons entry
    · exact (ih (i + 1)).cons entry

theorem mem_retainActive {active : Nat → String → Bool} {i j : Nat}
    {entries : List PortRegistryEntry} {entry : PortRegistryEntry}
    (hentry : entries[j]? = some entry) (hactive : active (i + j) entry.runId) :
    entry ∈ retainActive active i entries := by
  induction entries generalizing i j with
  | nil => cases hentry
  | cons first rest ih =>
    rw [retainActive]
    cases j with
    | zero =>
      obtain rfl : first = entry := Option.some.inj hentry
      rw [if_pos (show active i first.runId from hactive)]
      exact List.mem_cons_self
    | succ j =>
      have hrest : entry ∈ retainActive active (i + 1) rest :=
        ih hentry (by rwa [show i + 1 + j = i + (j + 1) by omega])
      split
      · exact List.mem_cons_of_mem _ hrest
      · exact hrest

theorem allocatePort_fresh {offers : PortOffers} {unavailable : List Nat} {attempts i i' : Nat}
    {port : Nat} (h : allocatePort offers unavailable attempts i = .ok (port, i')) :
    port ∉ unavailable := by
  induction attempts generalizing i with
  | zero => cases h
  | succ attempts ih =>
    rw [allocatePort] at h
    split at h
    · cases h
    split at h
    · exact ih h
    · rename_i hfree
      cases h
      exact hfree

/-- The port that an entry is about. -/
def PortRegistryEntry.reserved (entry : PortRegistryEntry) : ReservedPort :=
  { name := entry.name, port := entry.port }

/-- `reserve_ports` appends one entry for each port that it returns, and keeps
    the ports of all entries distinct. -/
theorem reserveNames_spec {offers : PortOffers} {runId : String} {names : List String}
    {unavailable : List Nat} {i k : Nat} {entries entries' : List PortRegistryEntry}
    {reserved reserved' : List ReservedPort}
    (h : reserveNames offers runId names unavailable i k entries reserved = .ok (reserved', entries'))
    (hused : ∀ entry ∈ entries, entry.port ∈ unavailable)
    (hports : (entries.map (·.port)).Nodup) :
    ∃ new, entries' = entries ++ new ∧ reserved' = reserved ++ new.map (·.reserved) ∧
      (∀ entry ∈ new, entry.runId = runId) ∧ (entries'.map (·.port)).Nodup := by
  induction names generalizing unavailable i k entries reserved with
  | nil =>
    cases h
    exact ⟨[], (List.append_nil _).symm, (List.append_nil _).symm, nofun, hports⟩
  | cons name rest ih =>
    rw [reserveNames] at h
    split at h
    · cases h
    rename_i port i' hport
    let entry : PortRegistryEntry := { runId, name, port, acquiredAtMs := offers.clock k }
    have hfresh : port ∉ entries.map (·.port) := by
      intro hmem
      obtain ⟨old, hold, rfl⟩ := List.mem_map.mp hmem
      exact allocatePort_fresh hport (hused old hold)
    have hused' : ∀ old ∈ entries ++ [entry], old.port ∈ port :: unavailable := by
      intro old hold
      rcases List.mem_append.mp hold with hold | hold
      · exact List.mem_cons_of_mem _ (hused old hold)
      · rw [List.mem_singleton.mp hold]
        exact List.mem_cons_self
    have hports' : ((entries ++ [entry]).map (·.port)).Nodup := by
      rw [List.map_append]
      refine List.nodup_append.mpr ⟨hports, List.pairwise_singleton _ port, ?_⟩
      rintro used hmem _ hnew rfl
      rw [List.mem_singleton.mp hnew] at hmem
      exact hfresh hmem
    obtain ⟨new, hentries, hreserved, hrun, hnodup⟩ := ih h hused' hports'
    refine ⟨entry :: new, ?_, ?_, List.forall_mem_cons.mpr ⟨rfl, hrun⟩, hnodup⟩
    · rw [hentries, List.append_assoc, List.singleton_append]
    · rw [hreserved, List.append_assoc, List.singleton_append]
      rfl

theorem reservePorts_spec {active : Nat → String → Bool} {offers : PortOffers} {runId : String}
    {names : List String} {registry registry' : PortRegistry} {reserved : List ReservedPort}
    (h : reservePorts active offers runId names registry = .ok (reserved, registry'))
    (hports : (registry.entries.map (·.port)).Nodup) :
    ∃ new, registry'.entries = retainActive active 0 registry.entries ++ new ∧
      reserved = new.map (·.reserved) ∧ (∀ entry ∈ new, entry.runId = runId) ∧
      (registry'.entries.map (·.port)).Nodup := by
  simp only [reservePorts, bind, Except.bind] at h
  split at h
  · cases h
  rename_i result hresult
  cases h
  exact reserveNames_spec hresult (fun entry hentry => List.mem_map_of_mem hentry)
    (hports.sublist ((retainActive_sublist active 0 registry.entries).map _))

/-! ## Placeholders -/

def replaceChars (pattern replacement : List Char) : Nat → List Char → List Char
  | _, [] => []
  | skip + 1, _ :: rest => replaceChars pattern replacement skip rest
  | 0, c :: rest =>
    if pattern.isPrefixOf (c :: rest) then
      replacement ++ replaceChars pattern replacement (pattern.length - 1) rest
    else c :: replaceChars pattern replacement 0 rest

/-- `str::replace` with a nonempty pattern. -/
def replaceAll (text pattern replacement : String) : String :=
  String.ofList (replaceChars pattern.toList replacement.toList 0 text.toList)

def containsChars (pattern : List Char) : List Char → Bool
  | [] => pattern.isEmpty
  | c :: rest => pattern.isPrefixOf (c :: rest) || containsChars pattern rest

/-- `str::contains` with a string pattern. -/
def containsText (text pattern : String) : Bool := containsChars pattern.toList text.toList

def portPlaceholder (name : String) : String := "\x7bport:" ++ name ++ "\x7d"
def tempPlaceholder (name : String) : String := "\x7btemp:" ++ name ++ "\x7d"

/-- `normalize_verbatim_path_separators`: slashes after the first verbatim path
    prefix become backslashes. -/
def normalizeVerbatimPathSeparators (value : String) : String :=
  String.ofList (go value.toList)
where
  go : List Char → List Char
    | [] => []
    | c :: rest =>
      if ['\\', '\\', '?', '\\'].isPrefixOf (c :: rest) then
        (c :: rest).map fun d => if d = '/' then '\\' else d
      else c :: go rest

def replacePlaceholders [Toolchain] (value : String) (ports tempDirectories : BTreeMap String) :
    Except AppError String :=
  let containsTempPlaceholder :=
    tempDirectories.any fun entry => containsText value (tempPlaceholder entry.1)
  let result := ports.foldl (fun text entry =>
    replaceAll text (portPlaceholder entry.1) entry.2) value
  let result := tempDirectories.foldl (fun text entry =>
    replaceAll text (tempPlaceholder entry.1) entry.2) result
  let result :=
    if Toolchain.platform = .windows ∧ containsTempPlaceholder then
      normalizeVerbatimPathSeparators result
    else result
  if containsText result "\x7bport:" || containsText result "\x7btemp:" then
    .error (.usage ("argument contains an unknown or unterminated lease placeholder: " ++ value))
  else .ok result

def environmentName (kind name : String) : String :=
  let normalized := name.toList.map fun c => (if c = '-' then '_' else c).toUpper
  "PROCHERD_" ++ kind ++ "_" ++ String.ofList normalized

/-! ## Allocations -/

structure LeaseAllocation where
  runId : String
  ports : List ReservedPort
  environment : List (String × OsString) := []
  registryReleased : Bool := false
deriving DecidableEq

/-- The lease of a port, filled in from its reservation. -/
def PortLease.acquire (lease : PortLease) (reserved : ReservedPort) (acquiredAtMs : Nat) :
    PortLease :=
  { lease with
    address := some ("127.0.0.1:" ++ toString reserved.port)
    port := some reserved.port
    acquiredAtMs := some acquiredAtMs }

def TempDirectoryLease.acquire (lease : TempDirectoryLease) (path : PathBuf)
    (acquiredAtMs : Nat) : TempDirectoryLease :=
  { lease with path := some path, acquiredAtMs := some acquiredAtMs }

namespace LeaseAllocation

def populatePorts (ports : List ReservedPort) (acquiredAtMs : Nat) (leases : List PortLease) :
    Except AppError (List (PortLease × String × OsString)) :=
  leases.mapM fun lease =>
    match ports.find? fun reserved => reserved.name = lease.name with
    | none => .error (.integrity "port lease state does not match requests")
    | some reserved =>
      .ok (lease.acquire reserved acquiredAtMs, environmentName "PORT" lease.name,
        .ofString (toString reserved.port))

def populateTemps (tempPaths : BTreeMap PathBuf) (acquiredAtMs : Nat)
    (leases : List TempDirectoryLease) :
    Except AppError (List (TempDirectoryLease × String × OsString)) :=
  leases.mapM fun lease =>
    match tempPaths.get? lease.name with
    | none => .error (.integrity "temporary-directory lease state does not match requests")
    | some path => .ok (lease.acquire path acquiredAtMs, environmentName "TEMP" lease.name, path)

/-- Resolve a check that names a leased port into a TCP check. -/
def resolveCheck (portValues : BTreeMap String) (check : ReadinessCheck) :
    Except AppError ReadinessCheck :=
  match check.condition with
  | .portLease name =>
    match portValues.get? name with
    | none => .error (.integrity ("readiness references unknown port lease " ++ name))
    | some port => .ok { check with condition := .tcp ("127.0.0.1:" ++ port) }
  | _ => .ok check

/-- `populate_state`: the state with its leases, arguments and checks resolved,
    and the environment to inject. -/
def populateState [Toolchain] (ports : List ReservedPort) (state : RunState)
    (acquiredAtMs : Nat) (tempPaths : BTreeMap PathBuf) :
    Except AppError (RunState × List (String × OsString)) := do
  let portValues := BTreeMap.ofList
    (ports.map fun reserved => (reserved.name, toString reserved.port))
  let tempValues ← tempPaths.mapM fun entry =>
    match entry.2.toStr with
    | some value => Except.ok (entry.1, value)
    | none =>
      .error (.operational "lease_path"
        ("temporary lease path is not UTF-8: " ++ Toolchain.displayPath entry.2))
  let portLeases ← populatePorts ports acquiredAtMs state.leases.ports
  let tempLeases ← populateTemps tempPaths acquiredAtMs state.leases.tempDirectories
  let environment := portLeases.map (·.2) ++ tempLeases.map (·.2)
  let args ← state.command.args.mapM fun argument =>
    replacePlaceholders argument portValues tempValues
  let checks ← state.readiness.checks.mapM (resolveCheck portValues)
  let injectedNames := sortDedup
    (state.command.environment.injectedNames ++ environment.map Prod.fst)
  return ({ state with
    leases := { ports := portLeases.map (·.1), tempDirectories := tempLeases.map (·.1) }
    command := { state.command with
      args, environment := { state.command.environment with injectedNames } }
    readiness := { state.readiness with checks } }, environment)

theorem populateState_frame [Toolchain] {ports : List ReservedPort} {state state' : RunState}
    {acquiredAtMs : Nat} {tempPaths : BTreeMap PathBuf} {environment : List (String × OsString)}
    (h : populateState ports state acquiredAtMs tempPaths = .ok (state', environment)) :
    state' = { state with
      leases := state'.leases, command := state'.command, readiness := state'.readiness } := by
  simp only [populateState, bind, Except.bind] at h
  repeat' split at h
  all_goals cases h
  rfl

/-- `iter_mut().find(..)` over the leases: the first one of the name is changed. -/
def setHandoff (name : String) (handoffAtMs : Nat) : List PortLease → List PortLease
  | [] => []
  | lease :: rest =>
    if lease.name = name then { lease with handoffAtMs := some handoffAtMs } :: rest
    else lease :: setHandoff name handoffAtMs rest

/-- The state part of `handoff`. -/
def handoffAt (allocation : LeaseAllocation) (handoffAtMs : Nat) (state : RunState) : RunState :=
  { state with leases := { state.leases with
      ports := allocation.ports.foldl
        (fun leases reserved => setHandoff reserved.name handoffAtMs leases)
        state.leases.ports } }

end LeaseAllocation

/-- `record_spawn`. -/
def recordSpawn (spawnedAtMs : Nat) (state : RunState) : RunState :=
  { state with leases := { state.leases with
      ports := state.leases.ports.map fun lease =>
        match lease.handoffAtMs with
        | some handoff => { lease with handoffGapMs := some (spawnedAtMs - handoff) }
        | none => lease } }

/-- The state part of `release`. -/
def releaseAt (releasedAtMs : Nat) (state : RunState) : RunState :=
  { state with leases :=
      { ports := state.leases.ports.map fun lease =>
          { lease with releasedAtMs := some releasedAtMs }
        tempDirectories := state.leases.tempDirectories.map fun lease =>
          { lease with releasedAtMs := some releasedAtMs } } }

/-! ## What populating, handing off and releasing keep -/

/-- What a fallible map over a list has done to each element. -/
theorem forall₂_of_mapM {ε α β : Type} {f : α → Except ε β} {xs : List α} {ys : List β}
    (h : xs.mapM f = .ok ys) : List.Forall₂ (fun x y => f x = .ok y) xs ys := by
  induction xs generalizing ys with
  | nil =>
    rw [List.mapM_nil] at h
    cases h
    exact .nil
  | cons x xs ih =>
    rw [List.mapM_cons] at h
    cases hx : f x with
    | error e => rw [hx] at h; cases h
    | ok y =>
      rw [hx] at h
      cases hxs : xs.mapM f with
      | error e => rw [hxs] at h; cases h
      | ok rest =>
        rw [hxs] at h
        cases h
        exact .cons hx (ih hxs)

theorem map_eq_of_forall₂ {α β γ : Type} {R : α → β → Prop} {f : α → γ} {g : β → γ}
    (hR : ∀ x y, R x y → g y = f x) {xs : List α} {ys : List β} (h : List.Forall₂ R xs ys) :
    ys.map g = xs.map f := by
  induction h with
  | nil => rfl
  | cons hhead _ ih => rw [List.map_cons, List.map_cons, hR _ _ hhead, ih]

theorem mem_right_of_forall₂ {α β : Type} {R : α → β → Prop} {xs : List α} {ys : List β}
    (h : List.Forall₂ R xs ys) {y : β} (hy : y ∈ ys) : ∃ x ∈ xs, R x y := by
  induction h with
  | nil => cases hy
  | cons hhead _ ih =>
    rcases List.mem_cons.mp hy with rfl | hy
    · exact ⟨_, List.mem_cons_self, hhead⟩
    · obtain ⟨x, hx, hxy⟩ := ih hy
      exact ⟨x, List.mem_cons_of_mem _ hx, hxy⟩

def LeaseState.names (leases : LeaseState) : List String × List String :=
  (leases.ports.map (·.name), leases.tempDirectories.map (·.name))

namespace LeaseAllocation

theorem setHandoff_names (name : String) (handoffAtMs : Nat) (leases : List PortLease) :
    (setHandoff name handoffAtMs leases).map (·.name) = leases.map (·.name) := by
  induction leases with
  | nil => rfl
  | cons lease rest ih =>
    unfold setHandoff
    split
    · rfl
    · rw [List.map_cons, List.map_cons, ih]

theorem handoffAt_names (allocation : LeaseAllocation) (handoffAtMs : Nat) (state : RunState) :
    (allocation.handoffAt handoffAtMs state).leases.names = state.leases.names := by
  have hports (reserved : List ReservedPort) (leases : List PortLease) :
      (reserved.foldl (fun leases reserved => setHandoff reserved.name handoffAtMs leases)
        leases).map (·.name) = leases.map (·.name) := by
    induction reserved generalizing leases with
    | nil => rfl
    | cons _ rest ih => rw [List.foldl_cons, ih, setHandoff_names]
  exact Prod.ext (hports _ _) rfl

theorem populatePorts_names {ports : List ReservedPort} {acquiredAtMs : Nat}
    {leases : List PortLease} {populated : List (PortLease × String × OsString)}
    (h : populatePorts ports acquiredAtMs leases = .ok populated) :
    populated.map (·.1.name) = leases.map (·.name) := by
  refine map_eq_of_forall₂ (fun lease entry hlease => ?_) (forall₂_of_mapM h)
  split at hlease <;> cases hlease
  rfl

theorem populateTemps_names {tempPaths : BTreeMap PathBuf} {acquiredAtMs : Nat}
    {leases : List TempDirectoryLease} {populated : List (TempDirectoryLease × String × OsString)}
    (h : populateTemps tempPaths acquiredAtMs leases = .ok populated) :
    populated.map (·.1.name) = leases.map (·.name) := by
  refine map_eq_of_forall₂ (fun lease entry hlease => ?_) (forall₂_of_mapM h)
  split at hlease <;> cases hlease
  rfl

theorem populateState_names [Toolchain] {ports : List ReservedPort} {state state' : RunState}
    {acquiredAtMs : Nat} {tempPaths : BTreeMap PathBuf} {environment : List (String × OsString)}
    (h : populateState ports state acquiredAtMs tempPaths = .ok (state', environment)) :
    state'.leases.names = state.leases.names := by
  simp only [populateState, bind, Except.bind] at h
  split at h
  · cases h
  split at h
  · cases h
  rename_i portLeases hports
  split at h
  · cases h
  rename_i tempLeases htemps
  repeat' split at h
  all_goals cases h
  simp only [LeaseState.names, List.map_map]
  exact Prod.ext (populatePorts_names hports) (populateTemps_names htemps)

/-- A check of which the port lease, if it names one, is resolved. -/
theorem populateState_checks [Toolchain] {ports : List ReservedPort} {state state' : RunState}
    {acquiredAtMs : Nat} {tempPaths : BTreeMap PathBuf} {environment : List (String × OsString)}
    (h : populateState ports state acquiredAtMs tempPaths = .ok (state', environment)) :
    state'.readiness = { state.readiness with checks := state'.readiness.checks } ∧
      ∃ portValues, List.Forall₂ (fun check check' => resolveCheck portValues check = .ok check')
        state.readiness.checks state'.readiness.checks := by
  simp only [populateState, bind, Except.bind] at h
  repeat' split at h
  all_goals cases h
  rename_i checks hchecks
  exact ⟨rfl, _, forall₂_of_mapM hchecks⟩

end LeaseAllocation

theorem recordSpawn_names (spawnedAtMs : Nat) (state : RunState) :
    (recordSpawn spawnedAtMs state).leases.names = state.leases.names := by
  refine Prod.ext ?_ rfl
  simp only [LeaseState.names, recordSpawn, List.map_map]
  refine List.map_congr_left fun lease _ => ?_
  simp only [Function.comp_apply]
  split <;> rfl

theorem releaseAt_names (releasedAtMs : Nat) (state : RunState) :
    (releaseAt releasedAtMs state).leases.names = state.leases.names := by
  simp only [LeaseState.names, releaseAt, List.map_map]
  rfl

end Procherd
