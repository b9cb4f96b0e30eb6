-- SUMMARY: Delivery of leases: a run gets each leased resource under an environment variable of its own unless two names differ only in `-` and `_`.
import Procherd.Reference
import Procherd.Supervisor
import Mathlib.Data.String.Basic

/-!
# Delivery of leases

`acquire` passes every leased port and directory to the child in an environment
variable. The names of the leases are distinct, but `environment_name` folds `-`
into `_`: two leases of one kind can have one variable.
-/

namespace Procherd

/-! ## Ordered maps -/

namespace BTreeMap

variable {α : Type} {key : String} {value : α} {map : BTreeMap α}

def keys (map : BTreeMap α) : List String := map.map Prod.fst

def Sorted (map : BTreeMap α) : Prop := map.keys.Pairwise (· < ·)

theorem mem_keys_insert {k : String} : k ∈ (insert key value map).keys ↔ k = key ∨ k ∈ map.keys := by
  induction map with
  | nil => simp [insert, keys]
  | cons entry rest ih =>
    simp only [keys, insert] at ih ⊢
    split
    · rename_i heq
      simp [heq]
    split
    · simp
    · simp only [List.map_cons, List.mem_cons, ih]
      tauto

theorem Sorted.insert (h : map.Sorted) : (BTreeMap.insert key value map).Sorted := by
  induction map with
  | nil => exact List.pairwise_singleton _ _
  | cons entry rest ih =>
    have ⟨hfirst, hrest⟩ := List.pairwise_cons.mp h
    rw [BTreeMap.insert]
    split
    · rename_i heq
      exact List.pairwise_cons.mpr ⟨heq ▸ hfirst, hrest⟩
    split
    · rename_i hlt
      refine List.pairwise_cons.mpr ⟨fun k hk => ?_, h⟩
      rcases List.mem_cons.mp hk with rfl | hk
      · exact hlt
      · exact hlt.trans (hfirst k hk)
    · rename_i hne hle
      refine List.pairwise_cons.mpr ⟨fun k hk => ?_, ih hrest⟩
      rcases mem_keys_insert.mp hk with rfl | hk
      · exact lt_of_le_of_ne (not_lt.mp hle) (Ne.symm hne)
      · exact hfirst k hk

theorem sorted_ofList (entries : List (String × α)) : (ofList entries).Sorted := by
  suffices h : ∀ map : BTreeMap α, map.Sorted →
      (entries.foldl (fun map entry => insert entry.1 entry.2 map) map).Sorted from h [] .nil
  induction entries with
  | nil => exact fun _ => id
  | cons entry rest ih => exact fun map hmap => ih _ hmap.insert

theorem mem_keys_ofList {entries : List (String × α)} {k : String} :
    k ∈ (ofList entries).keys ↔ k ∈ entries.map Prod.fst := by
  suffices h : ∀ map : BTreeMap α,
      k ∈ (entries.foldl (fun map entry => insert entry.1 entry.2 map) map).keys ↔
        k ∈ entries.map Prod.fst ∨ k ∈ map.keys by
    exact (h []).trans (or_iff_left List.not_mem_nil)
  induction entries with
  | nil => simp
  | cons entry rest ih =>
    intro map
    rw [List.foldl_cons, ih, mem_keys_insert, List.map_cons, List.mem_cons]
    tauto

/-- Distinct keys: a lookup finds the entry. -/
theorem get?_of_mem (hkeys : map.keys.Nodup) (hmem : (key, value) ∈ map) :
    map.get? key = some value := by
  induction map with
  | nil => cases hmem
  | cons entry rest ih =>
    have ⟨hfresh, hrest⟩ := List.nodup_cons.mp hkeys
    rcases List.mem_cons.mp hmem with rfl | hmem
    · simp [get?]
    · have hne : entry.1 ≠ key := fun heq => hfresh (heq ▸ List.mem_map_of_mem hmem)
      simpa [get?, hne] using ih hrest hmem

end BTreeMap

theorem mem_sortDedup {names : List String} {name : String} :
    name ∈ sortDedup names ↔ name ∈ names := by
  refine BTreeMap.mem_keys_ofList.trans ?_
  simp

theorem sortDedup_nodup (names : List String) : (sortDedup names).Nodup :=
  (BTreeMap.sorted_ofList _).imp ne_of_lt

/-! ## Names -/

/-- The characters of lease names. -/
def NameChar (c : Char) : Prop :=
  (97 ≤ c.toNat ∧ c.toNat ≤ 122) ∨ (48 ≤ c.toNat ∧ c.toNat ≤ 57) ∨ c.toNat = 95 ∨ c.toNat = 45

instance (c : Char) : Decidable (NameChar c) := inferInstanceAs (Decidable (_ ∨ _))

/-- The bytes of a lease name are its characters. -/
theorem nameChar_of_validName {name : String} (h : validName name) :
    ∀ c ∈ name.toList, NameChar c := by
  simp only [validName, Bool.and_eq_true] at h
  have hbytes := List.all_eq_true.mp h.2
  simp only [lowercase, Bool.or_eq_true, Bool.and_eq_true, decide_eq_true_eq, beq_iff_eq,
    UInt8.le_iff_toNat_le, ← UInt8.toNat_inj, UInt8.reduceToNat, or_assoc] at hbytes
  intro c hc
  have hascii : c.toNat < 128 := by
    refine Json.lt_of_utf8EncodeChar fun b hb => ?_
    have hbyte := hbytes b (List.mem_flatMap.mpr ⟨c, hc, hb⟩)
    rw [UInt8.lt_iff_toNat_lt]
    change b.toNat < 128
    omega
  have hmem : UInt8.ofNat c.toNat ∈ (OsString.ofString name).bytes :=
    List.mem_flatMap.mpr ⟨c, hc, by rw [Json.utf8EncodeChar_of_lt hascii]; exact List.mem_cons_self⟩
  have hbyte := hbytes _ hmem
  rwa [UInt8.toNat_ofNat', Nat.mod_eq_of_lt (by omega)] at hbyte

/-- `replace('-', "_")`. -/
def underscored (name : String) : List Char := name.toList.map fun c => if c = '-' then '_' else c

/-- No lease name has capitals: capitals give back the name. -/
theorem toLower_toUpper {c : Char} (h : NameChar c) : c.toUpper.toLower = c := by
  have htable : ∀ n : Fin 128, (97 ≤ n.val ∧ n.val ≤ 122) ∨ (48 ≤ n.val ∧ n.val ≤ 57) ∨
      n.val = 95 ∨ n.val = 45 → (Char.ofNat n).toUpper.toLower = Char.ofNat n := by decide
  have hlt : c.toNat < 128 := by unfold NameChar at h; omega
  have hc := htable ⟨c.toNat, hlt⟩ h
  rwa [Char.ofNat_toNat] at hc

theorem nameChar_underscored {name : String} (h : validName name) :
    ∀ c ∈ underscored name, NameChar c := by
  intro c hc
  obtain ⟨d, hd, rfl⟩ := List.mem_map.mp hc
  split
  · decide
  · exact nameChar_of_validName h d hd

theorem environmentName_eq (kind name : String) :
    environmentName kind name = "PROCHERD_" ++ kind ++ "_" ++
      String.ofList ((underscored name).map Char.toUpper) := by
  simp only [environmentName, underscored, List.map_map]
  rfl

/-- Two leases of one kind share their variable if their names differ only in
    `-` and `_`. -/
theorem environmentName_inj {kind name name' : String} (h : validName name) (h' : validName name') :
    environmentName kind name = environmentName kind name' ↔
      underscored name = underscored name' := by
  rw [environmentName_eq, environmentName_eq]
  refine ⟨fun heq => ?_, fun heq => by rw [heq]⟩
  have hupper := String.ofList_injective (String.append_right_inj _ |>.mp heq)
  have hlower (name : String) (h : validName name) :
      ((underscored name).map Char.toUpper).map Char.toLower = underscored name := by
    rw [List.map_map]
    exact (List.map_congr_left fun c hc => toLower_toUpper (nameChar_underscored h c hc)).trans
      (List.map_id _)
  rw [← hlower name h, hupper, hlower name' h']

theorem environmentName_kind (name name' : String) :
    environmentName "PORT" name ≠ environmentName "TEMP" name' := by
  intro heq
  have hchars := congrArg (fun s : String => (s.toList.drop 9).take 1) heq
  simp [environmentName, String.toList_append] at hchars

theorem validNames_of_validateNames [Toolchain] {names : List String}
    (h : validateNames names = .ok ()) :
    (∀ name ∈ names, validName name) ∧ names.Nodup := by
  suffices hgo : ∀ unique, validateNames.go unique names = .ok () →
      (∀ name ∈ names, validName name) ∧ names.Nodup ∧ ∀ name ∈ names, name ∉ unique by
    obtain ⟨hvalid, hnodup, _⟩ := hgo [] h
    exact ⟨hvalid, hnodup⟩
  clear h
  induction names with
  | nil => exact fun _ _ => ⟨List.forall_mem_nil _, .nil, List.forall_mem_nil _⟩
  | cons name rest ih =>
    intro unique h
    rw [validateNames.go] at h
    split at h
    · cases h
    rename_i hvalid
    split at h
    · cases h
    rename_i hfresh
    obtain ⟨hrest, hnodup, hunique⟩ := ih _ h
    refine ⟨List.forall_mem_cons.mpr ⟨by simpa using hvalid, hrest⟩, List.nodup_cons.mpr
      ⟨fun hmem => hunique name hmem List.mem_cons_self, hnodup⟩, ?_⟩
    exact List.forall_mem_cons.mpr ⟨hfresh, fun other hmem hold =>
      hunique other hmem (List.mem_cons_of_mem _ hold)⟩

/-! ## The variables of a run -/

/-- `Command::envs`: of the entries of one variable, the last one counts. -/
def childEnvironment (injected : List (String × OsString)) (name : String) : Option OsString :=
  (injected.reverse.find? fun entry => entry.1 = name).map Prod.snd

theorem childEnvironment_of_mem {injected : List (String × OsString)} {name : String}
    {value : OsString} (hnames : (injected.map Prod.fst).Nodup) (hmem : (name, value) ∈ injected) :
    childEnvironment injected name = some value := by
  have hkeys : BTreeMap.keys injected.reverse |>.Nodup := by
    rw [BTreeMap.keys, List.map_reverse]
    exact List.nodup_reverse.mpr hnames
  exact BTreeMap.get?_of_mem hkeys (List.mem_reverse.mpr hmem)

/-- The variables that the leases of a request are passed in. -/
def LeaseRequests.variableNames (requests : LeaseRequests) : List String :=
  requests.portNames.map (environmentName "PORT") ++
    requests.tempDirectoryNames.map (environmentName "TEMP")

/-- No two requested names of one kind differ only in `-` and `_`. -/
def LeaseRequests.Separate (requests : LeaseRequests) : Prop :=
  (requests.portNames.map underscored).Nodup ∧ (requests.tempDirectoryNames.map underscored).Nodup

instance (requests : LeaseRequests) : Decidable requests.Separate :=
  inferInstanceAs (Decidable (_ ∧ _))

theorem LeaseRequests.variableNames_nodup {requests : LeaseRequests}
    (hports : ∀ name ∈ requests.portNames, validName name)
    (htemps : ∀ name ∈ requests.tempDirectoryNames, validName name) :
    requests.variableNames.Nodup ↔ requests.Separate := by
  have hkind (kind : String) (names : List String) (hvalid : ∀ name ∈ names, validName name) :
      (names.map (environmentName kind)).Nodup ↔ (names.map underscored).Nodup := by
    induction names with
    | nil => simp
    | cons name rest ih =>
      have ⟨hname, hrest⟩ := List.forall_mem_cons.mp hvalid
      simp only [List.map_cons, List.nodup_cons, ih hrest, List.mem_map, not_exists, not_and]
      refine and_congr_left fun _ => forall₂_congr fun other hother => not_congr ?_
      exact environmentName_inj (hrest other hother) hname
  rw [variableNames, List.nodup_append, hkind _ _ hports, hkind _ _ htemps]
  refine ⟨fun h => ⟨h.1, h.2.1⟩, fun h => ⟨h.1, h.2, fun port hport temp htemp => ?_⟩⟩
  obtain ⟨name, -, rfl⟩ := List.mem_map.mp hport
  obtain ⟨name', -, rfl⟩ := List.mem_map.mp htemp
  exact environmentName_kind name name'

/-! ## Acquisition -/

theorem reserveNames_names {offers : PortOffers} {runId : String} {names : List String}
    {unavailable : List Nat} {i k : Nat} {entries entries' : List PortRegistryEntry}
    {reserved reserved' : List ReservedPort}
    (h : reserveNames offers runId names unavailable i k entries reserved =
      .ok (reserved', entries')) :
    reserved'.map (·.name) = reserved.map (·.name) ++ names := by
  induction names generalizing unavailable i k entries reserved with
  | nil =>
    cases h
    exact (List.append_nil _).symm
  | cons name rest ih =>
    rw [reserveNames] at h
    split at h
    · cases h
    · rw [ih h, List.map_append, List.append_assoc]
      rfl

theorem reservePorts_names {active : Nat → String → Bool} {offers : PortOffers} {runId : String}
    {names : List String} {registry registry' : PortRegistry} {reserved : List ReservedPort}
    (h : reservePorts active offers runId names registry = .ok (reserved, registry')) :
    reserved.map (·.name) = names := by
  simp only [reservePorts, bind, Except.bind] at h
  split at h
  · cases h
  rename_i result hresult
  cases h
  exact reserveNames_names hresult

section Acquire

open Interaction

variable [Toolchain] {σ : Type} {state state' : RunState} {requests : LeaseRequests}
  {allocation : LeaseAllocation}

theorem execute_createTempDirectories {answers : List Answer} {names : List String}
    {temps : BTreeMap PathBuf} {s s' : σ} {w w' : World}
    (h : Prog.execute (fun {_} => execBody) answers (createTempDirectories names s) w =
      some ((.ok temps, s'), w')) : temps = tempPaths w.runDir names := by
  unfold createTempDirectories at h
  split at h
  · rename_i hnames
    cases (Proc.execute_pure h).1
    rw [hnames]
    rfl
  · obtain ⟨a, -, hexec, -⟩ := Proc.execute_attempt h
    simp only [execBody, fallible] at hexec
    split at hexec <;> cases hexec
    rfl

theorem execute_reservePortNames {answers : List Answer} {runId : String} {names : List String}
    {ports : List ReservedPort} {s s' : σ} {w w' : World}
    (h : Prog.execute (fun {_} => execBody) answers (reservePortNames runId names s) w =
      some ((.ok ports, s'), w')) : ports.map (·.name) = names := by
  unfold reservePortNames at h
  split at h
  · rename_i hnames
    cases (Proc.execute_pure h).1
    exact hnames.symm
  · obtain ⟨a, -, hexec, -⟩ := Proc.execute_attempt h
    simp only [execBody, committed, fallible] at hexec
    split at hexec
    · rename_i hupdate
      split at hexec <;> cases hexec
      exact reservePorts_names (updateRegistry_ok hupdate)
    · split at hexec <;> cases hexec

theorem acquire_ok {answers : List Answer} {s s' : σ} {w w' : World}
    (h : Prog.execute (fun {_} => execBody) answers (LeaseAllocation.acquire state requests s) w =
      some ((.ok (allocation, state'), s'), w')) :
    validateNames requests.portNames = .ok () ∧
      validateNames requests.tempDirectoryNames = .ok () ∧
      allocation.ports.map (·.name) = requests.portNames ∧
      ∃ acquiredAtMs, LeaseAllocation.populateState allocation.ports state acquiredAtMs
        (tempPaths w.runDir requests.tempDirectoryNames) = .ok (state', allocation.environment) := by
  unfold LeaseAllocation.acquire at h
  obtain ⟨_, _, runId, _, _, -, hrunId, h₁⟩ := Proc.execute_seq h
  obtain ⟨-, rfl⟩ := Proc.execute_ofExcept hrunId
  obtain ⟨_, _, _, _, _, -, hvalid, h₂⟩ := Proc.execute_seq h₁
  obtain ⟨hportNames, rfl⟩ := Proc.execute_ofExcept hvalid
  obtain ⟨_, _, _, _, _, -, hvalid', h₃⟩ := Proc.execute_seq h₂
  obtain ⟨htempNames, rfl⟩ := Proc.execute_ofExcept hvalid'
  obtain ⟨_, _, acquiredAtMs, _, _, -, hnow, h₄⟩ := Proc.execute_seq h₃
  obtain ⟨_, _, hexec, -⟩ := Proc.execute_call hnow
  cases hexec
  obtain ⟨_, _, temps, _, _, -, htemps, h₅⟩ := Proc.execute_seq h₄
  obtain ⟨_, _, ports, _, _, -, hports, h₆⟩ := Proc.execute_seq h₅
  refine ⟨(Prod.mk.inj hportNames).1.symm, (Prod.mk.inj htempNames).1.symm, ?_⟩
  have htempPaths := execute_createTempDirectories htemps
  have hnames := execute_reservePortNames hports
  cases hpopulate : LeaseAllocation.populateState ports state acquiredAtMs temps with
  | error e =>
    rw [hpopulate] at h₆
    obtain ⟨_, _, _, _, _, -, -, h₇⟩ := Proc.execute_seq h₆
    cases (Prog.execute_ret h₇).2
  | ok populated =>
    rw [hpopulate] at h₆
    cases (Proc.execute_pure h₆).1
    exact ⟨hnames, _, htempPaths ▸ hpopulate⟩

/-! What `populate_state` makes of the requested leases. -/

omit [Toolchain] in
theorem populatePorts_entry {ports : List ReservedPort} {acquiredAtMs : Nat}
    {leases : List PortLease} {populated : List (PortLease × String × OsString)}
    (h : LeaseAllocation.populatePorts ports acquiredAtMs leases = .ok populated) :
    ∀ entry ∈ populated, ∃ port, { name := entry.1.name, port } ∈ ports ∧
      entry.1.port = some port ∧
      entry.2 = (environmentName "PORT" entry.1.name, .ofString (toString port)) := by
  intro entry hentry
  obtain ⟨lease, -, hlease⟩ := mem_right_of_forall₂ (forall₂_of_mapM h) hentry
  split at hlease
  · cases hlease
  · rename_i reserved hfind
    cases hlease
    have hname : reserved.name = lease.name := by simpa using List.find?_some hfind
    exact ⟨reserved.port, hname ▸ List.mem_of_find?_eq_some hfind, rfl, rfl⟩

omit [Toolchain] in
theorem populateTemps_entry {tempPaths : BTreeMap PathBuf} {acquiredAtMs : Nat}
    {leases : List TempDirectoryLease} {populated : List (TempDirectoryLease × String × OsString)}
    (h : LeaseAllocation.populateTemps tempPaths acquiredAtMs leases = .ok populated) :
    ∀ entry ∈ populated, ∃ path, entry.1.path = some path ∧
      entry.2 = (environmentName "TEMP" entry.1.name, path) := by
  intro entry hentry
  obtain ⟨lease, -, hlease⟩ := mem_right_of_forall₂ (forall₂_of_mapM h) hentry
  split at hlease
  · cases hlease
  · cases hlease
    exact ⟨_, rfl, rfl⟩

theorem populateState_parts {ports : List ReservedPort} {acquiredAtMs : Nat}
    {tempPaths : BTreeMap PathBuf} {environment : List (String × OsString)}
    (h : LeaseAllocation.populateState ports state acquiredAtMs tempPaths =
      .ok (state', environment)) :
    ∃ portLeases tempLeases,
      LeaseAllocation.populatePorts ports acquiredAtMs state.leases.ports = .ok portLeases ∧
      LeaseAllocation.populateTemps tempPaths acquiredAtMs state.leases.tempDirectories =
        .ok tempLeases ∧
      state'.leases =
        { ports := portLeases.map (·.1), tempDirectories := tempLeases.map (·.1) } ∧
      environment = portLeases.map (·.2) ++ tempLeases.map (·.2) ∧
      state'.command.environment.injectedNames =
        sortDedup (state.command.environment.injectedNames ++ environment.map Prod.fst) := by
  simp only [LeaseAllocation.populateState, bind, Except.bind] at h
  split at h
  · cases h
  split at h
  · cases h
  rename_i portLeases hports
  split at h
  · cases h
  rename_i tempLeases htemps
  repeat' split at h
  all_goals cases h
  exact ⟨portLeases, tempLeases, hports, htemps, rfl, rfl, rfl⟩

end Acquire

/-! ## Every lease has its variable -/

/-- Each leased resource is in the child's environment under its own name, and
    the state names each of these variables once. -/
structure Delivered (requests : LeaseRequests) (allocation : LeaseAllocation) (state : RunState) :
    Prop where
  ports : ∀ name ∈ requests.portNames, ∃ lease ∈ state.leases.ports, ∃ port,
    lease.name = name ∧ lease.port = some port ∧ { name, port } ∈ allocation.ports ∧
      childEnvironment allocation.environment (environmentName "PORT" name) =
        some (.ofString (toString port))
  temps : ∀ name ∈ requests.tempDirectoryNames, ∃ lease ∈ state.leases.tempDirectories, ∃ path,
    lease.name = name ∧ lease.path = some path ∧
      childEnvironment allocation.environment (environmentName "TEMP" name) = some path
  injected : state.command.environment.injectedNames.Perm requests.variableNames

/-- The state from which a supervisor acquires the leases of a request. -/
structure Awaits (requests : LeaseRequests) (state : RunState) : Prop where
  leases : state.leases = .requested requests.portNames requests.tempDirectoryNames
  injected : state.command.environment.injectedNames = []

theorem leases_delivered [Toolchain] {σ : Type} {requests : LeaseRequests} {state state' : RunState}
    {allocation : LeaseAllocation} {answers : List Answer} {s s' : σ} {w w' : World}
    (hstate : Awaits requests state)
    (h : Interaction.Prog.execute (fun {_} => execBody) answers
      (LeaseAllocation.acquire state requests s) w = some ((.ok (allocation, state'), s'), w')) :
    Delivered requests allocation state' ↔ requests.Separate := by
  obtain ⟨hportNames, htempNames, -, _, hpopulate⟩ := acquire_ok h
  obtain ⟨portLeases, tempLeases, hports, htemps, hleases, henvironment, hinjected⟩ :=
    populateState_parts hpopulate
  have ⟨hvalidPorts, _⟩ := validNames_of_validateNames hportNames
  have ⟨hvalidTemps, _⟩ := validNames_of_validateNames htempNames
  have hnodup := requests.variableNames_nodup hvalidPorts hvalidTemps
  have hportEntry := populatePorts_entry hports
  have htempEntry := populateTemps_entry htemps
  have hportLeases : portLeases.map (·.1.name) = requests.portNames := by
    rw [LeaseAllocation.populatePorts_names hports, hstate.leases]
    simp only [LeaseState.requested, List.map_map]
    exact List.map_id _
  have htempLeases : tempLeases.map (·.1.name) = requests.tempDirectoryNames := by
    rw [LeaseAllocation.populateTemps_names htemps, hstate.leases]
    simp only [LeaseState.requested, List.map_map]
    exact List.map_id _
  have hvariables : allocation.environment.map Prod.fst = requests.variableNames := by
    rw [henvironment, LeaseRequests.variableNames, ← hportLeases, ← htempLeases]
    simp only [List.map_append, List.map_map]
    refine congrArg₂ (· ++ ·) (List.map_congr_left fun entry hentry => ?_)
      (List.map_congr_left fun entry hentry => ?_)
    · obtain ⟨_, _, _, heq⟩ := hportEntry entry hentry
      exact congrArg Prod.fst heq
    · obtain ⟨_, _, heq⟩ := htempEntry entry hentry
      exact congrArg Prod.fst heq
  rw [hstate.injected, List.nil_append, hvariables] at hinjected
  constructor
  · intro hdelivered
    have hperm := hdelivered.injected
    rw [hinjected] at hperm
    exact hnodup.mp (hperm.nodup_iff.mp (sortDedup_nodup _))
  · intro hseparate
    have hunique := hnodup.mpr hseparate
    have hlookup {name : String} {value : OsString}
        (hmem : (name, value) ∈ portLeases.map (·.2) ++ tempLeases.map (·.2)) :
        childEnvironment allocation.environment name = some value :=
      childEnvironment_of_mem (hvariables ▸ hunique) (henvironment ▸ hmem)
    refine ⟨fun name hname => ?_, fun name hname => ?_, ?_⟩
    · rw [← hportLeases] at hname
      obtain ⟨entry, hentry, rfl⟩ := List.mem_map.mp hname
      obtain ⟨port, hreserved, hport, hvalue⟩ := hportEntry entry hentry
      refine ⟨entry.1, by rw [hleases]; exact List.mem_map_of_mem hentry, port, rfl, hport,
        hreserved, hlookup (List.mem_append_left _ ?_)⟩
      exact hvalue ▸ List.mem_map_of_mem hentry
    · rw [← htempLeases] at hname
      obtain ⟨entry, hentry, rfl⟩ := List.mem_map.mp hname
      obtain ⟨path, hpath, hvalue⟩ := htempEntry entry hentry
      refine ⟨entry.1, by rw [hleases]; exact List.mem_map_of_mem hentry, path, rfl, hpath,
        hlookup (List.mem_append_right _ ?_)⟩
      exact hvalue ▸ List.mem_map_of_mem hentry
    · rw [hinjected]
      exact (List.perm_ext_iff_of_nodup (sortDedup_nodup _) hunique).mpr fun _ => mem_sortDedup

end Procherd

namespace Procherd.Reference

/-- A supervisor acquires the leases of a request in an empty state root. -/
def acquire (portNames tempNames : List String) (answers : List Answer) :
    Option ((Except AppError (LeaseAllocation × RunState) × Unit) × World) :=
  let requests : LeaseRequests := { portNames, tempDirectoryNames := tempNames }
  Interaction.Prog.execute (fun {_} => execBody) answers
    (LeaseAllocation.acquire (options.initialState requests 0) requests ())
    { runDir := .ofString "/state/run", runId := options.runId, pipe := fun _ => [] }

def offering (first : Nat) : Answer :=
  { offers := { bind := fun i => .ok (first + i) } }

/-- The acquisition succeeds, with a result that passes `check`. -/
def acquires (portNames tempNames : List String) (answers : List Answer)
    (check : LeaseAllocation → Bool) : Bool :=
  (acquire portNames tempNames answers).any fun r =>
    match r.1.1 with
    | .ok (allocation, _) => check allocation
    | .error _ => false

theorem exists_acquired {portNames tempNames : List String} {answers : List Answer}
    {check : LeaseAllocation → Bool} (h : acquires portNames tempNames answers check) :
    ∃ allocation state' w', acquire portNames tempNames answers =
      some ((.ok (allocation, state'), ()), w') ∧ check allocation := by
  obtain ⟨⟨⟨_ | ⟨allocation, state'⟩, _⟩, w'⟩, hacquire, hcheck⟩ := (Option.any_eq_true _ _).mp h
  · cases hcheck
  · exact ⟨allocation, state', w', hacquire, hcheck⟩

theorem leases_delivered_separate :
    ∃ allocation state' w',
      acquire ["web", "a-b"] ["web"] [{}, {}, offering 5000] =
        some ((.ok (allocation, state'), ()), w') ∧
      Delivered { portNames := ["web", "a-b"], tempDirectoryNames := ["web"] } allocation state' := by
  have hacquires : acquires ["web", "a-b"] ["web"] [{}, {}, offering 5000] fun _ => true := by
    decide +kernel
  obtain ⟨allocation, state', w', hacquire, -⟩ := exists_acquired hacquires
  exact ⟨allocation, state', w', hacquire, (leases_delivered ⟨rfl, rfl⟩ hacquire).mpr (by decide)⟩

/-- The leases `a-b` and `a_b` share a variable, which holds the port of the second. -/
theorem leases_delivered_shared :
    validateRequests ["a-b", "a_b"] [] =
      .ok { portNames := ["a-b", "a_b"], tempDirectoryNames := [] } ∧
    ∃ allocation state' w',
      acquire ["a-b", "a_b"] [] [{}, offering 5000] = some ((.ok (allocation, state'), ()), w') ∧
      ¬ Delivered { portNames := ["a-b", "a_b"], tempDirectoryNames := [] } allocation state' := by
  have hacquires : acquires ["a-b", "a_b"] [] [{}, offering 5000] fun allocation =>
      allocation.ports = [{ name := "a-b", port := 5000 }, { name := "a_b", port := 5001 }] ∧
        childEnvironment allocation.environment (environmentName "PORT" "a-b") =
          some (.ofString "5001") := by
    decide +kernel
  obtain ⟨allocation, state', w', hacquire, hcheck⟩ := exists_acquired hacquires
  obtain ⟨hports, henvironment⟩ := of_decide_eq_true hcheck
  refine ⟨by rfl, allocation, state', w', hacquire, fun h => ?_⟩
  obtain ⟨lease, -, port, -, -, hport, hvalue⟩ := h.ports "a-b" List.mem_cons_self
  have hport : port = 5000 := by simpa [hports] using hport
  rw [henvironment, hport] at hvalue
  exact absurd hvalue (by decide)

end Procherd.Reference
