-- SUMMARY: Paths from identifiers: run IDs and lease names that pass validation are ordinary names, and paths made of them stay in the state root.
import Procherd.LeaseDelivery
import Procherd.Format.Crockford
import Procherd.Format.Path
import Procherd.Interaction.Runs

/-!
# Paths from identifiers

Run IDs and lease names come from documents that anybody may have written, and
are joined to the path of the state root or of a run. The functions that join
them are given here with the paths they use.
-/

namespace Procherd

open Interaction

/-! ## Canonical run identifiers -/

/-- The `ulid` crate reads back what it writes, and writes the canonical
    encoding of a 128-bit value. -/
class LawfulUlid [Toolchain] : Prop where
  parse_lt : ∀ {s n}, Toolchain.parseUlid s = some n → n < 2 ^ 128
  parse_digits : ∀ {n}, n < 2 ^ 128 →
    Toolchain.parseUlid (String.ofList (Crockford.digits 26 n)) = some n
  display : ∀ {n}, n < 2 ^ 128 →
    Toolchain.displayUlid n = String.ofList (Crockford.digits 26 n)

/-- `run_` and the canonical encoding of a 128-bit value. -/
def CanonicalRunId (s : String) : Prop :=
  ∃ n < 2 ^ 128, s = "run_" ++ String.ofList (Crockford.digits 26 n)

theorem utf8ByteSize_digits (k n : Nat) :
    (String.ofList (Crockford.digits k n)).utf8ByteSize = k := by
  have halphabet : ∀ c ∈ Crockford.alphabet, c.utf8Size = 1 :=
    List.all_iff_forall_prop.mp rfl
  induction k with
  | zero => rfl
  | succ k ih =>
    rw [Crockford.digits, String.ofList_cons, String.utf8ByteSize_append,
      String.utf8ByteSize_singleton, ih, halphabet _ (Crockford.digit_mem _), Nat.add_comm]

theorem canonicalRunId_iff [Toolchain] [LawfulUlid] {s canonical : String} :
    canonicalRunId s = .ok canonical ↔ CanonicalRunId s ∧ canonical = s := by
  constructor
  · intro h
    refine ⟨?_, canonicalRunId_eq h⟩
    simp only [canonicalRunId] at h
    split at h
    · split at h
      · cases h
      · rename_i n hparse
        split at h
        · cases h
        · rename_i hsame
          have hlt := LawfulUlid.parse_lt hparse
          refine ⟨n, hlt, ?_⟩
          rw [← LawfulUlid.display hlt]
          exact (not_not.mp (not_or.mp hsame).2).symm
    · cases h
  · rintro ⟨⟨n, hn, rfl⟩, rfl⟩
    have hsuffix :
        String.ofList (("run_" ++ String.ofList (Crockford.digits 26 n)).toList.drop 4) =
          String.ofList (Crockford.digits 26 n) := by
      rw [String.toList_append, List.drop_left' (by rfl), String.ofList_toList]
    have hsize := utf8ByteSize_digits 26 n
    simp only [canonicalRunId, hsuffix, LawfulUlid.parse_digits hn, LawfulUlid.display hn, hsize]
    rw [if_pos (by rw [String.toList_append]; rfl)]
    simp

/-! ## Ordinary names -/

/-- A character that means nothing in a path. -/
def Inoffensive (c : Char) : Prop :=
  c.toNat < 128 ∧ c.toNat ≠ 46 ∧ c.toNat ≠ 47 ∧ c.toNat ≠ 58 ∧ c.toNat ≠ 92

instance (c : Char) : Decidable (Inoffensive c) := inferInstanceAs (Decidable (_ ∧ _))

theorem ordinary_ofString {name : String} (hne : name.toList ≠ [])
    (hchars : ∀ c ∈ name.toList, Inoffensive c) : Path.Ordinary (OsString.ofString name).bytes := by
  have hbytes : ∀ b ∈ (OsString.ofString name).bytes,
      b.toNat ≠ 46 ∧ b.toNat ≠ 47 ∧ b.toNat ≠ 58 ∧ b.toNat ≠ 92 := by
    intro b hb
    obtain ⟨c, hc, hbyte⟩ := List.mem_flatMap.mp hb
    obtain ⟨hascii, hother⟩ := hchars c hc
    rw [Json.utf8EncodeChar_of_lt hascii, List.mem_singleton] at hbyte
    rw [hbyte, UInt8.toNat_ofNat', Nat.mod_eq_of_lt (by omega)]
    exact hother
  refine ⟨?_, ?_, ?_, fun b hb => ?_⟩
  · obtain ⟨c, rest, hname⟩ := List.exists_cons_of_ne_nil hne
    have hc := (hchars c (hname ▸ List.mem_cons_self)).1
    rw [OsString.ofString, hname, List.flatMap_cons, Json.utf8EncodeChar_of_lt hc]
    exact List.cons_ne_nil _ _
  · intro heq
    exact (hbytes 46 (by rw [heq]; decide)).1 rfl
  · intro heq
    exact (hbytes 46 (by rw [heq]; decide)).1 rfl
  · obtain ⟨-, hslash, hcolon, hbackslash⟩ := hbytes b hb
    exact ⟨fun h => hslash (h ▸ rfl), fun h => hbackslash (h ▸ rfl), fun h => hcolon (h ▸ rfl)⟩

theorem CanonicalRunId.ordinary {s : String} (h : CanonicalRunId s) :
    Path.Ordinary (OsString.ofString s).bytes := by
  obtain ⟨n, -, rfl⟩ := h
  have halphabet : ∀ c ∈ Crockford.alphabet, Inoffensive c := List.all_iff_forall_prop.mp rfl
  have hpre : ∀ c ∈ "run_".toList, Inoffensive c := List.all_iff_forall_prop.mp rfl
  refine ordinary_ofString ?_ fun c hc => ?_
  · rw [String.toList_append]
    exact List.cons_ne_nil _ _
  · rw [String.toList_append] at hc
    rcases List.mem_append.mp hc with hc | hc
    · exact hpre c hc
    · rw [String.toList_ofList] at hc
      exact halphabet c (Crockford.mem_alphabet_of_mem_digits hc)

theorem ordinary_of_validName {name : String} (h : validName name) :
    Path.Ordinary (OsString.ofString name).bytes := by
  refine ordinary_ofString ?_ fun c hc => ?_
  · intro hempty
    rw [validName, OsString.ofString, hempty] at h
    cases h
  · have hchar := nameChar_of_validName h c hc
    unfold NameChar at hchar
    unfold Inoffensive
    omega

/-! ## Paths -/

/-- The path is a direct child of a directory, under an ordinary name. -/
structure ChildOf (dir : PathBuf) (name : String) (path : PathBuf) : Prop where
  ordinary : Path.Ordinary (OsString.ofString name).bytes
  components : Path.components path.bytes =
    Path.components dir.bytes ++ [.normal (OsString.ofString name).bytes]

theorem childOf_join (dir : PathBuf) {name : String}
    (h : Path.Ordinary (OsString.ofString name).bytes) : ChildOf dir name (dir.join name) :=
  ⟨h, Path.components_join h⟩

inductive FileType where
  | file
  | dir
  | symlink
  | other
deriving DecidableEq

/-- The system calls on the paths that are made of identifiers. -/
inductive PathCmd : Type → Type where
  | symlinkMetadata (path : PathBuf) : PathCmd (Except IoError FileType)
  /-- `read_json` at type `RunState`. -/
  | readJson (path : PathBuf) : PathCmd (Except AppError RunState)
  /-- Open the file and try its lock: `true` if another process holds it. -/
  | tryLock (path : PathBuf) : PathCmd (Except IoError Bool)
  | createDir (path : PathBuf) : PathCmd (Except AppError Unit)

/-- The path that a system call is given. -/
def PathCmd.path {β : Type} : PathCmd β → PathBuf
  | .symlinkMetadata path | .readJson path | .tryLock path | .createDir path => path

section Programs

variable [Toolchain] {σ : Type}

/-- `Store::run_dir`. -/
def Store.runDir (root : PathBuf) (runId : String) : Proc PathCmd AppError σ PathBuf := do
  let runId ← Proc.ofExcept (canonicalRunId runId)
  let runDir := root.join runId
  match ← Proc.call (.symlinkMetadata runDir) with
  | .ok .symlink =>
    Proc.throw (.integrity ("run directory is a symbolic link: " ++ Toolchain.displayPath runDir))
  | .ok .dir => return runDir
  | .ok _ =>
    Proc.throw (.integrity ("run path is not a directory: " ++ Toolchain.displayPath runDir))
  | .error e =>
    if e.kind = .notFound then Proc.throw (.notFound ("run not found: " ++ runId))
    else Proc.throw (.ofIo e)

/-- `Store::read_state`. -/
def Store.readState (root : PathBuf) (runId : String) : Proc PathCmd AppError σ RunState := do
  let runDir ← Store.runDir root runId
  let state ← Proc.attempt (.readJson (runDir.join "state.json"))
  Proc.ofExcept (checkState runId state)

/-- `run_supervisor_active`. -/
def runSupervisorActive (root : PathBuf) (runId : String) : Proc PathCmd AppError σ Bool :=
  match canonicalRunId runId with
  | .error _ => return false
  | .ok runId => do
    let path := (root.join runId).join "supervisor.lock"
    match ← Proc.call (.symlinkMetadata path) with
    | .ok .file =>
      match ← Proc.call (.tryLock path) with
      | .ok held => return held
      | .error _ => return false
    | _ => return false

/-- `prune_stale`, on the entries of the registry. -/
def pruneEntries (root : PathBuf) :
    List PortRegistryEntry → Proc PathCmd AppError σ (List PortRegistryEntry)
  | [] => pure []
  | entry :: rest => do
    let active ← runSupervisorActive root entry.runId
    let entries ← pruneEntries root rest
    return if active then entry :: entries else entries

/-- The loop of `create_temp_directories`. -/
def createDirectories (root : PathBuf) :
    List String → BTreeMap PathBuf → Proc PathCmd AppError σ (BTreeMap PathBuf)
  | [], paths => pure paths
  | name :: names, paths => do
    let path := root.join name
    Proc.attempt (.createDir path)
    createDirectories root names (paths.insert name path)

def createTempDirectoriesIn (runDir : PathBuf) (names : List String) :
    Proc PathCmd AppError σ (BTreeMap PathBuf) :=
  if names = [] then return []
  else do
    let root := tempRoot runDir
    Proc.attempt (.createDir root)
    createDirectories root names []

end Programs

/-! ## Validated identifiers -/

/-- A run ID that passed validation. -/
structure RunIdentifier (runId : String) : Prop where
  canonical : CanonicalRunId runId
  ordinary : Path.Ordinary (OsString.ofString runId).bytes

/-- A lease name that passed validation. -/
structure LeaseName (name : String) : Prop where
  valid : validName name
  ordinary : Path.Ordinary (OsString.ofString name).bytes

theorem LeaseName.of_valid {name : String} (h : validName name) : LeaseName name :=
  ⟨h, ordinary_of_validName h⟩

/-- The directory of a run, or a file in it. -/
def InRun (root : PathBuf) (runId : String) (path : PathBuf) : Prop :=
  RunIdentifier runId ∧ ∃ dir, ChildOf root runId dir ∧ (path = dir ∨ ∃ file, ChildOf dir file path)

/-- `update_registry` calls its closure, and calls it on this registry. -/
def Reaches [Toolchain] (disk : Option PortRegistry) (registry : PortRegistry) : Prop :=
  ∀ {α : Type} (update : PortRegistry → Except AppError (α × PortRegistry)),
    updateRegistry disk update = update registry

theorem inRun_dir (root : PathBuf) {runId : String} (h : RunIdentifier runId) :
    InRun root runId (root.join runId) :=
  ⟨h, _, childOf_join root h.ordinary, .inl rfl⟩

theorem inRun_file (root : PathBuf) {runId file : String} (h : RunIdentifier runId)
    (hfile : Path.Ordinary (OsString.ofString file).bytes) :
    InRun root runId ((root.join runId).join file) :=
  ⟨h, _, childOf_join root h.ordinary, .inr ⟨file, childOf_join _ hfile⟩⟩

section Validation

variable [Toolchain] [LawfulUlid]

theorem RunIdentifier.of_canonicalRunId {runId canonical : String}
    (h : canonicalRunId runId = .ok canonical) : RunIdentifier runId :=
  have hcanonical := (canonicalRunId_iff.mp h).1
  ⟨hcanonical, hcanonical.ordinary⟩

theorem validateRegistry_ok {registry : PortRegistry} (h : validateRegistry registry = .ok ()) :
    ∀ entry ∈ registry.entries, RunIdentifier entry.runId ∧ LeaseName entry.name := by
  obtain ⟨schemaVersion, entries⟩ := registry
  induction entries with
  | nil => exact nofun
  | cons entry rest ih =>
    simp only [validateRegistry, List.forM_eq_forM, List.forM_cons, bind, Except.bind, throw,
      throwThe, MonadExceptOf.throw] at h
    split at h
    · cases h
    rename_i hentry
    split at hentry
    · cases hentry
    rename_i hrunId
    split at hentry
    · cases hentry
    rename_i hname
    refine List.forall_mem_cons.mpr ⟨⟨.of_canonicalRunId hrunId, .of_valid ?_⟩, ih h⟩
    simpa using hname

theorem Reaches.valid {disk : Option PortRegistry} {registry : PortRegistry}
    (h : Reaches disk registry) :
    ∀ entry ∈ registry.entries, RunIdentifier entry.runId ∧ LeaseName entry.name := by
  have hprobe := h fun registry => .ok (registry, registry)
  have heq : disk.getD .empty = registry :=
    (Prod.mk.inj (Except.ok.inj (updateRegistry_ok hprobe))).1
  refine validateRegistry_ok ?_
  simp only [updateRegistry, heq, bind, Except.bind, throw, throwThe, MonadExceptOf.throw] at hprobe
  repeat' split at hprobe
  all_goals first
    | assumption
    | cases hprobe

/-- The leases in a document have names that passed validation. -/
def LeaseState.Named (leases : LeaseState) : Prop :=
  (∀ lease ∈ leases.ports, LeaseName lease.name) ∧
    ∀ lease ∈ leases.tempDirectories, LeaseName lease.name

theorem checkState_ok {runId : String} {state state' : RunState}
    (h : checkState runId state = .ok state') :
    RunIdentifier state'.runId ∧ state'.runId = runId ∧ state'.leases.Named := by
  obtain rfl := checkState_eq h
  simp only [checkState, validatePersistedRunState, bind, Except.bind, throw, throwThe,
    MonadExceptOf.throw, pure, Except.pure] at h
  split at h
  · cases h
  rename_i hvalid
  split at h
  · cases h
  rename_i hsame
  refine ⟨?_, not_not.mp hsame, ?_⟩
  all_goals
    split at hvalid
    · cases hvalid
    split at hvalid
    · cases hvalid
    rename_i hrunId
    split at hvalid
    · cases hvalid
    rename_i hrequests
  · exact .of_canonicalRunId hrunId
  · simp only [validateRequests, bind, Except.bind, throw, throwThe, MonadExceptOf.throw, pure,
      Except.pure] at hrequests
    split at hrequests
    · cases hrequests
    split at hrequests
    · cases hrequests
    rename_i hports
    split at hrequests
    · cases hrequests
    rename_i htemps
    exact ⟨fun lease hlease => .of_valid <|
        (validNames_of_validateNames hports).1 _ (List.mem_map_of_mem hlease),
      fun lease hlease => .of_valid <|
        (validNames_of_validateNames htemps).1 _ (List.mem_map_of_mem hlease)⟩

/-! ## The paths of the operations -/

variable {σ : Type} {s : σ} {root : PathBuf}

theorem Store.runDir_only (runId : String) :
    Proc.Only (fun c => InRun root runId c.path) (Store.runDir root runId) s
      fun dir => RunIdentifier runId ∧ dir = root.join runId := by
  refine Proc.only_bind _ Proc.only_ofExcept fun canonical s h => ?_
  obtain rfl := canonicalRunId_eq h
  have hrunId := RunIdentifier.of_canonicalRunId h
  refine Proc.only_bind _ (Proc.only_call (inRun_dir root hrunId)) fun metadata s _ => ?_
  cases metadata with
  | ok type =>
    cases type with
    | dir => exact Proc.only_pure ⟨hrunId, rfl⟩
    | file | symlink | other => exact Proc.only_throw
  | error e =>
    dsimp only
    split <;> exact Proc.only_throw

theorem Store.readState_only (runId : String) :
    Proc.Only (fun c => InRun root runId c.path) (Store.readState root runId) s
      fun state => RunIdentifier runId ∧ state.runId = runId ∧ state.leases.Named := by
  refine Proc.only_bind _ (Store.runDir_only runId) fun dir s ⟨hrunId, hdir⟩ => ?_
  subst hdir
  have hfile : Path.Ordinary (OsString.ofString "state.json").bytes := by decide
  refine Proc.only_bind _ (Proc.only_attempt (inRun_file root hrunId hfile)) fun state s _ => ?_
  refine Proc.only_ofExcept.mono fun state h => ?_
  obtain ⟨-, hsame, hleases⟩ := checkState_ok h
  exact ⟨hrunId, hsame, hleases⟩

theorem runSupervisorActive_only (runId : String) :
    Proc.Only (fun c => InRun root runId c.path)
      (runSupervisorActive root runId : Proc PathCmd AppError σ Bool) s := by
  unfold runSupervisorActive
  split
  · exact Proc.only_pure trivial
  rename_i canonical h
  obtain rfl := canonicalRunId_eq h
  have hrunId := RunIdentifier.of_canonicalRunId h
  have hfile : Path.Ordinary (OsString.ofString "supervisor.lock").bytes := by decide
  refine Proc.only_bind _ (Proc.only_call (inRun_file root hrunId hfile)) fun metadata s _ => ?_
  split
  · refine Proc.only_bind _ (Proc.only_call (inRun_file root hrunId hfile)) fun held s _ => ?_
    cases held <;> exact Proc.only_pure trivial
  · exact Proc.only_pure trivial

omit [Toolchain] [LawfulUlid] in
theorem retainActive_succ (active : Nat → String → Bool) (i : Nat)
    (entries : List PortRegistryEntry) :
    retainActive active (i + 1) entries = retainActive (fun j => active (j + 1)) i entries := by
  induction entries generalizing i with
  | nil => rfl
  | cons entry rest ih => simp only [retainActive, ih]

/-- Pruning tests the locks of the runs that the entries name, and retains what
    `pruneStale` does for the answers it gets. -/
theorem pruneEntries_only (entries : List PortRegistryEntry) :
    Proc.Only (fun c => ∃ entry ∈ entries, InRun root entry.runId c.path)
      (pruneEntries root entries) s
      fun retained => ∃ active, retained = retainActive active 0 entries := by
  induction entries generalizing s with
  | nil => exact Proc.only_pure ⟨fun _ _ => false, rfl⟩
  | cons entry rest ih =>
    refine Proc.only_bind _ ((runSupervisorActive_only entry.runId).weaken
      fun c h => ⟨entry, List.mem_cons_self, h⟩) fun held s _ => ?_
    refine Proc.only_bind _ (ih.weaken fun c ⟨old, hold, h⟩ =>
      ⟨old, List.mem_cons_of_mem _ hold, h⟩) fun retained s ⟨active, hretained⟩ => ?_
    refine Proc.only_pure ⟨fun i id => if i = 0 then held else active (i - 1) id, ?_⟩
    rw [retainActive, retainActive_succ, hretained]
    cases held <;> rfl

omit [Toolchain] [LawfulUlid] in
theorem createDirectories_only {names : List String} {paths : BTreeMap PathBuf}
    (hnames : ∀ name ∈ names, LeaseName name) :
    Proc.Only (fun c => ∃ name ∈ names, ChildOf root name c.path)
      (createDirectories root names paths : Proc PathCmd AppError σ _) s
      fun created => created = names.foldl
        (fun paths name => paths.insert name (root.join name)) paths := by
  induction names generalizing s paths with
  | nil => exact Proc.only_pure rfl
  | cons name rest ih =>
    have ⟨hname, hrest⟩ := List.forall_mem_cons.mp hnames
    refine Proc.only_bind _ (Proc.only_attempt ⟨name, List.mem_cons_self,
      childOf_join root hname.ordinary⟩) fun _ s _ => ?_
    exact (ih hrest).weaken fun c ⟨other, hother, h⟩ => ⟨other, List.mem_cons_of_mem _ hother, h⟩

omit [Toolchain] [LawfulUlid] in
theorem createTempDirectoriesIn_only (runDir : PathBuf) {names : List String}
    (hnames : ∀ name ∈ names, LeaseName name) :
    Proc.Only (fun c => c.path = tempRoot runDir ∨
        ∃ name ∈ names, ChildOf (tempRoot runDir) name c.path)
      (createTempDirectoriesIn runDir names : Proc PathCmd AppError σ _) s
      fun paths => paths = tempPaths runDir names := by
  unfold createTempDirectoriesIn
  split
  · rename_i hempty
    exact Proc.only_pure (by rw [hempty]; rfl)
  refine Proc.only_bind _ (Proc.only_attempt (.inl rfl)) fun _ s _ => ?_
  refine ((createDirectories_only hnames).weaken fun c => .inr).mono fun paths h => ?_
  rw [h, tempPaths, BTreeMap.ofList, List.foldl_map]

/-- What the commands of an acquisition are given. -/
def Acquires (state : RunState) : {β : Type} → BodyCmd β → Prop
  | _, .createTempDirectories names => RunIdentifier state.runId ∧ ∀ name ∈ names, LeaseName name
  | _, .reservePorts runId names =>
    runId = state.runId ∧ RunIdentifier runId ∧ ∀ name ∈ names, LeaseName name
  | _, .releaseRegistry runId => runId = state.runId ∧ RunIdentifier runId
  | _, _ => True

theorem acquire_only (state : RunState) (requests : LeaseRequests) :
    Proc.Only (Acquires state) (LeaseAllocation.acquire state requests) s := by
  refine Proc.only_bind _ Proc.only_ofExcept fun canonical s h => ?_
  obtain rfl := canonicalRunId_eq h
  have hrunId := RunIdentifier.of_canonicalRunId h
  refine Proc.only_bind _ Proc.only_ofExcept fun _ s hportNames => ?_
  have hports := fun name hname =>
    LeaseName.of_valid ((validNames_of_validateNames hportNames).1 name hname)
  refine Proc.only_bind _ Proc.only_ofExcept fun _ s htempNames => ?_
  have htemps := fun name hname =>
    LeaseName.of_valid ((validNames_of_validateNames htempNames).1 name hname)
  refine Proc.only_bind _ (Proc.only_call trivial) fun acquiredAtMs s _ => ?_
  have hcreate : Proc.Only (Acquires state)
      (createTempDirectories requests.tempDirectoryNames : Body σ (BTreeMap PathBuf)) s := by
    unfold createTempDirectories
    split
    · exact Proc.only_pure trivial
    · exact Proc.only_attempt ⟨hrunId, htemps⟩
  refine Proc.only_bind _ hcreate fun tempPaths s _ => ?_
  have hreserve : Proc.Only (Acquires state)
      (reservePortNames state.runId requests.portNames : Body σ (List ReservedPort)) s := by
    unfold reservePortNames
    split
    · exact Proc.only_pure trivial
    · exact Proc.only_attempt ⟨rfl, hrunId, hports⟩
  refine Proc.only_bind _ hreserve fun ports s _ => ?_
  split
  · have hrelease {s : σ} : Proc.Only (Acquires state)
        (releaseRegistry { runId := state.runId, ports } : Body σ LeaseAllocation) s :=
      Proc.only_bind _ (Proc.only_attempt ⟨rfl, hrunId⟩) fun _ s _ => Proc.only_pure trivial
    have hdiscard : Proc.Only (Acquires state)
        (discardLeases { runId := state.runId, ports } : Body σ Unit) s := by
      refine Proc.only_bind _ (Proc.only_outcome hrelease) fun released s _ => ?_
      cases released with
      | ok _ => exact Proc.only_pure trivial
      | error _ =>
        exact Proc.only_bind _ (Proc.only_outcome hrelease) fun _ s _ => Proc.only_pure trivial
    exact Proc.only_bind _ hdiscard fun _ s _ => Proc.only_throw
  · exact Proc.only_pure trivial

end Validation

/-! ## Identifiers stay in the state root -/

theorem identifiers_confined [Toolchain] [LawfulUlid] :
    (∀ s canonical, canonicalRunId s = .ok canonical ↔ CanonicalRunId s ∧ canonical = s) ∧
    (∀ disk registry, Reaches disk registry →
      (∀ entry ∈ registry.entries, RunIdentifier entry.runId ∧ LeaseName entry.name) ∧
      ∀ (root : PathBuf) {β : Type} (c : PathCmd β),
        (pruneEntries root registry.entries ()).Executes c →
          ∃ entry ∈ registry.entries, InRun root entry.runId c.path) ∧
    (∀ root runId,
      (∀ {β : Type} (c : PathCmd β), (Store.readState root runId ()).Executes c →
        InRun root runId c.path) ∧
      ∀ state, (Store.readState root runId ()).Returns (.ok state, ()) →
        RunIdentifier runId ∧ state.runId = runId ∧ state.leases.Named) ∧
    ∀ state requests names, (LeaseAllocation.acquire state requests ()).Executes
        (.createTempDirectories names) →
      RunIdentifier state.runId ∧ (∀ name ∈ names, LeaseName name) ∧
      ∀ (runDir : PathBuf) {β : Type} (c : PathCmd β),
        (createTempDirectoriesIn runDir names ()).Executes c →
          c.path = tempRoot runDir ∨
            ∃ name ∈ names, ChildOf (tempRoot runDir) name c.path := by
  refine ⟨fun s canonical => canonicalRunId_iff, fun disk registry h => ⟨h.valid, ?_⟩,
    fun root runId => ⟨?_, ?_⟩, fun state requests names h => ?_⟩
  · exact fun root _ c hc => (pruneEntries_only registry.entries).allowed hc
  · exact fun c hc => (Store.readState_only runId).allowed hc
  · exact fun state hstate => (Store.readState_only runId).satisfies hstate
  · have ⟨hrunId, hnames⟩ := (acquire_only state requests).allowed h
    refine ⟨hrunId, hnames, fun runDir _ c hc => ?_⟩
    exact (createTempDirectoriesIn_only runDir hnames).allowed hc

end Procherd

namespace Procherd.Reference

theorem ulidDigits_eq (n value : Nat) : ulidDigits n value = Crockford.digits n value := by
  induction n with
  | zero => rfl
  | succ n ih =>
    rw [ulidDigits, ih]
    rfl

scoped instance lawfulUlid : LawfulUlid where
  parse_lt {s n} h := by
    change parseUlid s = some n at h
    rw [parseUlid] at h
    split at h
    · obtain ⟨value, -, rfl⟩ := Option.map_eq_some_iff.mp h
      exact Nat.mod_lt _ (by decide)
    · cases h
  parse_digits {n} hn := by
    change parseUlid _ = some n
    have hvalue : ulidValue (Crockford.digits 26 n) = some n := by
      refine (Crockford.decode_digits 26 n 0).trans (congrArg some ?_)
      rw [Nat.mul_zero, Nat.zero_add, Nat.mod_eq_of_lt (hn.trans (by decide))]
    rw [parseUlid, String.toList_ofList, if_pos (Crockford.length_digits 26 n), hvalue,
      Option.map_some, Nat.mod_eq_of_lt hn]
  display {n} _ := congrArg String.ofList (ulidDigits_eq 26 n)

theorem identifiers_confined_case :
    CanonicalRunId options.runId ∧ ¬ CanonicalRunId "run_01arz3ndektsv4rrffq69g5fav" := by
  have hiff := identifiers_confined.1
  refine ⟨((hiff options.runId options.runId).mp (by rfl)).1, fun h => ?_⟩
  exact nomatch (hiff _ _).mpr ⟨h, rfl⟩

end Procherd.Reference
