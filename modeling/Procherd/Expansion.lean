-- SUMMARY: The expansion of the arguments: how the supervisor comes from the state that was created to the one of the running process, and how much larger its document becomes.
import Procherd.Interaction.Execution
import Procherd.Placeholders
import Procherd.StateDocument

/-!
# Expansion

The supervisor reads the state that `start` created, replaces the placeholders of
the leases in its arguments, and persists what comes out of it. It does not read it
again, so that nothing keeps a run from going on with a state that no reader
accepts.
-/

namespace Procherd

open Interaction

variable [Toolchain] {spec : SupervisorSpec} {state state' : RunState} {path : PathBuf} {w : World}

/-! ## Loading -/

/-- The supervisor accepts the spec and the state that it finds. -/
structure Loadable (spec : SupervisorSpec) (state : RunState) (w : World) : Prop where
  specJson : w.specJson = some spec
  stateJson : w.stateJson = .document state
  sized : Toolchain.specLength spec ≤ DOCUMENT_LIMIT
  readable : state.Readable
  schema : spec.schemaVersion = SUPERVISOR_SPEC_SCHEMA
  matched : specMatches spec state

theorem advance_loadSupervised (h : Loadable spec state w) :
    Prog.advance execBody [{}, {}] (loadSupervised ()) w =
      some (.ret (.ok (spec, state), ()), w) := by
  have hspec : execBody .readSpec {} w = some (.ok spec, w) := by
    simp only [execBody, fallible, h.specJson, readSized_of_le h.sized]
  have hstate : execBody .readState {} w = some (.ok state, w) := by
    simp only [execBody, fallible, h.stateJson, StateFile.read_document h.readable]
  refine (Proc.advance_attempt hspec).trans ?_
  refine (Proc.advance_throwIf (not_not.mpr h.schema)).trans ?_
  refine (Proc.advance_attempt hstate).trans ?_
  exact Proc.advance_throwIf (by simp [h.matched])

/-! ## The leases -/

/-- The first state that the supervisor writes. -/
def startingState (state : RunState) : RunState :=
  { state with
    status := .starting
    updatedAtMs := 0
    process := { state.process with supervisorPid := some 0 } }

theorem advance_acquire {names : List String} {runId : String}
    {environment : List (String × OsString)} (hrunId : canonicalRunId state.runId = .ok runId)
    (hnames : validateNames names = .ok ()) (hne : names ≠ [])
    (hpopulate : LeaseAllocation.populateState [] state 0 (tempPaths w.runDir names) =
      .ok (state', environment)) :
    Prog.advance execBody [{}, {}] (LeaseAllocation.acquire state ⟨[], names⟩ ()) w =
      some (.ret (.ok ({ runId, ports := [], environment }, state'), ()), w) := by
  have hnow : execBody .now {} w = some (0, w) := rfl
  have htemps : execBody (.createTempDirectories names) {} w =
      some (.ok (tempPaths w.runDir names), w) := rfl
  refine (Proc.advance_ofExcept hrunId).trans ?_
  refine (Proc.advance_ofExcept rfl).trans ?_
  refine (Proc.advance_ofExcept hnames).trans ?_
  refine (Proc.advance_call hnow).trans ?_
  simp only [createTempDirectories, if_neg hne]
  refine (Proc.advance_attempt htemps).trans ?_
  simp only [reservePortNames, if_true]
  rw [Proc.advance_pure, hpopulate]
  rfl

/-- The scope of the leases, as `supervise_locked` ends with it. -/
def underLeases (path : PathBuf) (locals : Locals) : Body Unit Unit := do
  let (result, _) ← Proc.withStore locals (superviseLeased path)
  Proc.ofExcept result

/-- The world once `supervise_locked` has written its first state. -/
def World.started (w : World) (state : RunState) : World :=
  World.setState { w with specJson := none } (startingState state)

theorem advance_superviseLocked {names : List String} {runId : String}
    {environment : List (String × OsString)} (h : Loadable spec state w)
    (hrequests : spec.leaseRequests = ⟨[], names⟩) (hrunId : canonicalRunId state.runId = .ok runId)
    (hnames : validateNames names = .ok ()) (hne : names ≠ [])
    (hpopulate : LeaseAllocation.populateState [] (startingState state) 0
      (tempPaths w.runDir names) = .ok (state', environment)) :
    Prog.advance execBody (List.replicate 8 {}) (superviseLocked path ()) w =
      some (underLeases path
        { spec := spec
          state := state'
          leases := { runId := runId, ports := [], environment := environment }
          logs := .create spec.maxLogBytes } (), w.started state) := by
  have hremove : execBody .removeSpec {} w = some (.ok (), { w with specJson := none }) := rfl
  have hpersist : execBody (.persistState (startingState state)) {} { w with specJson := none } =
      some (.ok (), w.started state) := rfl
  refine (Proc.advance_seq (advance_loadSupervised h)).trans ?_
  refine (Proc.advance_attempt hremove).trans ?_
  -- The clock and the process id come between the removal and the first write.
  refine (Proc.advance_call rfl).trans ?_
  refine (Proc.advance_call rfl).trans ?_
  refine (Proc.advance_attempt hpersist).trans ?_
  simp only [hrequests]
  have hacquire : Prog.advance execBody [{}, {}]
      (LeaseAllocation.acquire (startingState state) ⟨[], names⟩ ()) (w.started state) = _ :=
    advance_acquire hrunId hnames hne hpopulate
  exact Proc.advance_seq hacquire

/-! ## The process -/

/-- The world once the output of the process is captured into the log. -/
def World.captured (w : World) : World :=
  { w with
    mainSender := false
    receiver := true
    reader := Function.update (Function.update w.reader .stdout .reading) .stderr .reading
    logsNdjson := some [] }

theorem comes_superviseOutput (locals : Locals) :
    Proc.Comes execBody (List.replicate 5 {}) (superviseOutput path) locals w w.captured := by
  refine Proc.Comes.ensuring ?_
  refine .of_advance (Proc.advance_call rfl) ?_
  refine .of_advance (Proc.advance_call rfl) ?_
  refine .of_advance (Proc.advance_call rfl) ?_
  refine .of_advance (Proc.advance_call rfl) ?_
  exact .of_advance (Proc.advance_attempt rfl) .rfl

/-- The state once its process has been spawned. -/
def runningState (spec : SupervisorSpec) (state : RunState) : RunState :=
  let state := recordSpawn 0 state
  { state with
    limits := { state.limits with
      runtimeDeadlineAtMs := spec.maxRuntimeMs.map (saturatingAdd 0) }
    status := .running
    updatedAtMs := 0
    process := { state.process with processPid := some 0 } }

theorem advance_touch (locals : Locals) :
    Prog.advance execBody [{}] (touch locals) w =
      some (.ret (.ok (), { locals with state := { locals.state with updatedAtMs := 0 } }), w) :=
  rfl

theorem advance_persistState (locals : Locals) :
    Prog.advance execBody [{}] (persistState locals) w =
      some (.ret (.ok (), locals), w.setState locals.state) := rfl

theorem comes_superviseChild (locals : Locals) :
    Proc.Comes execBody (List.replicate 8 {}) (superviseChild path 0) locals w
      (w.setState (runningState locals.spec locals.state)).captured := by
  refine Proc.Comes.ensuring ?_
  refine .of_advance (Proc.advance_call rfl) ?_
  refine .of_advance (Proc.advance_seq (advance_touch _)) ?_
  refine .of_advance (Proc.advance_seq (advance_persistState _)) ?_
  exact comes_superviseOutput _

/-- The world that follows the run of a state whose leases are acquired. -/
def World.followed (w : World) (locals : Locals) : World :=
  -- The handoff is written down only together with the process.
  let state := locals.leases.handoffAt 0 locals.state
  ((w.setState locals.state).setState (runningState locals.spec state)).captured

theorem comes_underLeases (locals : Locals) :
    Proc.Comes execBody (List.replicate 11 {}) (underLeases path locals) () w
      (w.followed locals) := by
  -- The drop of the leases and the marking are still to come.
  refine .bind (.withStore (.ensuring ?_))
  refine .of_advance (Proc.advance_seq (advance_persistState _)) ?_
  refine .of_advance (Proc.advance_call rfl) ?_
  refine .of_advance (Proc.advance_call rfl) ?_
  exact comes_superviseChild _

/-! ## The run -/

/-- What `supervise` does once it has the lock, with a body in the place of
    `supervise_locked`. -/
def underLock (body : Body Unit Unit) : Proc (Either LockCmd BodyCmd) AppError Unit Unit := do
  let marked : Body Unit Unit := do
    match ← Proc.outcome body with
    | .ok () => return ()
    | .error e => do
      markSupervisorFailed e
      Proc.throw e
  let result ← Proc.outcome (marked.hoist .inr)
  Proc.call (.inl .release)
  Proc.ofExcept result

theorem advance_underLock {body : Body Unit Unit} (body' : Body Unit Unit) {as : List Answer}
    {w' : World}
    (h : Prog.advance execBody as (body ()) w = some (body' (), w')) :
    Prog.advance (exec .supervisor) as (underLock body ()) w = some (underLock body' (), w') := by
  refine Prog.advance_bind (Prog.advance_bind ?_)
  refine Prog.advance_hoist (fun _ _ _ => rfl) ?_
  exact Prog.advance_bind (Prog.advance_bind h)

theorem comes_underLock {body : Body Unit Unit} {as : List Answer} {w' : World}
    (h : Proc.Comes execBody as body () w w') :
    Proc.Comes (exec .supervisor) as (underLock body) () w w' := by
  obtain ⟨p, hp⟩ := h
  exact ⟨_, advance_underLock (fun _ => p) hp⟩

/-- The thread of a supervisor that is in `supervise_locked`. -/
def Supervising (body : Body Unit Unit) :
    Prog (Thread.Cmd .supervisor) (Thread.Result .supervisor) :=
  (underLock body ()).bind fun r => .ret r.1

/-- The world once the supervisor has its lock. -/
def World.acquired (w : World) : World := { w with lock := some .supervisor, phase := .active }

theorem run_superviseLocked {setup : Setup} {cfg : system.Config} {names : List String}
    {runId : String} {environment : List (String × OsString)}
    (hthread : cfg.thread .supervisor = setup.thread .supervisor)
    (hphase : cfg.world.phase = .launched) (hlock : cfg.world.lock = none)
    (h : Loadable spec state cfg.world) (hrequests : spec.leaseRequests = ⟨[], names⟩)
    (hrunId : canonicalRunId state.runId = .ok runId) (hnames : validateNames names = .ok ())
    (hne : names ≠ [])
    (hpopulate : LeaseAllocation.populateState [] (startingState state) 0
      (tempPaths cfg.world.runDir names) = .ok (state', environment)) :
    Machine.run cfg ((List.replicate 9 {}).map (.supervisor, ·)) =
      some {
        world := cfg.world.acquired.started state
        thread := Function.update cfg.thread .supervisor
          (Supervising (underLeases (setup.runDir.join "stop.request.json")
            { spec := spec
              state := state'
              leases := { runId := runId, ports := [], environment := environment }
              logs := .create spec.maxLogBytes })) } := by
  have hacquire : exec .supervisor (.inl .acquire) {} cfg.world =
      some (.ok (), cfg.world.acquired) := by
    simp only [exec, execEither, execLock, hphase, hlock, ne_eq, not_true_eq_false, if_false,
      if_true]
    rfl
  have hloadable : Loadable spec state cfg.world.acquired :=
    ⟨h.specJson, h.stateJson, h.sized, h.readable, h.schema, h.matched⟩
  refine Machine.run_advance ?_
  rw [hthread]
  refine (Prog.advance_exec hacquire).trans ?_
  exact Prog.advance_bind (advance_underLock (underLeases _ _)
    (advance_superviseLocked hloadable hrequests hrunId hnames hne hpopulate))

theorem run_underLeases {cfg : system.Config} (locals : Locals)
    (hthread : cfg.thread .supervisor = Supervising (underLeases path locals)) :
    ∃ p, Machine.run cfg ((List.replicate 11 {}).map (.supervisor, ·)) =
      some {
        world := cfg.world.followed locals
        thread := Function.update cfg.thread .supervisor p } := by
  have hcomes : Proc.Comes execBody (List.replicate 11 {}) (underLeases path locals) () cfg.world
      (cfg.world.followed locals) := comes_underLeases locals
  obtain ⟨p, hp⟩ := comes_underLock hcomes
  refine ⟨p.bind fun r => .ret r.1, Machine.run_advance ?_⟩
  rw [hthread]
  exact Prog.advance_bind hp

theorem exec_runDir {t : Thread} {β : Type} {c : t.Cmd β} {a : Answer} {b : β} {w w' : World}
    (h : exec t c a w = some (b, w')) : w'.runDir = w.runDir := by
  cases t with
  | start =>
    cases c with
    | inl c => rw [execCreate_frame (show execCreate c a w = some (b, w') from h)]
    | inr c => rw [execClient_frame (show execClient .start c a w = some (b, w') from h)]
  | supervisor =>
    cases c with
    | inl c => rw [execLock_frame (show execLock c a w = some (b, w') from h)]
    | inr c => rw [execBody_frame (show execBody c a w = some (b, w') from h)]
  | reader stream => rw [execReader_frame (show execReader stream c a w = some (b, w') from h)]
  | client index =>
    rw [execClient_frame (show execClient (.client index) c a w = some (b, w') from h)]

/-! ## Arguments that repeat a placeholder -/

section Repeat

variable {p r : List Char}

omit [Toolchain]

theorem replaceChars_replicate (hp : Braced p) (n : Nat) :
    replaceChars p r 0 (List.replicate n p).flatten = (List.replicate n r).flatten := by
  induction n with
  | zero => rfl
  | succ n ih =>
    have hself : occurrences p p = 1 := by
      have h := hp.occurrences_append (t := []) hp
      rwa [List.append_nil, if_pos rfl] at h
    -- No occurrence of a placeholder overlaps the next copy of it.
    have hcount (t : List Char) : occurrences p (p ++ t) = occurrences p p + occurrences p t := by
      rw [hp.occurrences_append hp, if_pos rfl, hself]
    rw [List.replicate_succ, List.flatten_cons, List.replicate_succ, List.flatten_cons,
      replaceChars_append (hcount _) (Nat.zero_le _), replaceChars_self hp.ne_nil, ih]

theorem leftover_of_not_mem {text : List Char} (h : '{' ∉ text) : leftover text = false := by
  induction text with
  | nil => rfl
  | cons c text ih =>
    have ⟨hc, htext⟩ := not_or.mp (mt List.mem_cons.mpr h)
    rw [leftover, ih htext, Bool.or_false, Bool.eq_false_iff]
    exact fun hmarked => hc (marked_cons.mp hmarked).1.symm

/-- `n` copies of a text. -/
def repeated (n : Nat) (text : String) : String :=
  String.ofList (List.replicate n text.toList).flatten

theorem quotedSize_repeated (n : Nat) (text : String) :
    Json.quotedSize (repeated n text).toList =
      n * (text.toList.map Json.escapedSize).sum + 2 := by
  rw [repeated, String.toList_ofList, Json.quotedSize, List.map_flatten, List.map_replicate,
    List.sum_flatten, List.map_replicate, List.sum_replicate_nat]

theorem replacePlaceholders_repeated [Toolchain] (hplatform : Toolchain.platform = .unix)
    {name : String} (hname : validName name) {value : String} (hvalue : '{' ∉ value.toList)
    (n : Nat) :
    replacePlaceholders (repeated n (tempPlaceholder name)) [] [(name, value)] =
      .ok (repeated n value) := by
  have hbody {brace : Char} (hbrace : ¬ NameChar brace) (hkind : brace ∉ "temp:".toList) :
      brace ∉ "temp:".toList ++ name.toList := not_mem_of_validName hname hbrace hkind
  have hbraced : Braced (tempPlaceholder name).toList :=
    ⟨_, tempPlaceholder_toList name, hbody (by decide) (by decide), hbody (by decide) (by decide)⟩
  have hpasses :
      passes (leaseBindings [] [(name, value)]) (repeated n (tempPlaceholder name)).toList =
        (List.replicate n value.toList).flatten := by
    rw [repeated, String.toList_ofList]
    exact replaceChars_replicate hbraced n
  have hclean : '{' ∉ (List.replicate n value.toList).flatten := by
    intro hmem
    obtain ⟨copy, hcopy, hmem⟩ := List.mem_flatten.mp hmem
    rw [List.eq_of_mem_replicate hcopy] at hmem
    exact hvalue hmem
  rw [replacePlaceholders_eq hplatform, hpasses, leftover_of_not_mem hclean]
  rfl

end Repeat

/-! ## The expanded state -/

omit [Toolchain] in
theorem mapM_ok {ε α β : Type} {f : α → Except ε β} {g : α → β} {xs : List α}
    (h : ∀ x ∈ xs, f x = .ok (g x)) : xs.mapM f = .ok (xs.map g) := by
  induction xs with
  | nil => rfl
  | cons x xs ih =>
    obtain ⟨hx, hxs⟩ := List.forall_mem_cons.mp h
    rw [List.mapM_cons, hx, ih hxs]
    rfl

omit [Toolchain] in
theorem OsString.toStr_ofString (s : String) : (OsString.ofString s).toStr = some s := by
  have hbytes : (⟨(OsString.ofString s).bytes.toArray⟩ : ByteArray) = s.toByteArray := by
    rw [← String.utf8Encode_toList]
    exact ByteArray.ext List.data_toByteArray.symm
  rw [OsString.toStr, hbytes, String.fromUTF8?, dif_pos s.isValidUTF8]
  rfl

/-- The lease of a temporary directory at a path. -/
def acquiredTemp (name : String) (path : PathBuf) : TempDirectoryLease :=
  { name, path := some path, acquiredAtMs := some 0, releasedAtMs := none }

/-- The state whose one temporary directory is acquired, with its arguments. -/
def expandedState (name : String) (path : PathBuf) (args : List String) (state : RunState) :
    RunState :=
  { state with
    leases := { ports := [], tempDirectories := [acquiredTemp name path] }
    command := { state.command with
      args
      environment := { state.command.environment with
        injectedNames := [environmentName "TEMP" name] } }
    readiness := { state.readiness with checks := [] } }

theorem populateState_repeated (hplatform : Toolchain.platform = .unix) {name : String}
    (hname : validName name) {value : String} (hvalue : '{' ∉ value.toList) {counts : List Nat}
    (hleases : state.leases = .requested [] [name])
    (hargs : state.command.args = counts.map (repeated · (tempPlaceholder name)))
    (hinjected : state.command.environment.injectedNames = [])
    (hchecks : state.readiness.checks = []) :
    LeaseAllocation.populateState [] state 0 [(name, .ofString value)] =
      .ok (expandedState name (.ofString value) (counts.map (repeated · value)) state,
        [(environmentName "TEMP" name, .ofString value)]) := by
  have hexpand : state.command.args.mapM (fun argument =>
      replacePlaceholders argument [] [(name, value)]) = .ok (counts.map (repeated · value)) := by
    rw [hargs, List.mapM_map]
    exact mapM_ok fun n _ => replacePlaceholders_repeated hplatform hname hvalue n
  have hresolved : state.readiness.checks.mapM (LeaseAllocation.resolveCheck []) = .ok [] := by
    rw [hchecks]
    rfl
  have htemps : LeaseAllocation.populateTemps [(name, .ofString value)] 0
      state.leases.tempDirectories =
        .ok [(acquiredTemp name (.ofString value), environmentName "TEMP" name,
          .ofString value)] := by
    rw [hleases]
    simp [LeaseAllocation.populateTemps, LeaseState.requested, BTreeMap.get?,
      TempDirectoryLease.acquire, acquiredTemp, bind, Except.bind, pure, Except.pure]
  have hports : LeaseAllocation.populatePorts [] 0 state.leases.ports = .ok [] := by
    rw [hleases]
    rfl
  have hvalues : BTreeMap.ofList
      (([] : List ReservedPort).map fun reserved => (reserved.name, toString reserved.port)) = [] :=
    rfl
  simp only [LeaseAllocation.populateState, hvalues, hports, htemps, hexpand, hresolved, hinjected,
    List.mapM_cons, List.mapM_nil, OsString.toStr_ofString, bind, Except.bind, pure, Except.pure]
  rfl

omit [Toolchain] in
/-- A state that can be written as a document. -/
theorem RunState.toJson_isSome {dir : String}
    (hdir : state.command.workingDirectory = .ofString dir) (hchecks : state.readiness.checks = [])
    (htemps : ∀ lease ∈ state.leases.tempDirectories, ∃ text, lease.path = some (.ofString text)) :
    ∃ document, state.toJson = some document := by
  have hcommand : ∃ command, state.command.toJson = some command := by
    rw [CommandSpec.toJson, hdir, OsString.toJson, OsString.toStr_ofString]
    exact ⟨_, rfl⟩
  have hreadiness : ∃ readiness, state.readiness.toJson = some readiness := by
    rw [ReadinessState.toJson, hchecks]
    exact ⟨_, rfl⟩
  have hlease (lease : TempDirectoryLease) (text : String)
      (hpath : lease.path = some (.ofString text)) : ∃ document, lease.toJson = some document := by
    rw [TempDirectoryLease.toJson, hpath]
    simp only [OsString.toJson, OsString.toStr_ofString]
    exact ⟨_, rfl⟩
  have hleases : ∃ documents, state.leases.tempDirectories.mapM TempDirectoryLease.toJson =
      some documents := by
    generalize state.leases.tempDirectories = leases at htemps
    induction leases with
    | nil => exact ⟨[], rfl⟩
    | cons lease leases ih =>
      obtain ⟨⟨text, hpath⟩, hrest⟩ := List.forall_mem_cons.mp htemps
      obtain ⟨document, hdocument⟩ := hlease lease text hpath
      obtain ⟨documents, hdocuments⟩ := ih hrest
      exact ⟨document :: documents, by rw [List.mapM_cons, hdocument, hdocuments]; rfl⟩
  obtain ⟨command, hcommand⟩ := hcommand
  obtain ⟨readiness, hreadiness⟩ := hreadiness
  obtain ⟨temps, hleases⟩ := hleases
  rw [RunState.toJson, hcommand, hreadiness, LeaseState.toJson, hleases]
  exact ⟨_, rfl⟩

/-- A state whose arguments alone are too large is not readable. -/
theorem RunState.oversized_of_args [LawfulStateFormat] {document : Json}
    (h : state.toJson = some document)
    (hargs : DOCUMENT_LIMIT ≤ (state.command.args.map fun arg => Json.quotedSize arg.toList).sum) :
    ¬ state.Readable := by
  have hencode : state.encode = some (Json.utf8 (document.pretty 0) ++ [10]) := by
    rw [RunState.encode, h]
    rfl
  rw [RunState.readable_iff hencode]
  intro hfits
  have hsize := hfits document h
  have hle := RunState.le_size_of_args h
  omega

/-- The state that the supervisor leaves to its running process, with the arguments
    of `counts`. -/
def followedState (spec : SupervisorSpec) (leases : LeaseAllocation) (name value : String)
    (counts : List Nat) (state : RunState) : RunState :=
  let state := expandedState name (.ofString value) (counts.map (repeated · value)) state
  runningState spec (leases.handoffAt 0 state)

/-- Enough copies of a text make a state that no reader accepts. -/
theorem followedState_oversized [LawfulStateFormat] {leases : LeaseAllocation}
    {name value dir : String} {counts : List Nat} (hdir : state.command.workingDirectory = .ofString dir)
    (hsize : DOCUMENT_LIMIT ≤
      (counts.map fun n => n * (value.toList.map Json.escapedSize).sum + 2).sum) :
    ¬ (followedState spec leases name value counts state).Readable := by
  have hdir' : (followedState spec leases name value counts state).command.workingDirectory =
      .ofString dir := hdir
  obtain ⟨document, hdocument⟩ :=
    RunState.toJson_isSome hdir' rfl (List.forall_mem_singleton.mpr ⟨value, rfl⟩)
  refine RunState.oversized_of_args hdocument (hsize.trans (Nat.le_of_eq ?_))
  change _ = (List.map _ (counts.map (repeated · value))).sum
  rw [List.map_map]
  exact congrArg List.sum (List.map_congr_left fun n _ => (quotedSize_repeated n value).symm)

omit [Toolchain] in
/-- A path that does not end with a separator, and a name in it. -/
theorem OsString.join_ofString {front back name : String}
    (hback : (OsString.ofString back).bytes.getLast?.any (· ≠ Path.separator))
    (hname : (OsString.ofString name).bytes.head? ≠ some Path.separator) :
    (OsString.ofString (front ++ back)).join name = .ofString (front ++ back ++ "/" ++ name) := by
  obtain ⟨last, hlast, hseparator⟩ := (Option.any_eq_true _ _).mp hback
  have hbytes : (OsString.ofString (front ++ back)).bytes =
      (OsString.ofString front).bytes ++ (OsString.ofString back).bytes := by
    simp only [OsString.ofString, String.toList_append, List.flatMap_append]
  have hend : (OsString.ofString (front ++ back)).bytes.getLast? = some last := by
    rw [hbytes, List.getLast?_append, hlast]
    rfl
  have hjoin : ¬ ((OsString.ofString (front ++ back)).bytes = [] ∨
      (OsString.ofString (front ++ back)).bytes.getLast? = some Path.separator) := by
    rintro (heq | heq)
    · rw [heq] at hend
      cases hend
    · rw [hend] at heq
      exact of_decide_eq_true hseparator (Option.some.inj heq)
  rw [OsString.join, Path.join, if_neg hname, if_neg hjoin]
  simp only [OsString.ofString, String.toList_append, List.flatMap_append, List.append_assoc]
  rfl

end Procherd
