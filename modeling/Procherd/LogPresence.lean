-- SUMMARY: The presence of `logs.ndjson`: which statuses are durable before the file exists, and what a page is made of then.
import Procherd.Supervision
import Procherd.LogPages

/-!
# The presence of the log

The log is created after `running` is persisted. A page of a run whose log does
not exist yet is empty while the run is created or starting.
-/

namespace Procherd

open Interaction

/-! ## The view -/

/-- The document, and whether `logs.ndjson` exists. -/
structure PresenceView where
  document : Option RunState
  file : Bool

def World.presenceView (w : World) : PresenceView :=
  { document := w.state?, file := w.logsNdjson.isSome }

namespace PresenceView

/-- A status that is written after the log is created is only there with the log. -/
def Sound (o : PresenceView) : Prop :=
  ∀ state, o.document = some state → o.file ∨ state.status.uncaptured

def step : {β : Type} → BodyCmd β → PresenceView → β → PresenceView → Prop
  | _, .persistState state, o, r, o' => o' = { o with document := some state } ∨ (o' = o ∧ r ≠ .ok ())
  | _, .createLog, o, r, o' => o' = { o with file := true } ∨ (o' = o ∧ r ≠ .ok ())
  | _, .readState, o, r, o' => o' = o ∧ ∀ state, r = .ok state → o.document = some state
  | _, _, o, _, o' => o' = o

/-- The view of the supervisor, which has it to itself. -/
def interface : Interface BodyCmd PresenceView where
  step := step
  rely o o' := o' = o
  guar _ _ _ o' := o'.Sound
  rely_refl _ := rfl
  rely_trans h h' := h'.trans h

variable {runId : String} {o o' : PresenceView}

theorem step_plain {β : Type} {c : BodyCmd β} {b : β} (hc : c.plain) (h : step c o b o') :
    o' = o := by
  cases c with
  | readState => exact h.1
  | persistState _ => cases hc
  | createLog => cases hc
  | _ => exact h

theorem step_file {β : Type} {c : BodyCmd β} {b : β} (h : step c o b o') (hfile : o.file) :
    o'.file := by
  cases c with
  | persistState state =>
    obtain rfl | ⟨rfl, -⟩ := h
    · exact hfile
    · exact hfile
  | createLog =>
    obtain rfl | ⟨rfl, -⟩ := h
    · rfl
    · exact hfile
  | readState =>
    obtain ⟨rfl, -⟩ := h
    exact hfile
  | _ =>
    cases h
    exact hfile

theorem Sound.persist {state : RunState} (hfile : o.file ∨ state.status.uncaptured) :
    Sound { o with document := some state } := by
  rintro _ ⟨⟩
  exact hfile

theorem Sound.createLog : Sound { o with file := true } := fun _ _ => .inl rfl

/-! ## The supervisor -/

/-- The log exists once it is created. -/
structure Capturing (captured : Bool) (o : PresenceView) : Prop where
  sound : o.Sound
  file : captured → o.file

theorem supervision : Supervision interface runId (fun captured _ => Capturing captured) Sound where
  keeps _ _ _ _ hc _ _ _ _ h hrely hs := by
    cases hrely
    cases step_plain hc hs
    exact ⟨h.sound, h⟩
  keepsFailed _ hc _ _ _ _ h hrely hs := by
    cases hrely
    cases step_plain hc hs
    exact ⟨h, h⟩
  fails h := h.sound
  persist hstatus h hrely hs := by
    cases hrely
    obtain rfl | ⟨rfl, hr⟩ := hs
    · have hsound := Sound.persist (hstatus.imp_left h.file)
      exact ⟨hsound, hsound, fun _ _ h => ⟨hsound, h.file⟩⟩
    · exact ⟨h.sound, h.sound, fun hok => absurd hok hr⟩
  createLog h hrely hs := by
    cases hrely
    obtain rfl | ⟨rfl, hr⟩ := hs
    · exact ⟨.createLog, .createLog, fun _ _ _ => ⟨.createLog, fun _ => rfl⟩⟩
    · exact ⟨h.sound, h.sound, fun hok => absurd hok hr⟩
  release h hrely hs := by
    cases hrely
    cases hs
    exact ⟨h.sound, h.sound, fun _ _ => h⟩
  releaseFailed h hrely hs := by
    cases hrely
    cases hs
    exact ⟨h, h⟩

/-- What the supervisor finds and writes until it has acquired its leases. -/
structure Preparing (runId : String) (o : PresenceView) : Prop where
  sound : o.Sound
  document : ∃ state, o.document = some state ∧ state.runId = runId ∧ state.Unreleased

theorem Preparing.kept (h : Preparing runId o) : o.Sound ∧ Preparing runId o := ⟨h.sound, h⟩

theorem frame : SupervisorFrame interface runId (Preparing runId) (fun captured _ => Capturing captured)
    Sound fun _ => Sound where
  supervision := supervision
  keeps _ hc _ _ _ _ h hrely hs := by
    cases hrely
    cases step_plain hc hs
    exact h.kept
  fails h := h.sound
  found h hrely hs := by
    cases hrely
    obtain ⟨state, hstate, hrest⟩ := h.document
    cases (hs.2 _ rfl).symm.trans hstate
    exact hrest
  persist hrunId hunreleased hstatus h hrely hs := by
    cases hrely
    obtain rfl | ⟨rfl, -⟩ := hs
    · exact Preparing.kept ⟨.persist (.inr (by rw [hstatus]; rfl)), _, rfl, hrunId, hunreleased⟩
    · exact h.kept
  reserve h hrely hs := by
    cases hrely
    cases hs
    exact h.kept
  release h hrely hs := by
    cases hrely
    cases hs
    exact h.kept
  acquired _ h := ⟨h.sound, nofun⟩
  keepsRead _ _ _ hc _ _ _ _ h hrely hs := by
    cases hrely
    cases step_plain hc hs
    exact ⟨h, h⟩
  read h hrely hs := by
    cases hrely
    cases hs.1
    exact h
  mark h hrely hs := by
    cases hrely
    obtain rfl | ⟨rfl, -⟩ := hs
    · exact Sound.persist (.inr rfl)
    · exact h

end PresenceView

/-! ## Runs -/

variable [Toolchain] {setup : Setup} {cfg cfg' : system.Config}

section Steps

variable {β : Type} {a : Answer} {w w' : World} {b : β}

theorem step_presenceView {c : BodyCmd β} (h : execBody c a w = some (b, w')) :
    PresenceView.step c w.presenceView b w'.presenceView := by
  have hquiet (hc : c.writesState = false) (hfile : w'.logsNdjson.isSome = w.logsNdjson.isSome) :
      w'.presenceView = w.presenceView :=
    congrArg₂ PresenceView.mk (congrArg StateFile.state? (execBody_state hc h).1) hfile
  cases c with
  | persistState state =>
    obtain ⟨_, -, rfl, rfl | rfl⟩ | ⟨-, -, rfl⟩ := committed_cases h
    · exact .inr ⟨rfl, nofun⟩
    · exact .inl rfl
    · exact .inl rfl
  | createLog =>
    obtain ⟨_, -, rfl, rfl⟩ | ⟨-, h⟩ := fallible_cases h
    · exact .inr ⟨rfl, nofun⟩
    · cases h
      exact .inl rfl
  | readState =>
    obtain ⟨_, -, rfl, rfl⟩ | ⟨-, h⟩ := fallible_cases h
    · exact ⟨rfl, fun _ hread => nomatch hread⟩
    · cases h
      exact ⟨rfl, fun state hread => StateFile.read_ok hread⟩
  | appendLog bytes =>
    refine hquiet rfl ?_
    simp only [execBody] at h
    split at h <;> cases h
    · rfl
    · simp only [World.append, Option.isSome_map]
  | dropLog buffer =>
    refine hquiet rfl ?_
    cases h
    simp only [World.append, Option.isSome_map]
  | _ =>
    refine hquiet rfl ?_
    simp only [execBody, fallible, committed, fallibleIo, receive] at h
    repeat' split at h
    all_goals cases h <;> rfl

/-- Only the supervisor writes the log. -/
theorem logsNdjson_of_other {i : Thread} (hi : i ≠ .supervisor) {c : i.Cmd β}
    (h : exec i c a w = some (b, w')) : w'.logsNdjson = w.logsNdjson := by
  cases i with
  | start =>
    cases c with
    | inl c => rw [execCreate_frame (show execCreate c a w = some (b, w') from h)]
    | inr c => rw [execClient_frame (show execClient .start c a w = some (b, w') from h)]
  | supervisor => exact absurd rfl hi
  | reader stream => rw [execReader_frame (show execReader stream c a w = some (b, w') from h)]
  | client index =>
    rw [execClient_frame (show execClient (.client index) c a w = some (b, w') from h)]

/-- The log is not removed. -/
theorem logsNdjson_isSome {i : Thread} {c : i.Cmd β} (h : exec i c a w = some (b, w'))
    (hw : w.logsNdjson.isSome) : w'.logsNdjson.isSome := by
  by_cases hi : i = .supervisor
  · subst hi
    cases c with
    | inl c => rwa [execLock_frame (show execLock c a w = some (b, w') from h)]
    | inr c => exact PresenceView.step_file (step_presenceView h) hw
  · rwa [logsNdjson_of_other hi h]

/-- What the supervisor finds when it acquires its lock. -/
theorem preparing_of_created {options : StartOptions} (h : Created options w)
    (hw : w'.stateJson = w.stateJson) :
    PresenceView.Preparing options.runId w'.presenceView := by
  obtain ⟨requests, createdAtMs, -, -, hstate, -⟩ := h.documents
  have hdocument : w'.presenceView.document = some (options.initialState requests createdAtMs) := by
    simp only [World.presenceView, World.state?, hw, hstate]
    rfl
  refine ⟨fun state hfound => .inr ?_, _, hdocument, rfl,
    initialState_unreleased options requests createdAtMs⟩
  cases hdocument.symm.trans hfound
  rfl

/-- The documents that `start` writes do not need the log. -/
theorem start_sound {options : StartOptions} {c : CreateCmd β}
    (hok : startProtocol options .start (.inl c) a w) (h : execCreate c a w = some (b, w'))
    (hw : w.presenceView.Sound) : w'.presenceView.Sound := by
  have hwrite {state : RunState} (hstatus : state.status.uncaptured) {r : Except AppError Unit}
      (h : committed a w ((), w.setState state) = some (r, w')) : w'.presenceView.Sound := by
    have hnew : (w.setState state).presenceView.Sound := by
      intro _ hstate
      obtain rfl := Option.some.inj hstate
      exact .inr hstatus
    obtain ⟨-, -, -, rfl | rfl⟩ | ⟨-, -, rfl⟩ := committed_cases h
    · exact hw
    · exact hnew
    · exact hnew
  cases c with
  | writeNewState state =>
    obtain ⟨-, -, requests, createdAtMs, -, -, rfl⟩ := hok
    exact hwrite rfl h
  | replaceState state =>
    obtain ⟨-, -, old, error, updatedAtMs, finishedAtMs, -, rfl⟩ := hok
    exact hwrite rfl h
  | createState =>
    obtain ⟨-, -, -, rfl⟩ | ⟨-, h⟩ := fallible_cases h
    · exact hw
    · cases h
      intro state hstate
      exact absurd hstate (Option.some_ne_none state).symm
  | _ =>
    simp only [execCreate, fallible] at h
    repeat' split at h
    all_goals cases h <;> exact hw

end Steps

/-- A status that is written after the log is created is only there with the log. -/
theorem reach_presence (h : Machine.Reach system.always setup.initial cfg) :
    cfg.world.presenceView.Sound := by
  have hreach := reach_bodyGuarantee (V := World.presenceView) (L := PresenceView.interface)
    (PresenceView.Preparing setup.options.runId) (fun c a w b w' _ hexec => step_presenceView hexec)
    ?_ ?_ (fun path o ho => PresenceView.frame.wp_superviseAndMark path ho) (reach_launched h)
  · refine Machine.Reach.invariant (M := system) (J := fun w => w.presenceView.Sound) ?_ hreach
      fun _ h => nomatch h
    intro i β c a w b w' hok hexec hw
    cases i with
    | start =>
      cases c with
      | inl c => exact start_sound hok.1.2.1.1 hexec hw
      | inr c =>
        rw [execClient_frame (show execClient .start c a w = some (b, w') from hexec)]
        exact hw
    | supervisor =>
      cases c with
      | inl c =>
        rw [execLock_frame (show execLock c a w = some (b, w') from hexec)]
        exact hw
      | inr c => exact hok.2 b w' hexec
    | reader stream =>
      rw [execReader_frame (show execReader stream c a w = some (b, w') from hexec)]
      exact hw
    | client index =>
      rw [execClient_frame (show execClient (.client index) c a w = some (b, w') from hexec)]
      exact hw
  · intro β j hj c a w b w' hok hexec hactive
    refine congrArg₂ PresenceView.mk
      (congrArg StateFile.state? (sameRun_of_active hj hok.2.1 hexec hactive).stateJson) ?_
    exact congrArg Option.isSome (logsNdjson_of_other hj hexec)
  · intro a w w' hok hexec
    simp only [execLock] at hexec
    repeat' split at hexec
    all_goals cases hexec
    rename_i hphase _ _ _
    exact preparing_of_created (hok.2.2.created (not_not.mp hphase)) rfl

/-! ## Pages -/

/-- What opening and reading `logs.ndjson` gives. -/
def World.openLogs (w : World) : Except IoError (Except AppError Bytes) :=
  match w.logsNdjson with
  | none => .error .missing
  | some bytes => .ok (.ok bytes)

/-- A client whose own calls do not fail finds the log as it is. -/
theorem execClient_readLogs {t : Thread} {a : Answer} {w : World} (hio : a.io = none)
    (hfault : a.fault = none) : execClient t .readLogs a w = some (w.openLogs, w) := by
  cases hlogs : w.logsNdjson with
  | none => simp [execClient, fallibleIo, hio, World.openLogs, hlogs]
  | some bytes => simp [execClient, fallibleIo, hio, hfault, World.openLogs, hlogs]

/-- A page that does not fail for want of the log: it is empty if there is none. -/
def Served (w : World) (r : Except AppError LogsResult) : Prop :=
  r ≠ .error (.ofIo .missing) ∧
    (w.logsNdjson = none → ∃ result, r = .ok result ∧ result.records = [])

/-- The page is served unless the log is missing and the state read before is
    `running` or `failed`. -/
theorem logs_served_iff (setup : Setup) {cfg cfg' : system.Config}
    (h : Machine.Reach system.always setup.initial cfg) (h' : Machine.Reach system.always cfg cfg')
    (state : RunState) (hstate : cfg.world.state? = some state) (query : LogQuery)
    (hlimit : 1 ≤ query.limit ∧ query.limit ≤ 1000) :
    Served cfg'.world (readLogs state query cfg'.world.openLogs) ↔
      (cfg'.world.logsNdjson = none → state.status ≠ .running ∧ state.status ≠ .failed) := by
  cases hfile : cfg'.world.logsNdjson with
  | some bytes =>
    simp only [Served, World.openLogs, hfile, reduceCtorEq, false_implies, and_true, iff_true]
    intro herror
    have hscan := readLogs_scan state hlimit bytes
    split at hscan
    · rename_i e hfailed
      cases hscan.symm.trans herror
      exact absurd (scanLines_error hfailed) (by decide)
    · obtain ⟨result, hresult, -⟩ := hscan
      cases hresult.symm.trans herror
  | none =>
    have huncaptured : state.status.uncaptured := by
      refine (reach_presence h state hstate).resolve_left fun hsome => ?_
      have hkept : cfg'.world.logsNdjson.isSome := Machine.Reach.invariant (M := system)
        (J := fun w => w.logsNdjson.isSome) (fun _ _ _ _ _ _ _ _ => logsNdjson_isSome) h' hsome
      rw [hfile] at hkept
      cases hkept
    have hvalid : ¬ (query.limit = 0 ∨ 1000 < query.limit) := by omega
    have hkind : IoError.missing.kind = .notFound := rfl
    simp only [Served, World.openLogs, hfile, readLogs, hvalid, hkind, bind, Except.bind, if_false]
    cases hstatus : state.status with
    | created => simp [pure, Except.pure]
    | starting => simp [pure, Except.pure]
    | running => simp
    | failed => simp
    | _ =>
      rw [hstatus] at huncaptured
      cases huncaptured

end Procherd

namespace Procherd.Reference

open Interaction

/-- The first page. -/
def firstPage : LogQuery := { afterCursor := 0, limit := 100, stream := none }

/-- The page of a run that has not captured anything yet. -/
theorem logs_served_iff_starting : ∃ (cfg : system.Config) (state : RunState),
    cfg.world.state? = some state ∧ state.status = .starting ∧ cfg.world.logsNdjson = none ∧
      Served cfg.world (readLogs state firstPage cfg.world.openLogs) := by
  have hrun : (Machine.run (setup idle).initial (steps .start 9 {} ++ steps .supervisor 10 {})).map
      (fun cfg => (cfg.world.state?.map (·.status), cfg.world.logsNdjson)) =
      some (some .starting, none) := by decide +kernel
  obtain ⟨cfg, hcfg, hresult⟩ := Option.map_eq_some_iff.mp hrun
  obtain ⟨hstate, hfile⟩ := Prod.mk.inj hresult
  obtain ⟨state, hstate, hstatus⟩ := Option.map_eq_some_iff.mp hstate
  refine ⟨cfg, state, hstate, hstatus, hfile, ?_⟩
  refine (logs_served_iff (setup idle) (.of_run hcfg) .init state hstate firstPage (by decide)).mpr ?_
  rw [hstatus]
  exact fun _ => ⟨nofun, nofun⟩

def notFound : Answer := { io := some .missing }

/-- The command of the run does not exist. -/
theorem logs_not_served_unspawned : ∃ (cfg : system.Config) (state : RunState),
    Machine.Reach system.always (setup idle).initial cfg ∧ cfg.world.state? = some state ∧
      state.exit.any (·.reason = .spawnFailed) ∧
      readLogs state firstPage cfg.world.openLogs = .error (.ofIo .missing) := by
  have hrun : (Machine.run (setup idle).initial (steps .start 9 {} ++ steps .supervisor 10 {} ++
      steps .supervisor 1 notFound ++ steps .supervisor 5 {})).map
      (fun cfg => (cfg.world.state?.map fun state =>
        (state.status, state.exit.any (·.reason = .spawnFailed)), cfg.world.logsNdjson)) =
      some (some (.failed, true), none) := by decide +kernel
  obtain ⟨cfg, hcfg, hresult⟩ := Option.map_eq_some_iff.mp hrun
  obtain ⟨hstate, hfile⟩ := Prod.mk.inj hresult
  obtain ⟨state, hstate, hfailed⟩ := Option.map_eq_some_iff.mp hstate
  obtain ⟨hstatus, hreason⟩ := Prod.mk.inj hfailed
  refine ⟨cfg, state, .of_run hcfg, hstate, hreason, ?_⟩
  simp only [readLogs, World.openLogs, hfile, hstatus]
  rfl

end Procherd.Reference
