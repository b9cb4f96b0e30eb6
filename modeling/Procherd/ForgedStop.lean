-- SUMMARY: Forged stop requests: a run among whose steps somebody puts unauthenticated bytes at `stop.request.json` is the run without them, unless the supervisor looks at the file.
import Procherd.Interaction.Tampering
import Procherd.StopPolling

/-!
# Forged stop requests

Whoever can write in the run directory can put anything at `stop.request.json`.
A run that is tampered with like this is compared with the run that makes the
same moves without the forged file. They agree as long as the supervisor does not
look at the file while it is forged. Once a poll reads it, the supervisor fails.
-/

namespace Procherd

open Interaction

/-! ## Authentic documents -/

/-- A well-formed stop request of the run with its owner token. -/
def Authentic [Toolchain] (options : StartOptions) (bytes : Bytes) : Prop :=
  bytes.length ≤ DOCUMENT_LIMIT ∧ ∃ request, Toolchain.decodeStopRequest bytes = .ok request ∧
    request.schemaVersion = STOP_REQUEST_SCHEMA ∧ request.runId = options.runId ∧
    request.ownerToken = options.ownerToken

section Documents

variable [Toolchain] {options : StartOptions} {bytes : Bytes}

theorem StopRequest.Valid.authentic_encode [LawfulStopFormat] {request : StopRequest}
    (h : request.Valid options) : Authentic options request.encode :=
  ⟨h.length_le, request,
    LawfulStopFormat.decode_encode request h.requestedAtMs_le h.graceMs_le,
    h.schemaVersion, h.runId, h.ownerToken⟩

/-- The supervisor accepts the authentic documents and no others. -/
theorem authentic_iff {spec : SupervisorSpec} (hspec : spec.Of options) (path : PathBuf) :
    Authentic options bytes ↔
      ∃ request, parseStopRequest path bytes = .ok request ∧ authentic spec request := by
  simp only [Authentic, parseStopRequest, authentic, decide_eq_true_eq, hspec.runId,
    hspec.ownerToken]
  constructor
  · rintro ⟨hlength, request, hdecode, hauthentic⟩
    refine ⟨request, ?_, hauthentic⟩
    rw [if_neg (Nat.not_lt.mpr hlength), hdecode]
  · rintro ⟨request, hparse, hauthentic⟩
    split at hparse
    · cases hparse
    · rename_i hlength
      refine ⟨Nat.le_of_not_lt hlength, request, ?_, hauthentic⟩
      split at hparse
      · rename_i request' hdecode
        cases hparse
        exact hdecode
      · cases hparse

theorem parseStopRequest_error {path : PathBuf} {e : AppError}
    (h : parseStopRequest path bytes = .error e) : e.kind = "integrity" := by
  simp only [parseStopRequest] at h
  repeat' split at h
  all_goals cases h
  all_goals rfl

theorem validateStopRequest_forged {spec : SupervisorSpec} (hspec : spec.Of options)
    {path : PathBuf} {request : StopRequest} (hforged : ¬ Authentic options bytes)
    (hparse : parseStopRequest path bytes = .ok request) :
    ∃ e, validateStopRequest spec request = .error e ∧ e.kind = "integrity" := by
  have hrefused : authentic spec request = false := by
    by_contra h
    exact hforged ((authentic_iff hspec path).mpr ⟨request, hparse, by simpa using h⟩)
  refine ⟨.integrity "stop request failed run identity or owner-token validation", ?_, rfl⟩
  rw [validateStopRequest, hrefused, if_neg Bool.false_ne_true]

end Documents

/-! ## The stop request as a part of the world -/

def World.withStop (w : World) (file : Option Bytes) : World := { w with stopRequest := file }

section Frames

variable {β : Type} {a : Answer} {w w' : World} {b : β} {file : Option Bytes}

theorem execCreate_withStop {c : CreateCmd β} (h : execCreate c a w = some (b, w')) :
    execCreate c a (w.withStop file) = some (b, w'.withStop file) := by
  cases c <;> simp only [execCreate, fallible, committed, World.withStop] at h ⊢ <;>
    repeat' split at h
  all_goals cases h <;> simp [*, World.setState]

theorem execReader_withStop {stream : LogStream} {c : ReaderCmd β}
    (h : execReader stream c a w = some (b, w')) :
    execReader stream c a (w.withStop file) = some (b, w'.withStop file) := by
  cases c <;> simp only [execReader, World.withStop] at h ⊢ <;> repeat' split at h
  all_goals cases h <;> simp [*]

theorem execLock_withStop {c : LockCmd β} (h : execLock c a w = some (b, w')) :
    execLock c a (w.withStop file) = some (b, w'.withStop file) := by
  cases c <;> simp only [execLock, World.withStop] at h ⊢ <;> repeat' split at h
  all_goals cases h <;> simp [*]

variable [Toolchain]

theorem execClient_withStop {t : Thread} {c : ClientCmd β} (hc : c.stops = none)
    (h : execClient t c a w = some (b, w')) :
    execClient t c a (w.withStop file) = some (b, w'.withStop file) := by
  cases c with
  | writeStopRequest request => cases hc
  | _ =>
    simp only [execClient, fallible, fallibleIo, World.withStop] at h ⊢
    repeat' split at h
    all_goals cases h <;> simp [*, World.statePath, missingRun]

omit [Toolchain] in
theorem receive_withStop :
    receive (w.withStop file) = ((receive w).1, (receive w).2.withStop file) := by
  have hqueue : (w.withStop file).queue = w.queue := rfl
  have hdropped : (w.withStop file).sendersDropped = w.sendersDropped := rfl
  unfold receive
  rw [hqueue, hdropped]
  cases w.queue with
  | cons chunk queue => rfl
  | nil => cases w.sendersDropped <;> rfl

/-- The commands that do not depend on what is at `stop.request.json`. -/
def BodyCmd.blind {β : Type} : BodyCmd β → Bool
  | .inspectStop | .openStop | .stopExists | .removeStop => false
  | _ => true

theorem execBody_withStop {c : BodyCmd β} (hc : c.blind) (h : execBody c a w = some (b, w')) :
    execBody c a (w.withStop file) = some (b, w'.withStop file) := by
  cases c with
  | inspectStop | openStop | stopExists | removeStop => cases hc
  | tryRecv | recvTimeout =>
    obtain ⟨hreceiver, hreceive⟩ := Option.ite_none_right_eq_some.mp h
    rw [Option.some.injEq] at hreceive
    refine (if_pos hreceiver).trans ?_
    rw [receive_withStop, hreceive]
  | _ =>
    simp only [execBody, fallible, committed, fallibleIo, World.withStop] at h ⊢
    repeat' split at h
    all_goals
      cases h
      simp [*, World.setState, World.append, World.send, World.statePath, World.specPath]

end Frames

/-! ## Polls of a forged request -/

namespace ForgedPoll

variable [Toolchain]

/-- The supervisor's operations on a file that is forged whenever they look at it. -/
def interface (options : StartOptions) : Interface BodyCmd Unit where
  step c _ b _ := match c, b with
    | .inspectStop, r => r = .ok ()
    | .openStop, r => ∃ bytes, r = .ok bytes ∧ ¬ Authentic options bytes
    | .readStop file, r => r = .ok file
    | _, _ => True
  rely _ _ := True
  guar _ _ _ _ := True
  rely_refl _ := trivial
  rely_trans _ _ := trivial

def eitherInterface (options : StartOptions) : Interface (Either LockCmd BodyCmd) Unit where
  step c o b o' := match c with
    | .inl _ => True
    | .inr c => (interface options).step c o b o'
  rely _ _ := True
  guar _ _ _ _ := True
  rely_refl _ := trivial
  rely_trans _ _ := trivial

theorem wp_readStopJson {options : StartOptions} {σ : Type} {s : σ} (path : PathBuf) :
    Proc.wp (interface options) (readStopJson path)
      (fun request _ _ => ∃ bytes, ¬ Authentic options bytes ∧
        parseStopRequest path bytes = .ok request)
      (fun e _ _ => e.kind = "integrity") s () := by
  refine Proc.wp_bind (Proc.wp_attempt fun _ _ r _ hs => ⟨trivial, ?_⟩)
  cases hs
  refine Proc.wp_bind (Proc.wp_attempt fun _ _ r _ hs => ⟨trivial, ?_⟩)
  obtain ⟨file, rfl, hforged⟩ := hs
  refine Proc.wp_bind (Proc.wp_attempt fun _ _ r _ hs => ⟨trivial, ?_⟩)
  cases hs
  refine Proc.wp_ofExcept (fun request hparse => ⟨file, hforged, hparse⟩) fun e hparse => ?_
  exact parseStopRequest_error hparse

/-- It fails, and not with an error that may mean a missing file. -/
theorem wp_readStopRequest {options : StartOptions} {spec : SupervisorSpec}
    (hspec : spec.Of options) {σ : Type} {s : σ} (path : PathBuf) :
    Proc.wp (interface options) (readStopRequest path spec) (fun _ _ _ => False)
      (fun e _ _ => e.kind = "integrity") s () := by
  refine Proc.wp_bind (Proc.wp_outcome (Proc.wp_mono (wp_readStopJson path) ?_ ?_))
  · rintro request s - ⟨bytes, hforged, hparse⟩
    obtain ⟨e, hvalidate, he⟩ := validateStopRequest_forged hspec hforged hparse
    simp only [hvalidate]
    exact Proc.wp_bind (Proc.wp_throw he)
  · rintro e s - he
    have hio : e.kind ≠ "io" := by
      rw [he]
      decide
    simp only [if_neg hio]
    exact Proc.wp_throw he

end ForgedPoll

/-! ## The removal of a request

The supervisor removes a request only after it has read one, and nobody else
removes any. -/

namespace StopPresence

/-- The supervisor over whether there is a file. -/
def interface : Interface BodyCmd Bool where
  step c o b o' := match c, b with
    | .openStop, r => (r.isOk → o) ∧ o' = o
    | .removeStop, _ => True
    | _, _ => o' = o
  rely o o' := o → o'
  guar c o _ _ := match c with
    | .removeStop => o
    | _ => True
  rely_refl _ := id
  rely_trans h h' := h' ∘ h

theorem failureFrame :
    FailureFrame interface (fun _ => True) (fun _ => True) (fun _ => True) where
  keeps c hc _ _ _ _ _ _ _ := by
    cases c with
    | removeStop => cases hc
    | _ => exact ⟨trivial, trivial⟩
  fails _ _ _ _ _ _ _ _ := trivial
  failsIo _ _ _ _ _ _ _ _ _ := trivial
  appendFailed _ _ _ := trivial
  thrown _ := trivial
  persist _ _ _ _ := ⟨trivial, trivial, fun _ _ => trivial⟩

variable [Toolchain]

/-- A poll that gets to the removal has opened the file. -/
theorem polls (path : PathBuf) :
    FailureFrame.Polls interface (fun _ => True) (fun _ => True) (fun _ => True) path := by
  intro l o _ _
  refine Proc.wp_seq (fun r l' o' => l' = l ∧ (r.isOk → o')) (Proc.wp_outcome ?_) ?_
  · refine Proc.wp_bind (Proc.wp_attempt fun o₁ _ r o₂ _ => ⟨trivial, ?_⟩)
    cases r with
    | error e => exact ⟨rfl, fun h => by cases h⟩
    | ok u =>
      refine Proc.wp_bind (Proc.wp_attempt fun o₃ _ r o₄ hs => ⟨trivial, ?_⟩)
      obtain ⟨hopened, rfl⟩ := hs
      cases r with
      | error e => exact ⟨rfl, fun h => by cases h⟩
      | ok file =>
        refine Proc.wp_bind (Proc.wp_attempt fun o₅ hrely r o₆ hs => ⟨trivial, ?_⟩)
        cases hs
        cases r with
        | error e => exact ⟨rfl, fun h => by cases h⟩
        | ok bytes =>
          have hpresent : o₅ := hrely (hopened rfl)
          exact Proc.wp_ofExcept (fun _ _ => ⟨rfl, fun _ => hpresent⟩) fun _ _ =>
            ⟨rfl, fun _ => hpresent⟩
  · rintro r _ o ⟨rfl, hpresent⟩
    cases r with
    | ok request =>
      refine Proc.wp_bind (Proc.wp_ofExcept (fun _ _ => ?_) fun _ _ => ⟨trivial, trivial⟩)
      refine Proc.wp_bind (Proc.wp_attempt fun o₁ hrely r o₂ _ => ⟨hrely (hpresent rfl), ?_⟩)
      cases r with
      | ok u => exact Proc.wp_pure ⟨rfl, trivial⟩
      | error e => exact ⟨trivial, trivial⟩
    | error e =>
      simp only
      split
      · refine Proc.wp_bind (Proc.wp_call fun _ _ found _ _ => ⟨trivial, ?_⟩)
        cases found with
        | true => exact Proc.wp_throw ⟨trivial, trivial⟩
        | false => exact Proc.wp_pure ⟨rfl, trivial⟩
      · exact Proc.wp_throw ⟨trivial, trivial⟩

theorem wp_superviseAndMark (path : PathBuf) (o : Bool) :
    Proc.wp interface (superviseAndMark path) (fun _ _ _ => True) (fun _ _ _ => True) () o := by
  refine failureFrame.wp_superviseAndMark (polls path) ?_
  refine Proc.wp_bind (Proc.wp_attempt fun _ _ r _ _ => ⟨trivial, ?_⟩)
  cases r with
  | error e => exact ⟨trivial, trivial⟩
  | ok spec =>
    refine Proc.wp_bind (Proc.wp_throwIf (fun _ => ⟨trivial, trivial⟩) fun _ => ?_)
    refine Proc.wp_bind (Proc.wp_attempt fun _ _ r _ _ => ⟨trivial, ?_⟩)
    cases r with
    | error e => exact ⟨trivial, trivial⟩
    | ok state =>
      exact Proc.wp_bind (Proc.wp_throwIf (fun _ => ⟨trivial, trivial⟩) fun _ =>
        Proc.wp_pure ⟨trivial, trivial⟩)

end StopPresence

/-! ## Runs with forged requests -/

section Conditions

variable [Toolchain]

/-- Somebody puts bytes at `stop.request.json` that are no stop request of the run. -/
def plants (options : StartOptions) (w w' : World) : Prop :=
  ∃ bytes, ¬ Authentic options bytes ∧ w' = w.withStop (some bytes)

/-- The file holds no stop request of the run. -/
def Forged (options : StartOptions) (w : World) : Prop :=
  ∃ bytes, w.stopRequest = some bytes ∧ ¬ Authentic options bytes

/-- The commands whose result depends on what is at `stop.request.json`. -/
def BodyCmd.looks {β : Type} : BodyCmd β → Bool
  | .inspectStop | .openStop | .stopExists => true
  | _ => false

/-- A thread executes such a command. -/
def Thread.looks : (t : Thread) → {β : Type} → t.Cmd β → Bool
  | .supervisor, _, .inr c => c.looks
  | _, _, _ => false

/-- The supervisor does not look at a forged request. -/
def unseen (options : StartOptions) : system.Condition := fun i _ c _ w =>
  i.looks c → ¬ Forged options w

/-- The supervisor removes no request that is not there. -/
def removesPresent : system.Condition
  | .supervisor, _, .inr .removeStop, _, w => w.stopRequest.isSome
  | _, _, _, _, _ => True

/-- The worlds `w` with and `v` without the forged requests. -/
structure Masked (options : StartOptions) (w v : World) : Prop where
  world : v = w.withStop v.stopRequest
  file : v.stopRequest = w.stopRequest ∨ Forged options w

end Conditions

section Steps

variable [Toolchain] {options : StartOptions} {β : Type} {a : Answer} {w w' v : World} {b : β}

omit [Toolchain] in
theorem World.withStop_self (w : World) : w.withStop w.stopRequest = w := rfl

/-- The commands of any thread that do not depend on the file. -/
def Thread.blind : (t : Thread) → {β : Type} → t.Cmd β → Bool
  | .supervisor, _, .inr c => c.blind
  | t, _, c => (t.stops c).isNone

theorem exec_withStop {i : Thread} {c : i.Cmd β} {file : Option Bytes} (hc : i.blind c)
    (h : exec i c a w = some (b, w')) :
    exec i c a (w.withStop file) = some (b, w'.withStop file) := by
  cases i with
  | start =>
    cases c with
    | inl c => exact execCreate_withStop h
    | inr c => exact execClient_withStop (Option.isNone_iff_eq_none.mp hc) h
  | supervisor =>
    cases c with
    | inl c => exact execLock_withStop h
    | inr c => exact execBody_withStop hc h
  | reader stream => exact execReader_withStop h
  | client index => exact execClient_withStop (Option.isNone_iff_eq_none.mp hc) h

/-- They leave the file as it is. -/
theorem exec_stopRequest {i : Thread} {c : i.Cmd β} (hc : i.blind c)
    (h : exec i c a w = some (b, w')) : w'.stopRequest = w.stopRequest := by
  have h' : exec i c a w = some (b, w'.withStop w.stopRequest) := by
    conv_lhs => rw [← World.withStop_self w]
    exact exec_withStop hc h
  rw [h, Option.some.injEq, Prod.mk.injEq] at h'
  rw [h'.2]
  rfl

theorem Masked.blind (h : Masked options w v) {i : Thread} {c : i.Cmd β} (hc : i.blind c)
    (hexec : exec i c a w = some (b, w')) :
    ∃ v', exec i c a v = some (b, v') ∧ Masked options w' v' := by
  have hfile := exec_stopRequest hc hexec
  refine ⟨w'.withStop v.stopRequest, ?_, rfl, ?_⟩
  · rw [h.world]
    exact exec_withStop hc hexec
  · refine h.file.imp (fun h => h.trans hfile.symm) ?_
    rintro ⟨bytes, hbytes, hforged⟩
    exact ⟨bytes, hfile.trans hbytes, hforged⟩

omit [Toolchain] in
theorem fallible_alike {α : Type} {R : World → World → Prop} {r r' : Except AppError α}
    {x y : World} (hR : R w v) (hxy : R x y) (h : fallible a w (some (r, x)) = some (r', w')) :
    ∃ v', fallible a v (some (r, y)) = some (r', v') ∧ R w' v' := by
  unfold fallible at h ⊢
  cases hfault : a.fault with
  | some fault =>
    rw [hfault] at h
    cases h
    exact ⟨v, rfl, hR⟩
  | none =>
    rw [hfault] at h
    cases h
    exact ⟨y, rfl, hxy⟩

omit [Toolchain] in
theorem committed_alike {α : Type} {R : World → World → Prop} {u : α} {r : Except AppError α}
    {x y : World} (hR : R w v) (hxy : R x y) (h : committed a w (u, x) = some (r, w')) :
    ∃ v', committed a v (u, y) = some (r, v') ∧ R w' v' := by
  unfold committed at h ⊢
  cases hfault : a.fault with
  | some fault =>
    rw [hfault] at h
    cases h
    refine ⟨_, rfl, ?_⟩
    cases a.took with
    | true => exact hxy
    | false => exact hR
  | none =>
    rw [hfault] at h
    cases h
    exact ⟨y, rfl, hxy⟩

/-- A stop request replaces a forged one. -/
theorem Masked.write (h : Masked options w v) {t : Thread} {request : StopRequest}
    {r : Except AppError Unit}
    (hexec : execClient t (.writeStopRequest request) a w = some (r, w')) :
    ∃ v', execClient t (.writeStopRequest request) a v = some (r, v') ∧ Masked options w' v' := by
  have hdir : v.dir = w.dir := by
    rw [h.world]
    rfl
  have hmissing : missingRun v = missingRun w := by
    rw [h.world]
    rfl
  simp only [execClient, hdir, hmissing] at hexec ⊢
  split at hexec
  · rename_i hpresent
    rw [if_pos hpresent]
    refine committed_alike h ?_ hexec
    refine ⟨?_, .inl rfl⟩
    rw [h.world]
    rfl
  · rename_i habsent
    rw [if_neg habsent]
    exact fallible_alike h h hexec

/-- A removal removes the forged one in the place of the other. -/
theorem Masked.remove (h : Masked options w v) (hpresent : v.stopRequest.isSome)
    {r : Except AppError Unit} (hexec : execBody .removeStop a w = some (r, w')) :
    ∃ v', execBody .removeStop a v = some (r, v') ∧ Masked options w' v' := by
  obtain ⟨file, hv⟩ := Option.isSome_iff_exists.mp hpresent
  have hw : ∃ bytes, w.stopRequest = some bytes := by
    obtain hfile | ⟨bytes, hbytes, -⟩ := h.file
    · exact ⟨file, hfile ▸ hv⟩
    · exact ⟨bytes, hbytes⟩
  obtain ⟨bytes, hw⟩ := hw
  simp only [execBody, hv, hw] at hexec ⊢
  refine fallible_alike h ?_ hexec
  refine ⟨?_, .inl rfl⟩
  rw [h.world]
  rfl

theorem Masked.client (h : Masked options w v) {t : Thread} {c : ClientCmd β}
    (hexec : execClient t c a w = some (b, w'))
    (hblind : c.stops = none → ∃ v', execClient t c a v = some (b, v') ∧ Masked options w' v') :
    ∃ v', execClient t c a v = some (b, v') ∧ Masked options w' v' := by
  cases c with
  | writeStopRequest request => exact h.write hexec
  | _ => exact hblind rfl

/-- Nothing tells a run with forged requests that the supervisor does not see from
    the run without them. -/
theorem hides : Machine.Hides (M := system) (unseen options) removesPresent (plants options)
    (Masked options) where
  tampered h htamper := by
    obtain ⟨bytes, hforged, rfl⟩ := htamper
    exact ⟨h.world, .inr ⟨bytes, rfl, hforged⟩⟩
  step {i β c a w v w' b} hok hknown hexec h := by
    cases i with
    | start =>
      cases c with
      | inl c => exact h.blind (i := .start) (c := .inl c) rfl hexec
      | inr c =>
        exact h.client hexec fun hc =>
          h.blind (i := .start) (c := .inr c) (Option.isNone_iff_eq_none.mpr hc) hexec
    | reader stream => exact h.blind (i := .reader stream) rfl hexec
    | client index =>
      exact h.client hexec fun hc =>
        h.blind (i := .client index) (Option.isNone_iff_eq_none.mpr hc) hexec
    | supervisor =>
      cases c with
      | inl c => exact h.blind (i := .supervisor) (c := .inl c) rfl hexec
      | inr c =>
        have hsame : c.looks → ∃ v', execBody c a v = some (b, v') ∧ Masked options w' v' := by
          intro hc
          have hfile : v.stopRequest = w.stopRequest := h.file.resolve_right (hok hc)
          have hv : v = w := by
            rw [h.world, hfile]
            rfl
          exact ⟨w', hv ▸ hexec, rfl, .inl rfl⟩
        have hblind : c.blind → ∃ v', execBody c a v = some (b, v') ∧ Masked options w' v' :=
          fun hc => h.blind (i := .supervisor) (c := .inr c) hc hexec
        cases c with
        | inspectStop | openStop | stopExists => exact hsame rfl
        | removeStop => exact h.remove hknown hexec
        | _ => exact hblind rfl

theorem execClient_present {t : Thread} {c : ClientCmd β}
    (h : execClient t c a w = some (b, w'))
    (hblind : c.stops = none → w'.stopRequest = w.stopRequest) (hw : w.stopRequest.isSome) :
    w'.stopRequest.isSome := by
  cases c with
  | writeStopRequest request =>
    simp only [execClient] at h
    split at h
    · obtain ⟨-, -, -, rfl | rfl⟩ | ⟨-, -, rfl⟩ := committed_cases h
      · exact hw
      · rfl
      · rfl
    · obtain ⟨-, -, -, rfl⟩ | ⟨-, h⟩ := fallible_cases h
      · exact hw
      · cases h
        exact hw
  | _ =>
    rw [hblind rfl]
    exact hw

/-- Nobody but the supervisor removes a request. -/
theorem other_present {j : Thread} (hj : j ≠ .supervisor) {c : j.Cmd β}
    (h : exec j c a w = some (b, w')) (hw : w.stopRequest.isSome) : w'.stopRequest.isSome := by
  cases j with
  | start =>
    cases c with
    | inl c =>
      rw [exec_stopRequest (i := .start) (c := .inl c) rfl h]
      exact hw
    | inr c =>
      refine execClient_present h (fun hc => ?_) hw
      exact exec_stopRequest (i := .start) (c := .inr c) (Option.isNone_iff_eq_none.mpr hc) h
  | supervisor => exact absurd rfl hj
  | reader stream =>
    rw [exec_stopRequest (i := .reader stream) rfl h]
    exact hw
  | client index =>
    refine execClient_present h (fun hc => ?_) hw
    exact exec_stopRequest (i := .client index) (Option.isNone_iff_eq_none.mpr hc) h

theorem execBody_present {c : BodyCmd β} (h : execBody c a w = some (b, w')) :
    StopPresence.interface.step c w.stopRequest.isSome b w'.stopRequest.isSome := by
  have hblind : c.blind → w'.stopRequest.isSome = w.stopRequest.isSome := fun hc =>
    congrArg Option.isSome (exec_stopRequest (i := .supervisor) (c := .inr c) hc h)
  cases c with
  | inspectStop =>
    obtain ⟨-, -, -, rfl⟩ | ⟨-, h⟩ := fallible_cases h
    · rfl
    · split at h <;> cases h <;> rfl
  | openStop =>
    obtain ⟨fault, -, rfl, rfl⟩ | ⟨-, h⟩ := fallible_cases h
    · exact ⟨fun h => (by cases h), rfl⟩
    · split at h
      · cases h
        exact ⟨fun h => (by cases h), rfl⟩
      · rename_i bytes hbytes
        cases h
        exact ⟨fun _ => Option.isSome_of_eq_some hbytes, rfl⟩
  | stopExists =>
    cases h
    rfl
  | removeStop => trivial
  | _ => exact hblind rfl

end Steps

section Runs

variable [Toolchain] {setup : Setup}

/-- The supervisor removes only a request that is there. -/
theorem reach_removesPresent {cfg : system.Config}
    (h : Machine.Reach (Machine.always system) setup.initial cfg) (m : system.Move) :
    Machine.Meets removesPresent cfg m := by
  intro β c k hc
  obtain ⟨t, a⟩ := m
  cases t with
  | supervisor =>
    cases c with
    | inl c => trivial
    | inr c =>
      cases c with
      | removeStop =>
        exact nextGuarantee (V := fun w => w.stopRequest.isSome) (L := StopPresence.interface)
          (fun _ => True) (fun _ _ _ _ _ _ h => execBody_present h)
          (fun _ hj _ _ _ _ _ _ h _ => other_present hj h) (fun _ _ _ _ _ => trivial)
          (fun path o _ => StopPresence.wp_superviseAndMark path o) h hc trivial
          (a := { fault := some (.document "") }) rfl
      | _ => trivial
  | _ => trivial

/-- The supervisor's operations on `stop.request.json` succeed and find a forged
    request. -/
def findsForged (options : StartOptions) : system.Condition
  | .supervisor, _, .inr c, a, w => c.stopFile → a.fault = none ∧ Forged options w
  | _, _, _, _, _ => True

theorem describes_forgedPoll (options : StartOptions) :
    Machine.Describes (M := system) (findsForged options) .supervisor (fun _ => ())
      (ForgedPoll.eitherInterface options) where
  self c a w b w' hok hexec := by
    cases c with
    | inl c => trivial
    | inr c =>
      cases c with
      | inspectStop =>
        obtain ⟨hfault, file, hfile, hforged⟩ := hok rfl
        simp only [exec, system, execEither, execBody, fallible, hfault, hfile] at hexec
        cases hexec
        rfl
      | openStop =>
        obtain ⟨hfault, file, hfile, hforged⟩ := hok rfl
        simp only [exec, system, execEither, execBody, fallible, hfault, hfile] at hexec
        cases hexec
        exact ⟨file, rfl, hforged⟩
      | readStop file =>
        obtain ⟨hfault, -⟩ := hok rfl
        simp only [exec, system, execEither, execBody, fallible, hfault] at hexec
        cases hexec
        rfl
      | _ => trivial
  other _ _ _ _ _ _ _ _ _ := trivial

/-- A poll that sees a forged request fails, whatever the request is and whatever
    the others do in between. -/
theorem forged_poll_fails {σ : Type} {path : PathBuf} {spec : SupervisorSpec} {s s' : σ}
    {f : Except AppError (Option StopRequest) × σ →
      Prog (system.Cmd .supervisor) (system.Result .supervisor)}
    {r : Except AppError (Option StopRequest)} {cfg cfg' : system.Config}
    (hspec : spec.Of setup.options)
    (hpoll : Machine.Executes (findsForged setup.options) .supervisor f cfg
      ((readStopRequest path spec s).hoist .inr) cfg' (.ret (r, s'))) :
    ∃ e, r = .error e ∧ e.kind = "integrity" := by
  have hresult := hpoll.result (describes_forgedPoll setup.options) ?_
    (Proc.wp_hoist (ForgedPoll.wp_readStopRequest hspec path))
  · cases r with
    | ok found => exact hresult.elim
    | error e => exact ⟨e, rfl, hresult⟩
  · exact fun _ _ _ _ hr => hr

/-- As long as the supervisor does not look at `stop.request.json` while it holds
    no stop request of the run, whatever is planted there changes nothing but the
    file: without it the same steps lead to the same threads and the same world. A
    poll that does look fails. -/
theorem forged_stop_ignored (setup : Setup) :
    (∀ (ms : List system.Move) (cfg : system.Config),
      Machine.TamperedRun (M := system) (unseen setup.options) (plants setup.options)
        setup.initial ms cfg →
      ∃ cfg₀, Machine.run setup.initial ms = some cfg₀ ∧ cfg₀.thread = cfg.thread ∧
        cfg₀.world.signals = cfg.world.signals ∧ cfg₀.world.history = cfg.world.history ∧
        cfg₀.world.stateJson = cfg.world.stateJson ∧
        cfg₀.world = cfg.world.withStop cfg₀.world.stopRequest) ∧
    ∀ (σ : Type) (path : PathBuf) (spec : SupervisorSpec) (s s' : σ)
      (f : Except AppError (Option StopRequest) × σ →
        Prog (system.Cmd .supervisor) (system.Result .supervisor))
      (r : Except AppError (Option StopRequest)) (cfg cfg' : system.Config),
      spec.Of setup.options →
      Machine.Executes (findsForged setup.options) .supervisor f cfg
        ((readStopRequest path spec s).hoist .inr) cfg' (.ret (r, s')) →
      ∃ e, r = .error e ∧ e.kind = "integrity" := by
  refine ⟨fun ms cfg h => ?_, fun _ _ _ _ _ _ _ _ _ hspec hpoll => forged_poll_fails hspec hpoll⟩
  obtain ⟨cfg₀, hrun, hthread, hworld⟩ :=
    h.untampered hides (fun _ h m => reach_removesPresent h m) ⟨rfl, .inl rfl⟩
  refine ⟨cfg₀, hrun, hthread, ?_, ?_, ?_, hworld.world⟩
  all_goals
    rw [hworld.world]
    rfl

end Runs

end Procherd

namespace Procherd.Reference

open Interaction

/-- The command does not look at `stop.request.json`, or finds none or `stopNow`. -/
def seesStopNow (cfg : system.Config) (m : system.Move) : Bool :=
  match cfg.thread m.1 with
  | .exec c _ => !m.1.looks c || cfg.world.stopRequest.all fun bytes => bytes == stopNow.encode
  | _ => true

theorem meets_unseen (cfg : system.Config) (m : system.Move) (h : seesStopNow cfg m) :
    Machine.Meets (M := system) (unseen options) cfg m := by
  rintro β c k hc hlooks ⟨bytes, hbytes, hforged⟩
  have hseen : bytes = stopNow.encode := by
    simpa [seesStopNow, hc, hlooks, hbytes] using h
  rw [hseen] at hforged
  exact hforged stopNow_valid.authentic_encode

/-- An empty file is no stop request. -/
theorem plants_empty (w : World) : plants options w (w.withStop (some [])) := by
  refine ⟨[], ?_, rfl⟩
  rintro ⟨-, request, hdecode, -⟩
  have herror : Toolchain.decodeStopRequest [] = .error "invalid document" := rfl
  rw [herror] at hdecode
  cases hdecode

/-- A run in which an empty file is planted between the moves. -/
def plantedRun (check : system.Config → system.Move → Bool) (client : ClientProgram)
    (before after : List system.Move) : Option system.Config :=
  (Machine.runChecked check (setup client).initial before).bind fun cfg =>
    Machine.runChecked check { cfg with world := cfg.world.withStop (some []) } after

theorem tamperedRun_of_plantedRun {ok : system.Condition}
    {check : system.Config → system.Move → Bool}
    (hcheck : ∀ cfg m, check cfg m → Machine.Meets ok cfg m) {client : ClientProgram}
    {before after : List system.Move} {cfg : system.Config}
    (h : plantedRun check client before after = some cfg) :
    Machine.TamperedRun (M := system) ok (plants options) (setup client).initial
      (before ++ after) cfg := by
  obtain ⟨cfg₁, hbefore, hafter⟩ := Option.bind_eq_some_iff.mp h
  have hrun : Machine.TamperedRun (M := system) ok (plants options) (setup client).initial
      ([] ++ before) cfg₁ := .runChecked hcheck .init hbefore
  exact .runChecked hcheck (.tamper hrun (plants_empty _)) hafter

/-- The client's request replaces an empty file that was planted before it, and the
    run stops as if there had been none. -/
theorem forged_stop_ignored_replaced : ∃ (ms : List system.Move) (cfg cfg₀ : system.Config)
    (state : RunState),
    Machine.TamperedRun (M := system) (unseen options) (plants options)
      (setup stopper).initial ms cfg ∧ Machine.run (setup stopper).initial ms = some cfg₀ ∧
    cfg.world.state? = some state ∧ state.status = .stopped ∧
    cfg₀.world.signals = cfg.world.signals ∧ cfg₀.world.history = cfg.world.history := by
  have hrun : (plantedRun seesStopNow stopper (startUp ++ steps (.client 0) 4 {})
      (steps (.client 0) 1 {} ++ steps (.reader .stdout) 6 { count := 2 } ++
        steps (.reader .stderr) 3 {} ++
        steps .supervisor 30 { count := 1000, exit := some { code := some 0, signal := none } })).map
      (fun cfg => cfg.world.state?.map (·.status)) = some (some .stopped) := by decide +kernel
  obtain ⟨cfg, hcfg, hstatus⟩ := Option.map_eq_some_iff.mp hrun
  obtain ⟨state, hstate, hstatus⟩ := Option.map_eq_some_iff.mp hstatus
  have htampered := tamperedRun_of_plantedRun meets_unseen hcfg
  obtain ⟨cfg₀, hrun₀, -, hsignals, hhistory, -⟩ :=
    (forged_stop_ignored (setup stopper)).1 _ _ htampered
  exact ⟨_, cfg, cfg₀, state, htampered, hrun₀, hstate, hstatus, hsignals, hhistory⟩

/-- An empty file is planted where the supervisor polls: the run is killed and
    fails, and without the file it goes on. -/
theorem forged_stop_kills : ∃ (ms : List system.Move) (cfg cfg₀ : system.Config)
    (state state₀ : RunState),
    Machine.TamperedRun (M := system) (Machine.always system) (plants options)
      (setup idle).initial ms cfg ∧ Machine.run (setup idle).initial ms = some cfg₀ ∧
    cfg.world.state? = some state ∧ state.status = .failed ∧ cfg.world.signals = [.kill] ∧
    cfg₀.world.state? = some state₀ ∧ state₀.status = .running ∧ cfg₀.world.signals = [] := by
  have hrun : (plantedRun (fun _ _ => true) idle startUp (steps .supervisor 14 {})).map
      (fun cfg => (cfg.world.state?.map (·.status), cfg.world.signals)) =
      some (some .failed, [.kill]) := by decide +kernel
  have hrun₀ : (Machine.run (setup idle).initial (startUp ++ steps .supervisor 14 {})).map
      (fun cfg => (cfg.world.state?.map (·.status), cfg.world.signals)) =
      some (some .running, []) := by decide +kernel
  obtain ⟨cfg, hcfg, hfound⟩ := Option.map_eq_some_iff.mp hrun
  obtain ⟨cfg₀, hcfg₀, hfound₀⟩ := Option.map_eq_some_iff.mp hrun₀
  obtain ⟨hstatus, hsignals⟩ := Prod.mk.inj hfound
  obtain ⟨hstatus₀, hsignals₀⟩ := Prod.mk.inj hfound₀
  obtain ⟨state, hstate, hstatus⟩ := Option.map_eq_some_iff.mp hstatus
  obtain ⟨state₀, hstate₀, hstatus₀⟩ := Option.map_eq_some_iff.mp hstatus₀
  have hmeets : ∀ cfg m, (fun _ _ => true) cfg m = true → Machine.Meets system.always cfg m :=
    fun _ _ _ _ _ _ _ => trivial
  have htampered := tamperedRun_of_plantedRun hmeets hcfg
  exact ⟨_, cfg, cfg₀, state, state₀, htampered, hcfg₀, hstate, hstatus, hsignals, hstate₀,
    hstatus₀, hsignals₀⟩

end Procherd.Reference
