-- SUMMARY: The poll of the stop request among its writers: where no request is committed between a missed look at the file and the test of its existence, the poll returns nothing or a committed request, and the run does not fail of it.
import Procherd.Interaction.Execution
import Procherd.Failures
import Procherd.Reference

/-!
# The poll of the stop request

`read_stop_request` inspects, opens and reads `stop.request.json`, then either
tests whether it exists or removes it, while any clients replace it. The poll is
sound as long as no request is committed after it found no file and before it
tests whether there is one.
-/

namespace Procherd

open Interaction

/-! ## Valid requests -/

/-- A stop request of the run, as the supervisor accepts it. -/
structure StopRequest.Valid (options : StartOptions) (request : StopRequest) : Prop where
  schemaVersion : request.schemaVersion = STOP_REQUEST_SCHEMA
  runId : request.runId = options.runId
  ownerToken : request.ownerToken = options.ownerToken
  requestedAtMs_le : request.requestedAtMs ≤ u64Max
  graceMs_le : request.graceMs ≤ u64Max
  length_le : request.encode.length ≤ DOCUMENT_LIMIT

/-- The spec of the run, as far as stop requests are checked against it. -/
structure SupervisorSpec.Of (options : StartOptions) (spec : SupervisorSpec) : Prop where
  runId : spec.runId = options.runId
  ownerToken : spec.ownerToken = options.ownerToken

section Requests

variable [Toolchain] {options : StartOptions} {request : StopRequest}

theorem StopRequest.Valid.parse [LawfulStopFormat] (h : request.Valid options) (path : PathBuf) :
    parseStopRequest path request.encode = .ok request := by
  simp only [parseStopRequest, Nat.not_lt.mpr h.length_le, if_false,
    LawfulStopFormat.decode_encode request h.requestedAtMs_le h.graceMs_le]

omit [Toolchain] in
theorem StopRequest.Valid.validate (h : request.Valid options) {spec : SupervisorSpec}
    (hspec : spec.Of options) : validateStopRequest spec request = .ok () := by
  have hauthentic : authentic spec request = true :=
    decide_eq_true ⟨h.schemaVersion, h.runId.trans hspec.runId.symm,
      h.ownerToken.trans hspec.ownerToken.symm⟩
  rw [validateStopRequest, hauthentic, if_pos rfl]

end Requests

/-! ## The view of the poll -/

structure StopView where
  /-- `stop.request.json`. -/
  file : Option Bytes
  /-- The poll found no file. -/
  missed : Bool
  requests : List StopRequest
  /-- `spec.json`. -/
  spec : Option SupervisorSpec
  /-- `state.json` is complete. -/
  document : Bool

def World.stopView (w : World) : StopView where
  file := w.stopRequest
  missed := w.pollMissed
  requests := w.requests
  spec := w.specJson
  document := w.state?.isSome

namespace StopView

variable {options : StartOptions} {v v' : StopView}

/-- The file holds a committed request, and there is none where the poll missed it. -/
structure Sound (options : StartOptions) (v : StopView) : Prop where
  valid : ∀ bytes, v.file = some bytes →
    ∃ request ∈ v.requests, request.Valid options ∧ bytes = request.encode
  missed : v.missed → v.file = none

/-- What the writers of requests do. -/
structure Writes (options : StartOptions) (v v' : StopView) : Prop where
  missed : v'.missed = v.missed
  requests : ∀ request ∈ v.requests, request ∈ v'.requests
  file : v'.file = v.file ∨ v.missed = false ∧
    ∃ request ∈ v'.requests, request.Valid options ∧ v'.file = some request.encode

theorem Writes.refl (v : StopView) : v.Writes options v := ⟨rfl, fun _ => id, .inl rfl⟩

theorem Writes.trans {v₁ v₂ v₃ : StopView} (h : v₁.Writes options v₂) (h' : v₂.Writes options v₃) :
    v₁.Writes options v₃ where
  missed := h'.missed.trans h.missed
  requests request hmem := h'.requests request (h.requests request hmem)
  file := by
    obtain hfile | ⟨hmissed, hrest⟩ := h'.file
    · obtain hfile₁ | ⟨hmissed, request, hmem, hvalid, hfile₁⟩ := h.file
      · exact .inl (hfile.trans hfile₁)
      · exact .inr ⟨hmissed, request, h'.requests request hmem, hvalid, hfile.trans hfile₁⟩
    · exact .inr ⟨h.missed ▸ hmissed, hrest⟩

theorem Writes.sound (h : v.Writes options v') (hv : v.Sound options) : v'.Sound options := by
  obtain hfile | ⟨hmissed, request, hmem, hvalid, hfile⟩ := h.file
  · refine ⟨fun bytes hbytes => ?_, fun hmissed => ?_⟩
    · obtain ⟨request, hmem, hrest⟩ := hv.valid bytes (hfile ▸ hbytes)
      exact ⟨request, h.requests request hmem, hrest⟩
    · rw [hfile]
      exact hv.missed (h.missed ▸ hmissed)
  · refine ⟨fun bytes hbytes => ⟨request, hmem, hvalid, ?_⟩, fun hmissed' => ?_⟩
    · exact Option.some.inj (hbytes.symm.trans hfile)
    · rw [h.missed, hmissed] at hmissed'
      cases hmissed'

/-- A file that is there stays there. -/
theorem Writes.present (h : v.Writes options v') (hv : v.file.isSome) : v'.file.isSome := by
  obtain hfile | ⟨-, _, -, -, hfile⟩ := h.file
  · rw [hfile]
    exact hv
  · rw [hfile]
    rfl

/-- The commands of the supervisor on the file, none of which fails by itself. -/
def step : {β : Type} → BodyCmd β → StopView → β → StopView → Prop
  | _, .inspectStop, v, r, v' =>
    match v.file with
    | none => r = .error (.ofIo .missing) ∧ v' = { v with missed := true }
    | some _ => r = .ok () ∧ v' = v
  | _, .openStop, v, r, v' =>
    match v.file with
    | none => r = .error (.ofIo .missing) ∧ v' = { v with missed := true }
    | some bytes => r = .ok bytes ∧ v' = v
  | _, .readStop file, v, r, v' => r = .ok file ∧ v' = v
  | _, .stopExists, v, found, v' => found = v.file.isSome ∧ v' = { v with missed := false }
  | _, .removeStop, v, r, v' =>
    match v.file with
    | none => r = .error (.ofIo .missing) ∧ v' = v
    | some _ => r = .ok () ∧ v' = { v with file := none }
  | _, _, v, _, v' => v'.file = v.file ∧ v'.missed = v.missed ∧ v'.requests = v.requests

/-- The interface of the poll. -/
def polling (options : StartOptions) : Interface BodyCmd StopView where
  step := step
  rely := Writes options
  guar c _ _ _ := c.stopFile
  rely_refl := .refl
  rely_trans := .trans

theorem Sound.of_step (h : v.Sound options) {β : Type} {c : BodyCmd β} {b : β}
    (hs : (polling options).step c v b v') : v'.Sound options := by
  have hsame (hfile : v'.file = v.file) (hmissed : v'.missed = v.missed)
      (hrequests : v'.requests = v.requests) : v'.Sound options := by
    refine ⟨?_, ?_⟩
    · rw [hfile, hrequests]
      exact h.valid
    · rw [hfile, hmissed]
      exact h.missed
  cases c with
  | inspectStop =>
    simp only [polling, StopView.step] at hs
    split at hs
    · rename_i hfile
      rw [hs.2]
      exact ⟨h.valid, fun _ => hfile⟩
    · rw [hs.2]
      exact h
  | openStop =>
    simp only [polling, StopView.step] at hs
    split at hs
    · rename_i hfile
      rw [hs.2]
      exact ⟨h.valid, fun _ => hfile⟩
    · rw [hs.2]
      exact h
  | readStop file =>
    rw [hs.2]
    exact h
  | stopExists =>
    rw [hs.2]
    exact ⟨h.valid, fun hmissed => by cases hmissed⟩
  | removeStop =>
    simp only [polling, StopView.step] at hs
    split at hs
    · rw [hs.2]
      exact h
    · rw [hs.2]
      exact ⟨(fun _ hbytes => by cases hbytes), fun _ => rfl⟩
  | _ => exact hsame hs.1 hs.2.1 hs.2.2

/-! ## The poll -/

/-- What a poll returns: no request, or a valid one that was committed. -/
def Returns (options : StartOptions) (r : Option StopRequest) (v : StopView) : Prop :=
  ∀ request ∈ r, request ∈ v.requests ∧ request.Valid options

theorem Returns.writes {r : Option StopRequest} (h : Returns options r v)
    (hv : v.Writes options v') : Returns options r v' :=
  fun request hmem => ⟨hv.requests request (h request hmem).1, (h request hmem).2⟩

variable [Toolchain] [LawfulStopFormat] {σ : Type} {s : σ}

/-- The attempt to read the request fails only where there is none. -/
theorem wp_readStopJson (path : PathBuf) (h : v.Sound options) :
    Proc.wp (polling options) (readStopJson path)
      (fun request s' v' => s' = s ∧ v'.Sound options ∧ v'.file.isSome ∧
        Returns options (some request) v')
      (fun e s' v' => s' = s ∧ v'.Sound options ∧ v'.missed ∧ e.kind = "io") s v := by
  refine Proc.wp_bind (Proc.wp_attempt fun v₁ hrely r v₂ hs => ⟨rfl, ?_⟩)
  have h₁ := hrely.sound h
  have h₂ := h₁.of_step hs
  simp only [polling, StopView.step] at hs
  split at hs
  · obtain ⟨rfl, rfl⟩ := hs
    exact ⟨rfl, h₂, rfl, rfl⟩
  obtain ⟨rfl, rfl⟩ := hs
  refine Proc.wp_bind (Proc.wp_attempt fun v₃ hrely r v₄ hs => ⟨rfl, ?_⟩)
  have h₃ := hrely.sound h₂
  have h₄ := h₃.of_step hs
  simp only [polling, StopView.step] at hs
  split at hs
  · obtain ⟨rfl, rfl⟩ := hs
    exact ⟨rfl, h₄, rfl, rfl⟩
  rename_i bytes hfile
  obtain ⟨rfl, rfl⟩ := hs
  obtain ⟨request, hmem, hvalid, rfl⟩ := h₃.valid bytes hfile
  refine Proc.wp_bind (Proc.wp_attempt fun v₅ hrely r v₆ hs => ⟨rfl, ?_⟩)
  obtain ⟨rfl, rfl⟩ := hs
  have hpresent := hrely.present (by rw [hfile]; rfl)
  refine Proc.wp_ofExcept (fun parsed hparsed => ?_) fun e he => ?_
  · cases (hvalid.parse path).symm.trans hparsed
    refine ⟨rfl, hrely.sound h₃, hpresent, ?_⟩
    rintro _ ⟨⟩
    exact ⟨hrely.requests request hmem, hvalid⟩
  · cases (hvalid.parse path).symm.trans he

/-- The poll does not fail. -/
theorem wp_readStopRequest (path : PathBuf) {spec : SupervisorSpec} (hspec : spec.Of options)
    (h : v.Sound options) :
    Proc.wp (polling options) (readStopRequest path spec)
      (fun r s' v' => s' = s ∧ v'.Sound options ∧ Returns options r v') (fun _ _ _ => False) s v := by
  refine Proc.wp_seq (fun r s' v' => s' = s ∧ v'.Sound options ∧
    (∀ request, r = .ok request → v'.file.isSome ∧ Returns options (some request) v') ∧
    ∀ e, r = .error e → v'.missed ∧ e.kind = "io") (Proc.wp_outcome ?_) ?_
  · refine Proc.wp_mono (wp_readStopJson path h) ?_ ?_
    · rintro request s v ⟨rfl, h, hr⟩
      exact ⟨rfl, h, fun _ hrequest => Except.ok.inj hrequest ▸ hr, fun _ he => by cases he⟩
    · rintro e s v ⟨rfl, h, hr⟩
      exact ⟨rfl, h, fun _ hrequest => (by cases hrequest), fun _ he => Except.error.inj he ▸ hr⟩
  rintro r _ v ⟨rfl, h, hok, herror⟩
  cases r with
  | ok request =>
    obtain ⟨hpresent, hreturns⟩ := hok request rfl
    have hvalidate := (hreturns request rfl).2.validate hspec
    refine Proc.wp_bind (Proc.wp_ofExcept (fun _ _ => ?_) fun e he => ?_)
    · refine Proc.wp_bind (Proc.wp_attempt fun v₁ hrely r v₂ hs => ⟨rfl, ?_⟩)
      have h₁ := hrely.sound h
      have h₂ := h₁.of_step hs
      have hfile := hrely.present hpresent
      simp only [polling, StopView.step] at hs
      split at hs
      · rename_i hnone
        rw [hnone] at hfile
        cases hfile
      · obtain ⟨rfl, rfl⟩ := hs
        have hkept : Returns options (some request) v₁ := hreturns.writes hrely
        exact Proc.wp_pure ⟨rfl, h₂, hkept⟩
    · cases hvalidate.symm.trans he
  | error e =>
    -- Nothing is committed between the missed look at the file and the test.
    obtain ⟨hmissed, hkind⟩ := herror e rfl
    simp only [hkind, if_true]
    refine Proc.wp_bind (Proc.wp_call fun v₁ hrely found v₂ hs => ⟨rfl, ?_⟩)
    have h₁ := hrely.sound h
    have h₂ := h₁.of_step hs
    have hnone : v₁.file.isSome = false := by
      rw [h₁.missed (hrely.missed ▸ hmissed)]
      rfl
    obtain ⟨rfl, rfl⟩ := hs
    simp only [hnone, Bool.false_eq_true, if_false]
    exact Proc.wp_pure ⟨rfl, h₂, fun _ hmem => by cases hmem⟩

end StopView

/-! ## The supervisor where its system calls succeed -/

/-- The error that the supervisor propagates from a command. -/
def BodyCmd.failure : {β : Type} → BodyCmd β → β → Option AppError
  | _, .removeSpec, .error e => some e
  | _, .persistState _, .error e => some e
  | _, .createTempDirectories _, .error e => some e
  | _, .reservePorts _ _, .error e => some e
  | _, .releaseRegistry _, .error e => some e
  | _, .createLog, .error e => some e
  | _, .appendLog _, .failed e _ => some e
  | _, .syncLog, .error e => some e
  | _, .signal _, .error e => if isProcessGone e then none else some (.ofIo e)
  | _, .startKill, .error e => if isProcessGone e then none else some (.ofIo e)
  | _, .tryWait, .error e => if e.kind = .interrupted then none else some (.ofIo e)
  | _, _, _ => none

/-- The errors of a system call after which the supervisor goes on. -/
def BodyCmd.tolerates {β : Type} : BodyCmd β → IoError → Bool
  | .signal _, e | .startKill, e => isProcessGone e
  | .tryWait, e => e.kind = .interrupted
  | _, _ => true

/-- The system calls of a command succeed, apart from the start of the process,
    which may fail. -/
structure BodyCmd.Succeeds {β : Type} (c : BodyCmd β) (a : Answer) : Prop where
  fault : a.fault = none
  io : ∀ e, a.io = some e → c.tolerates e
  bind : ∀ n, ∃ port, a.offers.bind n = .ok port

section Registry

variable [Toolchain] {α : Type} {e : AppError}

theorem oversizedDocument_notIo {path : PathBuf} : (oversizedDocument path).NotIo := by
  rw [AppError.NotIo, oversizedDocument, AppError.integrity_kind]
  decide

theorem validateRegistry_error {registry : PortRegistry} (h : validateRegistry registry = .error e) :
    e.NotIo := by
  simp only [validateRegistry] at h
  generalize registry.entries = entries at h
  induction entries with
  | nil => cases h
  | cons entry rest ih =>
    simp only [List.forM_eq_forM, List.forM_cons, bind, Except.bind] at h
    split at h
    · rename_i hentry
      cases h
      repeat' split at hentry
      all_goals cases hentry
      all_goals simp [AppError.NotIo]
    · exact ih h

theorem updateRegistry_error {disk : Option PortRegistry}
    {update : PortRegistry → Except AppError (α × PortRegistry)}
    (hupdate : ∀ registry e, update registry = .error e → e.NotIo)
    (h : updateRegistry disk update = .error e) : e.NotIo := by
  simp only [updateRegistry, bind, Except.bind] at h
  split at h
  · cases h
    simp [AppError.NotIo]
  · split at h
    · rename_i hvalidate
      cases h
      exact validateRegistry_error hvalidate
    · exact hupdate _ e h

omit [Toolchain] in
theorem allocatePort_error {offers : PortOffers} (hbind : ∀ n, ∃ port, offers.bind n = .ok port)
    {unavailable : List Nat} {n i : Nat} (h : allocatePort offers unavailable n i = .error e) :
    e.NotIo := by
  induction n generalizing i with
  | zero =>
    cases h
    simp [AppError.NotIo]
  | succ n ih =>
    obtain ⟨port, hport⟩ := hbind i
    simp only [allocatePort, hport] at h
    split at h
    · exact ih h
    · cases h

omit [Toolchain] in
theorem reservePorts_error {offers : PortOffers} (hbind : ∀ n, ∃ port, offers.bind n = .ok port)
    {active : Nat → String → Bool} {runId : String} {names : List String} {registry : PortRegistry}
    (h : reservePorts active offers runId names registry = .error e) : e.NotIo := by
  have hnames {names : List String} {unavailable : List Nat} {i k : Nat}
      {entries : List PortRegistryEntry} {reserved : List ReservedPort}
      (h : reserveNames offers runId names unavailable i k entries reserved = .error e) :
      e.NotIo := by
    induction names generalizing unavailable i k entries reserved with
    | nil => cases h
    | cons name rest ih =>
      simp only [reserveNames] at h
      split at h
      · rename_i hallocate
        cases h
        exact allocatePort_error hbind hallocate
      · exact ih h
  simp only [reservePorts, bind, Except.bind] at h
  split at h
  · rename_i hreserve
    cases h
    exact hnames hreserve
  · cases h

end Registry

namespace StopView

variable {options : StartOptions} {v v' : StopView}

/-- What the two reads at the start of the supervisor find, unless the document is
    too long for them. -/
def Loads : {β : Type} → BodyCmd β → StopView → β → StopView → Prop
  | _, .readSpec, v, r, v' =>
    (∀ spec, v.spec = some spec → r = .ok spec ∨ ∃ e, r = .error e ∧ e.NotIo) ∧
      v'.document = v.document
  | _, .readState, v, r, _ => v.document → ∀ e, r = .error e → e.NotIo
  | _, _, _, _, _ => True

/-- The interface of the supervisor: every error is that of a call that may fail,
    and no failure that it writes is one of a system call. -/
def supervising (options : StartOptions) : Interface BodyCmd StopView where
  step c v b v' := (polling options).step c v b v' ∧ (∀ e, c.failure b = some e → e.NotIo) ∧
    Loads c v b v'
  rely v v' := v.Writes options v' ∧ v'.spec = v.spec ∧ v'.document = v.document
  guar c _ _ _ := match c with
    | .persistState state => state.Blames AppError.NotIo
    | _ => True
  rely_refl v := ⟨.refl v, rfl, rfl⟩
  rely_trans h h' := ⟨h.1.trans h'.1, h'.2.1.trans h.2.1, h'.2.2.trans h.2.2⟩

theorem failure_attempted {α : Type} (c : AttemptedCall α) (e : AppError) :
    c.command.failure (.error e) = some e := by
  cases c <;> rfl

theorem failure_child {α : Type} {c : ChildCall α} {e : IoError} (h : ¬ c.tolerates e) :
    c.command.failure (.error e) = some (.ofIo e) := by
  cases c with
  | tryWait =>
    have hkind : e.kind ≠ .interrupted := by simpa [ChildCall.tolerates] using h
    simp only [ChildCall.command, BodyCmd.failure, hkind, if_false]
  | _ =>
    have hgone : isProcessGone e = false := Bool.eq_false_iff.mpr h
    simp only [ChildCall.command, BodyCmd.failure, hgone, Bool.false_eq_true, if_false]

theorem failureFrame :
    FailureFrame (supervising options) (SupervisorSpec.Of options) (Sound options)
      AppError.NotIo where
  keeps c hc v v' b v'' h hrely hs := by
    refine ⟨?_, (hrely.1.sound h).of_step hs.1⟩
    cases c with
    | persistState _ => cases hc
    | _ => trivial
  fails c _ _ e _ _ _ hs := hs.2.1 e (failure_attempted c e)
  failsIo c _ _ e _ htolerated _ _ hs := hs.2.1 _ (failure_child htolerated)
  appendFailed _ _ hs := hs.2.1 _ rfl
  thrown := id
  persist hblames h hrely hs := by
    refine ⟨hblames, (hrely.1.sound h).of_step hs.1, fun e he => ?_⟩
    subst he
    exact hs.2.1 e rfl

variable [Toolchain] [LawfulStopFormat]

/-- The poll among its writers, for the whole supervisor. -/
theorem polls (path : PathBuf) : FailureFrame.Polls (supervising options)
    (SupervisorSpec.Of options) (Sound options) AppError.NotIo path := by
  intro l v hspec h
  have hpoll := @Prog.wp_refine _ _ _ _ _ (supervising options) id (fun _ => True)
    (fun _ _ _ hrely => ⟨trivial, hrely.1⟩) (fun _ _ _ _ _ hs => ⟨trivial, hs.1⟩) ?_ _ _ _
    (wp_readStopRequest (s := l) path hspec h) trivial
  · refine Prog.wp_mono ?_ hpoll
    rintro ⟨_ | r, l'⟩ v' ⟨hr, -⟩
    · cases hr
    · exact ⟨hr.1, hr.2.1⟩
  · intro β c v b v' _ hc
    cases c with
    | persistState _ => cases hc
    | _ => trivial

/-- What the supervisor finds when it acquires its lock. -/
structure Prepared (options : StartOptions) (v : StopView) : Prop where
  sound : v.Sound options
  spec : ∃ spec, v.spec = some spec ∧ spec.Of options
  document : v.document

omit [Toolchain] [LawfulStopFormat] in
theorem wp_loadSupervised (h : Prepared options v) {s : Unit} :
    Proc.wp (supervising options) loadSupervised
      (fun r _ v' => r.1.Of options ∧ v'.Sound options)
      (FailureFrame.Failed AppError.NotIo (Sound options)) s v := by
  obtain ⟨spec, hspec, hof⟩ := h.spec
  refine Proc.wp_bind (Proc.wp_attempt fun v₁ hrely r v₂ hs => ⟨trivial, ?_⟩)
  have h₂ := (hrely.1.sound h.sound).of_step hs.1
  have hdocument : v₂.document := (hs.2.2.2.trans hrely.2.2).trans h.document
  obtain rfl | ⟨e, rfl, he⟩ := hs.2.2.1 spec (hrely.2.1.trans hspec)
  swap
  · exact ⟨he, h₂⟩
  refine Proc.wp_bind (Proc.wp_throwIf (fun _ => ⟨by simp [AppError.NotIo], h₂⟩) fun _ => ?_)
  refine Proc.wp_bind (Proc.wp_attempt fun v₃ hrely r v₄ hs => ⟨trivial, ?_⟩)
  have h₄ := (hrely.1.sound h₂).of_step hs.1
  cases r with
  | error e => exact ⟨hs.2.2 (hrely.2.2.trans hdocument) e rfl, h₄⟩
  | ok state =>
    refine Proc.wp_bind (Proc.wp_throwIf (fun _ => ⟨by simp [AppError.NotIo], h₄⟩) fun _ => ?_)
    exact Proc.wp_pure ⟨hof, h₄⟩

theorem wp_superviseAndMark (path : PathBuf) (h : Prepared options v) :
    Proc.wp (supervising options) (superviseAndMark path) (fun _ _ _ => True)
      (fun _ _ _ => True) () v :=
  failureFrame.wp_superviseAndMark (polls path) (wp_loadSupervised h)

end StopView

/-! ## Runs -/

section Conditions

variable [Toolchain]

def ClientCmd.stops {β : Type} : ClientCmd β → Option StopRequest
  | .writeStopRequest request => some request
  | _ => none

/-- The stop request that a command writes. -/
def Thread.stops : (t : Thread) → {β : Type} → t.Cmd β → Option StopRequest
  | .start, _, .inr c => c.stops
  | .client _, _, c => c.stops
  | _, _, _ => none

/-- Every stop request that is written is valid. -/
def validStops (options : StartOptions) : system.Condition := fun i _ c _ _ =>
  ∀ request, i.stops c = some request → request.Valid options

/-- The system calls of `start` on the run directory and those of the supervisor
    succeed. -/
def ioSucceeds : system.Condition
  | .start, _, .inl _, a, _ => a.fault = none
  | .supervisor, _, .inr c, a, _ => c.Succeeds a
  | _, _, _, _, _ => True

/-- No stop request is committed between a look at the file that finds none and
    the test of its existence. -/
def stopsApart : system.Condition := fun i _ c a w =>
  (i.stops c).isSome → a.fault = none ∨ a.took → w.pollMissed = false

/-- The condition on the runs in which no poll is disturbed. -/
def undisturbedPolls (options : StartOptions) : system.Condition := fun i _ c a w =>
  validStops options i c a w ∧ ioSucceeds i c a w ∧ stopsApart i c a w

end Conditions

section Steps

variable [Toolchain] {options : StartOptions} {β : Type} {a : Answer} {w w' : World} {b : β}

omit [Toolchain] in
theorem stopView_congr (hfile : w'.stopRequest = w.stopRequest)
    (hmissed : w'.pollMissed = w.pollMissed) (hrequests : w'.requests = w.requests) :
    w.stopView.Writes options w'.stopView where
  missed := hmissed
  requests request h := by
    rw [World.stopView, hrequests]
    exact h
  file := .inl hfile

/-- A committed request. -/
theorem execClient_stopView {t : Thread} {c : ClientCmd β}
    (hvalid : ∀ request, c.stops = some request → request.Valid options)
    (hapart : c.stops.isSome → a.fault = none ∨ a.took → w.pollMissed = false)
    (h : execClient t c a w = some (b, w')) : w.stopView.Writes options w'.stopView := by
  cases c with
  | writeStopRequest request =>
    have hcommitted (hmissed : w.pollMissed = false) :
        w.stopView.Writes options (World.stopView { w with
          stopRequest := some request.encode, requests := request :: w.requests }) :=
      ⟨rfl, fun _ hmem => List.mem_cons_of_mem _ hmem,
        .inr ⟨hmissed, request, List.mem_cons_self, hvalid request rfl, rfl⟩⟩
    simp only [execClient] at h
    split at h
    · simp only [committed] at h
      split at h
      · split at h
        · rename_i htook
          cases h
          exact hcommitted (hapart rfl (.inr htook))
        · cases h
          exact .refl _
      · rename_i hfault
        cases h
        exact hcommitted (hapart rfl (.inl hfault))
    · obtain ⟨_, -, -, rfl⟩ | ⟨-, h⟩ := fallible_cases h
      · exact .refl _
      · cases h
        exact .refl _
  | _ =>
    simp only [execClient, fallible, fallibleIo] at h
    repeat' split at h
    all_goals cases h
    all_goals exact stopView_congr rfl rfl rfl

/-- The commands of the supervisor, as its interface describes them. -/
theorem execBody_stopView (options : StartOptions) {c : BodyCmd β} (hc : c.Succeeds a)
    (h : execBody c a w = some (b, w')) :
    (StopView.supervising options).step c w.stopView b w'.stopView := by
  have hfault := hc.fault
  cases c with
  | inspectStop | openStop =>
    simp only [execBody, fallible, hfault] at h
    split at h
    · rename_i hfile
      cases h
      refine ⟨?_, (fun e he => by cases he), trivial⟩
      simp only [StopView.polling, StopView.step, World.stopView, World.state?, hfile, and_self]
    · rename_i bytes hfile
      cases h
      refine ⟨?_, (fun e he => by cases he), trivial⟩
      simp only [StopView.polling, StopView.step, World.stopView, hfile]
      exact ⟨trivial, trivial⟩
  | readStop file =>
    simp only [execBody, fallible, hfault] at h
    cases h
    exact ⟨⟨rfl, rfl⟩, (fun e he => by cases he), trivial⟩
  | stopExists =>
    cases h
    refine ⟨⟨?_, rfl⟩, (fun e he => by cases he), trivial⟩
    simp only [hfault, Option.isNone_none, Bool.true_and, World.stopView]
  | removeStop =>
    simp only [execBody, fallible, hfault] at h
    split at h
    · rename_i hfile
      cases h
      refine ⟨?_, (fun e he => by cases he), trivial⟩
      simp only [StopView.polling, StopView.step, World.stopView, hfile, and_self]
    · rename_i bytes hfile
      cases h
      refine ⟨?_, (fun e he => by cases he), trivial⟩
      simp only [StopView.polling, StopView.step, World.stopView, hfile]
      exact ⟨trivial, rfl⟩
  | readSpec =>
    simp only [execBody, fallible, hfault] at h
    cases h
    refine ⟨⟨rfl, rfl, rfl⟩, (fun e he => by cases he), fun spec hspec => ?_, rfl⟩
    have hspec : w.specJson = some spec := hspec
    simp only [hspec]
    cases hread : readSized w.specPath (Toolchain.specLength spec) spec with
    | ok found => exact .inl (congrArg Except.ok (readSized_ok hread).1)
    | error e => exact .inr ⟨e, rfl, by rw [(readSized_error hread).1]; exact oversizedDocument_notIo⟩
  | readState =>
    simp only [execBody, fallible, hfault] at h
    cases h
    refine ⟨⟨rfl, rfl, rfl⟩, (fun e he => by cases he), fun hdocument e he => ?_⟩
    have hdocument : w.stateJson.state?.isSome := hdocument
    cases hstate : w.stateJson with
    | document state =>
      rw [hstate] at he
      rw [(StateFile.read_document_error he).1]
      exact oversizedDocument_notIo
    | absent => rw [hstate] at hdocument; cases hdocument
    | incomplete => rw [hstate] at hdocument; cases hdocument
  | reservePorts runId names =>
    simp only [execBody, fallible, committed, hfault] at h
    split at h
    · cases h
      exact ⟨⟨rfl, rfl, rfl⟩, (fun e he => by cases he), trivial⟩
    · rename_i error hupdate
      cases h
      refine ⟨⟨rfl, rfl, rfl⟩, (fun e he => ?_), trivial⟩
      cases he
      exact updateRegistry_error (fun _ _ => reservePorts_error hc.bind) hupdate
  | releaseRegistry runId =>
    simp only [execBody, fallible, committed, hfault] at h
    split at h
    · cases h
      exact ⟨⟨rfl, rfl, rfl⟩, (fun e he => by cases he), trivial⟩
    · rename_i error hupdate
      cases h
      refine ⟨⟨rfl, rfl, rfl⟩, (fun e he => ?_), trivial⟩
      cases he
      exact updateRegistry_error (fun _ _ he => by cases he) hupdate
  | signal _ | startKill =>
    simp only [execBody, fallibleIo] at h
    split at h
    · rename_i e he
      cases h
      have hgone : isProcessGone e := hc.io e he
      refine ⟨⟨rfl, rfl, rfl⟩, fun e' hfail => ?_, trivial⟩
      simp only [BodyCmd.failure, hgone, if_true] at hfail
      cases hfail
    · cases h
      exact ⟨⟨rfl, rfl, rfl⟩, (fun e he => by cases he), trivial⟩
  | tryWait =>
    simp only [execBody, fallibleIo] at h
    split at h
    · rename_i e he
      cases h
      have hinterrupted : e.kind = .interrupted := of_decide_eq_true (hc.io e he)
      refine ⟨⟨rfl, rfl, rfl⟩, fun e' hfail => ?_, trivial⟩
      simp only [BodyCmd.failure, hinterrupted, if_true] at hfail
      cases hfail
    · cases h
      exact ⟨⟨rfl, rfl, rfl⟩, (fun e he => by cases he), trivial⟩
  | _ =>
    simp only [execBody, fallible, committed, fallibleIo, receive, hfault] at h
    repeat' split at h
    all_goals cases h
    all_goals exact ⟨⟨rfl, rfl, rfl⟩, (fun e he => by cases he), trivial⟩

/-- The threads other than the supervisor only write requests. -/
theorem other_stopView {j : Thread} (hj : j ≠ .supervisor) {c : j.Cmd β}
    (hok : undisturbedPolls options j c a w) (h : exec j c a w = some (b, w')) :
    w.stopView.Writes options w'.stopView := by
  obtain ⟨hvalid, -, hapart⟩ := hok
  cases j with
  | start =>
    cases c with
    | inl c =>
      have hframe := execCreate_frame (show execCreate c a w = some (b, w') from h)
      rw [hframe]
      exact stopView_congr rfl rfl rfl
    | inr c => exact execClient_stopView hvalid hapart h
  | supervisor => exact absurd rfl hj
  | reader stream =>
    rw [execReader_frame (show execReader stream c a w = some (b, w') from h)]
    exact stopView_congr rfl rfl rfl
  | client index => exact execClient_stopView hvalid hapart h

omit [Toolchain] in
theorem execLock_stopView {c : LockCmd β} (h : execLock c a w = some (b, w')) :
    w'.stopView = w.stopView := by
  rw [execLock_frame h]
  rfl

/-- Every step leaves a committed request in the file. -/
theorem sound_step {i : Thread} {c : i.Cmd β} (hok : undisturbedPolls options i c a w)
    (h : exec i c a w = some (b, w')) (hw : w.stopView.Sound options) :
    w'.stopView.Sound options := by
  by_cases hi : i = .supervisor
  · subst hi
    cases c with
    | inl c =>
      rw [execLock_stopView h]
      exact hw
    | inr c => exact hw.of_step (execBody_stopView options hok.2.1 h).1
  · exact (other_stopView hi hok h).sound hw

end Steps

section Polls

variable [Toolchain] {setup : Setup} {cfg cfg' : system.Config}

theorem reach_sound (h : Machine.Reach (undisturbedPolls setup.options) setup.initial cfg) :
    cfg.world.stopView.Sound setup.options :=
  h.invariant (J := fun w : World => w.stopView.Sound setup.options)
    (fun _ _ _ _ _ _ _ hok hexec => sound_step hok hexec)
    ⟨(fun _ h => by cases h), fun h => by cases h⟩

/-- The interface of the supervisor during a poll. -/
def StopView.pollInterface (options : StartOptions) : Interface (Either LockCmd BodyCmd) StopView where
  step c v b v' := match c with
    | .inl _ => True
    | .inr c => (polling options).step c v b v'
  rely := Writes options
  guar c _ _ _ := match c with
    | .inl _ => True
    | .inr c => c.stopFile
  rely_refl := .refl
  rely_trans := .trans

theorem describes_poll (options : StartOptions) :
    Machine.Describes (M := system) (undisturbedPolls options) .supervisor World.stopView
      (StopView.pollInterface options) where
  self c _ _ _ _ hok hexec := by
    cases c with
    | inl c => trivial
    | inr c => exact (execBody_stopView options hok.2.1 hexec).1
  other _ hj _ _ _ _ _ hok hexec := other_stopView hj hok hexec

/-- A poll returns no request or one that was committed, and never an error. -/
theorem poll_returns [LawfulStopFormat] {σ : Type} {path : PathBuf} {spec : SupervisorSpec}
    {s s' : σ} {f : Except AppError (Option StopRequest) × σ → Prog (system.Cmd .supervisor) _}
    {r : Except AppError (Option StopRequest)} (hspec : spec.Of setup.options)
    (h : Machine.Reach (undisturbedPolls setup.options) setup.initial cfg)
    (hpoll : Machine.Executes (undisturbedPolls setup.options) .supervisor f cfg
      ((readStopRequest path spec s).hoist .inr) cfg' (.ret (r, s'))) :
    ∃ found, r = .ok found ∧
      ∀ request ∈ found, request ∈ cfg'.world.requests ∧ request.Valid setup.options := by
  have hwp : Proc.wp ((StopView.pollInterface setup.options).comap .inr)
      (readStopRequest path spec) _ _ s cfg.world.stopView :=
    StopView.wp_readStopRequest path hspec (reach_sound h)
  have hresult := hpoll.result (describes_poll setup.options) ?_ (Proc.wp_hoist hwp)
  · cases r with
    | ok found => exact ⟨found, rfl, hresult.2.2⟩
    | error e => exact hresult.elim
  · rintro ⟨_ | found, s'⟩ v v' hwrites hr
    · exact hr
    · exact ⟨hr.1, hwrites.sound hr.2.1, hr.2.2.writes hwrites⟩

/-! ### The failures of a run -/

/-- No document of the run tells of a failed system call. -/
structure Blameless (w : World) : Prop where
  history : ∀ state ∈ w.history, state.Blames AppError.NotIo
  phase : w.phase ≠ .launchFailed

/-- The steps of `start`, which does not have to report a failed launch. -/
theorem Blameless.execCreate {options : StartOptions} {β : Type} {c : CreateCmd β} {a : Answer}
    {w w' : World} {b : β} (hfault : a.fault = none) (hok : startProtocol options .start (.inl c) a w)
    (h : execCreate c a w = some (b, w')) (hw : Blameless w) : Blameless w' := by
  cases c with
  | writeNewState state =>
    obtain ⟨-, -, requests, createdAtMs, -, -, rfl⟩ := hok
    simp only [Procherd.execCreate, committed, hfault] at h
    cases h
    exact ⟨List.forall_mem_cons.mpr ⟨(fun hfailed => by cases hfailed), hw.history⟩, hw.phase⟩
  | replaceState state => exact absurd hok.1 hw.phase
  | launch =>
    simp only [Procherd.execCreate, hfault] at h
    split at h
    · cases h
    · cases h
      exact ⟨hw.history, fun hphase => by cases hphase⟩
  | _ =>
    simp only [Procherd.execCreate, fallible, hfault] at h
    repeat' split at h
    all_goals cases h
    all_goals exact ⟨hw.history, hw.phase⟩

theorem Blameless.step {options : StartOptions} {i : Thread} {β : Type} {c : i.Cmd β} {a : Answer}
    {w w' : World} {b : β} (hok : undisturbedPolls options i c a w)
    (hprotocol : launchProtocol options i c a w)
    (hguar : bodyGuarantee World.stopView (StopView.supervising options) i c a w)
    (h : exec i c a w = some (b, w')) (hw : Blameless w) : Blameless w' := by
  have hclient {t : Thread} {c : ClientCmd β} (h : execClient t c a w = some (b, w')) :
      Blameless w' := by
    rw [execClient_frame h]
    exact ⟨hw.history, hw.phase⟩
  cases i with
  | start =>
    cases c with
    | inl c => exact hw.execCreate hok.2.1 hprotocol.1 h
    | inr c => exact hclient h
  | supervisor =>
    cases c with
    | inl c =>
      refine ⟨?_, ?_⟩
      · rw [execLock_frame (show execLock c a w = some (b, w') from h)]
        exact hw.history
      · obtain rfl | ⟨-, hphase⟩ | ⟨-, hphase⟩ :=
          execLock_phase (show execLock c a w = some (b, w') from h)
        · exact hw.phase
        · rw [hphase]
          decide
        · rw [hphase]
          decide
    | inr c =>
      refine ⟨?_, (execBody_phase h).symm ▸ hw.phase⟩
      by_cases hc : c.writesState
      · cases c with
        | persistState state =>
          have hblames : state.Blames AppError.NotIo := hguar b w' h
          obtain ⟨-, -, -, rfl | rfl⟩ | ⟨-, -, rfl⟩ := committed_cases h
          · exact hw.history
          · exact List.forall_mem_cons.mpr ⟨hblames, hw.history⟩
          · exact List.forall_mem_cons.mpr ⟨hblames, hw.history⟩
        | _ => cases hc
      · rw [(execBody_state (Bool.eq_false_iff.mpr hc) h).2]
        exact hw.history
  | reader stream =>
    rw [execReader_frame (show execReader stream c a w = some (b, w') from h)]
    exact ⟨hw.history, hw.phase⟩
  | client index => exact hclient h

variable [LawfulStopFormat]

/-- What the supervisor writes tells of no failed system call. -/
theorem reach_blameless (h : Machine.Reach (undisturbedPolls setup.options) setup.initial cfg) :
    Blameless cfg.world := by
  have hsound := (reach_launched h).with_invariant (J := fun w : World => w.stopView.Sound setup.options)
    (fun _ _ _ _ _ _ _ hok hexec => sound_step hok.1 hexec)
    ⟨(fun _ h => by cases h), fun h => by cases h⟩
  have hguar := reach_bodyGuarantee (V := World.stopView)
    (L := StopView.supervising setup.options) (StopView.Prepared setup.options)
    (fun c a w b w' hok hexec => execBody_stopView _ hok.1.1.2.1 hexec) ?_ ?_
    (fun path v hv => StopView.wp_superviseAndMark path hv) hsound
  · refine hguar.invariant (J := Blameless) ?_ ⟨(fun _ h => by cases h), fun h => by cases h⟩
    exact fun i β c a w b w' hok hexec => Blameless.step hok.1.1.1 hok.1.1.2.1 hok.2 hexec
  · intro β j hj c a w b w' hok hexec hactive
    have hsame := sameRun_of_active hj hok.1.2.1 hexec hactive
    refine ⟨other_stopView hj hok.1.1 hexec, hsame.specJson, ?_⟩
    exact congrArg (fun file => (StateFile.state? file).isSome) hsame.stateJson
  · intro a w w' hok hexec
    have hacquired : w.phase = .launched ∧ w'.stopView = w.stopView := by
      refine ⟨?_, execLock_stopView hexec⟩
      simp only [execLock] at hexec
      split at hexec
      · cases hexec
      · rename_i hphase
        exact not_not.mp hphase
    rw [hacquired.2]
    obtain ⟨requests, createdAtMs, -, -, hstate, -, hspec⟩ :=
      (hok.1.2.2.created hacquired.1).documents
    refine ⟨hok.2, ⟨_, hspec, rfl, rfl⟩, ?_⟩
    simp only [World.stopView, World.state?, hstate, StateFile.state?, Option.isSome_some]

/-- Where no stop request is committed between a look at `stop.request.json` that
    finds none and the test of its existence, every poll returns no request or a
    committed one, and the run does not fail of it. -/
theorem stop_requests_harmless (setup : Setup) {cfg : system.Config}
    (h : Machine.Reach (undisturbedPolls setup.options) setup.initial cfg) :
    (∀ state ∈ cfg.world.history, state.status = .failed →
      ∀ failure ∈ state.failure, failure.kind ≠ "io") ∧
    ∀ {σ : Type} {path : PathBuf} {spec : SupervisorSpec} {s s' : σ}
      {f : Except AppError (Option StopRequest) × σ → Prog (system.Cmd .supervisor) _}
      {r : Except AppError (Option StopRequest)} {cfg' : system.Config}, spec.Of setup.options →
      Machine.Executes (undisturbedPolls setup.options) .supervisor f cfg
        ((readStopRequest path spec s).hoist .inr) cfg' (.ret (r, s')) →
      ∃ found, r = .ok found ∧
        ∀ request ∈ found, request ∈ cfg'.world.requests ∧ request.Valid setup.options := by
  refine ⟨fun state hstate hfailed failure hfailure => ?_, fun hspec hpoll =>
    poll_returns hspec h hpoll⟩
  obtain ⟨e, he, hkind⟩ := (reach_blameless h).history state hstate hfailed failure hfailure
  rw [hkind]
  exact he

end Polls

end Procherd

namespace Procherd.Reference

open Interaction

/-- The client that stops the run without any grace. -/
def stopper : ClientProgram := (stop options.runId 0).program .stopped

/-- The request that it writes. -/
def stopNow : StopRequest :=
  { schemaVersion := STOP_REQUEST_SCHEMA
    runId := options.runId
    ownerToken := options.ownerToken
    requestedAtMs := 0
    graceMs := 0 }

theorem stopNow_valid : stopNow.Valid options where
  schemaVersion := rfl
  runId := rfl
  ownerToken := rfl
  requestedAtMs_le := by decide
  graceMs_le := by decide
  length_le := by decide +kernel

/-- The answers of a run in which nothing fails. -/
structure Smooth (a : Answer) : Prop where
  fault : a.fault = none
  io : a.io = none
  bind : ∀ n, a.offers.bind n = .ok 0

theorem Smooth.succeeds {a : Answer} (h : Smooth a) {β : Type} (c : BodyCmd β) : c.Succeeds a where
  fault := h.fault
  io e he := by
    rw [h.io] at he
    cases he
  bind n := ⟨0, h.bind n⟩

theorem Smooth.steps {t : Thread} {n : Nat} {a : Answer} (h : Smooth a) {m : system.Move}
    (hm : m ∈ steps t n a) : Smooth m.2 := by
  obtain ⟨-, rfl⟩ := List.mem_replicate.mp hm
  exact h

/-- The next command writes no other stop request. -/
def writesStopNow (cfg : system.Config) (m : system.Move) : Bool :=
  match cfg.thread m.1 with
  | .exec c _ => (m.1.stops c).all fun request => decide (request = stopNow)
  | _ => true

/-- Nor does it write one where the poll found none. -/
def writesApart (cfg : system.Config) (m : system.Move) : Bool :=
  writesStopNow cfg m && match cfg.thread m.1 with
    | .exec c _ => (m.1.stops c).isNone || !cfg.world.pollMissed
    | _ => true

theorem meets_validStops {cfg : system.Config} {m : system.Move} (hm : Smooth m.2)
    (h : writesStopNow cfg m) : Machine.Meets (M := system) (fun i _ c a w =>
      validStops options i c a w ∧ ioSucceeds i c a w) cfg m := by
  intro β c k hc
  refine ⟨fun request hrequest => ?_, ?_⟩
  · simp only [writesStopNow, hc, hrequest, Option.all_some, decide_eq_true_eq] at h
    rw [h]
    exact stopNow_valid
  · obtain ⟨t, a⟩ := m
    cases t with
    | start =>
      cases c with
      | inl c => exact hm.fault
      | inr c => trivial
    | supervisor =>
      cases c with
      | inl c => trivial
      | inr c => exact hm.succeeds c
    | _ => trivial

theorem meets_undisturbedPolls {cfg : system.Config} {m : system.Move} (hm : Smooth m.2)
    (h : writesApart cfg m) : Machine.Meets (M := system) (undisturbedPolls options) cfg m := by
  obtain ⟨hvalid, hapart⟩ := Bool.and_eq_true_iff.mp h
  intro β c k hc
  obtain ⟨hvalid, hio⟩ := meets_validStops hm hvalid β c k hc
  refine ⟨hvalid, hio, fun hstops _ => ?_⟩
  simp only [hc, Option.isNone_iff_eq_none, Bool.or_eq_true, Bool.not_eq_true'] at hapart
  obtain hnone | hmissed := hapart
  · rw [hnone] at hstops
    cases hstops
  · exact hmissed

/-- A run that a client stops before its output is closed. -/
def stoppedRun : List system.Move :=
  startUp ++ steps (.client 0) 5 {} ++ steps (.reader .stdout) 6 { count := 2 } ++
    steps (.reader .stderr) 3 {} ++
    steps .supervisor 30 { count := 1000, exit := some { code := some 0, signal := none } }

/-- The reference run is stopped by a request, and tells of no failure. -/
theorem stop_requests_harmless_stopped : ∃ (cfg : system.Config) (state : RunState),
    cfg.world.state? = some state ∧ state.status = .stopped ∧ cfg.world.requests = [stopNow] ∧
      ∀ state ∈ cfg.world.history, state.status = .failed →
        ∀ failure ∈ state.failure, failure.kind ≠ "io" := by
  have hrun : (Machine.runChecked writesApart (setup stopper).initial stoppedRun).map
      (fun cfg => (cfg.world.state?.map (·.status), cfg.world.requests)) =
      some (some .stopped, [stopNow]) := by decide +kernel
  obtain ⟨cfg, hcfg, hfound⟩ := Option.map_eq_some_iff.mp hrun
  obtain ⟨hstatus, hrequests⟩ := Prod.mk.inj hfound
  obtain ⟨state, hstate, hstatus⟩ := Option.map_eq_some_iff.mp hstatus
  refine ⟨cfg, state, hstate, hstatus, hrequests, ?_⟩
  refine (stop_requests_harmless (setup stopper) (.of_runChecked_mem (fun cfg m hm h => ?_) hcfg)).1
  refine meets_undisturbedPolls ?_ h
  simp only [stoppedRun, startUp, List.mem_append] at hm
  obtain ((((hm | hm) | hm) | hm) | hm) | hm := hm
  all_goals exact Smooth.steps ⟨rfl, rfl, fun _ => rfl⟩ hm

/-- A run in which the client's request is committed after the poll found none and
    before the test of its existence. -/
def racedRun : List system.Move :=
  startUp ++ steps (.client 0) 4 {} ++ steps .supervisor 4 {} ++ steps (.client 0) 1 {} ++
    steps .supervisor 9 {}

/-- Nothing but the valid request of the client happens, and the run is killed and
    ends as failed. -/
theorem stop_request_raced : ∃ (cfg : system.Config) (state : RunState),
    Machine.Reach (M := system) (fun i _ c a w => validStops options i c a w ∧ ioSucceeds i c a w)
      (setup stopper).initial cfg ∧ cfg.world.requests = [stopNow] ∧
      cfg.world.state? = some state ∧ state.status = .failed ∧
      (∃ failure ∈ state.failure, failure.kind = "io") ∧ cfg.world.signals = [.kill] := by
  have hrun : (Machine.runChecked writesStopNow (setup stopper).initial racedRun).map
      (fun cfg => (cfg.world.state?.map (fun state => (state.status, state.failure.map (·.kind))),
        cfg.world.requests, cfg.world.signals)) =
      some (some (.failed, some "io"), [stopNow], [.kill]) := by decide +kernel
  obtain ⟨cfg, hcfg, hfound⟩ := Option.map_eq_some_iff.mp hrun
  obtain ⟨hstate, hrest⟩ := Prod.mk.inj hfound
  obtain ⟨hrequests, hsignals⟩ := Prod.mk.inj hrest
  obtain ⟨state, hstate, hfailed⟩ := Option.map_eq_some_iff.mp hstate
  obtain ⟨hstatus, hfailure⟩ := Prod.mk.inj hfailed
  obtain ⟨failure, hfailure, hkind⟩ := Option.map_eq_some_iff.mp hfailure
  refine ⟨cfg, state, .of_runChecked_mem (fun cfg m hm h => ?_) hcfg, hrequests, hstate, hstatus,
    ⟨failure, hfailure, hkind⟩, hsignals⟩
  refine meets_validStops ?_ h
  simp only [racedRun, startUp, List.mem_append] at hm
  obtain ((((hm | hm) | hm) | hm) | hm) | hm := hm
  all_goals exact Smooth.steps ⟨rfl, rfl, fun _ => rfl⟩ hm

end Procherd.Reference
