-- SUMMARY: The verification of the supervisor over `state.json`, from the setup to the marking of a failed run: every write continues the document on disk.
import Procherd.DocumentView

/-!
# Writes of the document

`Following` is the invariant of the whole supervisor: its state continues the
document. How far the readiness may be ahead of it changes within a round, from
the drain to the poll to the write that reports both, and is a parameter.
-/

namespace Procherd

open Interaction

namespace DocumentView

variable {maxBytes : Nat} {timely : Prop} {o : DocumentView} {l : Locals} {old : RunState}

/-! ## The invariant -/

/-- What is known of the readiness on disk, the status, and the readiness held. -/
abbrev Knowledge := ReadinessState → RunStatus → ReadinessState → Prop

/-- What is known is enough for a write, and is still known after it. -/
def Knowledge.Writable (K : Knowledge) : Prop :=
  ∀ x status y, K x status y → K y status y ∧ (status.complete → y.status ≠ .pending) ∧
    (status = .failed → y = x)

/-- The state held continues the document `old`. -/
structure Follows (maxBytes : Nat) (timely : Prop) (K : Knowledge) (l : Locals) (o : DocumentView)
    (old : RunState) : Prop where
  document : o.document = some old
  identity : old.SameIdentity l.state
  grows : old.readiness.Grows l.state.readiness
  known : K old.readiness l.state.status l.state.readiness
  configured : old.readiness.status = .pending → old.readiness.checks ≠ []
  deadline : old.readiness.status = .pending → old.readiness.deadlineAtMs.isSome
  clocked : timely → old.updatedAtMs ≤ l.state.updatedAtMs
  punctual : timely → Punctual old l.state.readiness
  sound : l.state.readiness.Sound
  budget : Budget maxBytes l.logs (retained maxBytes o.received)
  found : Found (retainedBytes maxBytes o.received) l.readiness l.state.readiness
  matched : timely → Matched (retainedBytes maxBytes o.received) l.readiness l.state.readiness

def Following (maxBytes : Nat) (timely : Prop) (K : Knowledge) (l : Locals) (o : DocumentView) : Prop :=
  ∃ old, Follows maxBytes timely K l o old

/-- The document on disk has its evidence. -/
def Backed (maxBytes : Nat) (o : DocumentView) : Prop :=
  ∃ old, o.document = some old ∧ old.readiness.Evidenced (retainedBytes maxBytes o.received)

/-- After a failure, the document on disk still has its evidence. -/
def Kept {σ : Type} (maxBytes : Nat) (_ : AppError) (_ : σ) (o : DocumentView) : Prop :=
  Backed maxBytes o

/-- The readiness on disk is the one held. -/
def Synced : Knowledge := fun x status y => status.isTerminal = false ∧ y = x

/-- The drain has only advanced log checks, and reports whether it has. -/
def Drained (changed : Bool) : Knowledge := fun x status y =>
  status.isTerminal = false ∧ LogsAhead x y ∧ (changed = false → y = x)

/-- The drain and the poll report whether they have changed anything. -/
def Reported (changed : Bool) : Knowledge := fun x status y =>
  status.isTerminal = false ∧ (changed = false → y = x)

/-- The child has exited, and the readiness is settled. -/
def Exited : Knowledge := fun _ status y => status.isTerminal = false ∧ y.status ≠ .pending

/-- The child could not be spawned. -/
def Unspawned : Knowledge := fun x status y => status = .failed ∧ y = x

theorem Knowledge.writable_of_live {K : Knowledge} {status : RunStatus} {x y : ReadinessState}
    (hlive : status.isTerminal = false) (hK : K y status y) :
    K y status y ∧ (status.complete → y.status ≠ .pending) ∧ (status = .failed → y = x) := by
  refine ⟨hK, fun hcomplete => ?_, ?_⟩
  · rw [RunStatus.complete_of_live hlive] at hcomplete
    cases hcomplete
  · rintro rfl
    cases hlive

theorem synced_writable : Knowledge.Writable Synced :=
  fun _ _ _ h => Knowledge.writable_of_live h.1 ⟨h.1, rfl⟩

theorem exited_writable : Knowledge.Writable Exited :=
  fun _ _ _ h => Knowledge.writable_of_live h.1 h

theorem unspawned_writable : Knowledge.Writable Unspawned := by
  rintro x _ y ⟨rfl, hy⟩
  exact ⟨⟨rfl, rfl⟩, nofun, fun _ => hy⟩

/-! ### What is retained -/

theorem retainedBytes_concat (maxBytes : Nat) (chunks : List LogChunk) (chunk : LogChunk)
    (stream : LogStream) :
    retainedBytes maxBytes chunks stream <+: retainedBytes maxBytes (chunks ++ [chunk]) stream := by
  have hretain := congrFun (streamBytes_retain maxBytes (retained maxBytes chunks) chunk) stream
  rw [← retained_concat] at hretain
  rw [retainedBytes, retainedBytes, hretain]
  exact prefix_extend (fun stream => streamBytes stream (retained maxBytes chunks)) _ _ stream

theorem Backed.receive (h : Backed maxBytes o) (chunk : LogChunk) :
    Backed maxBytes { o with received := o.received ++ [chunk] } := by
  obtain ⟨old, hold, hevidenced⟩ := h
  refine ⟨old, hold, fun check hcheck literal hlog hready => ?_⟩
  exact (hevidenced check hcheck literal hlog hready).mono (retainedBytes_concat _ _ _)

namespace Follows

variable {K K' : Knowledge}

/-- The evidence of the document is the evidence of the state. -/
theorem backed (h : Follows maxBytes timely K l o old) : Backed maxBytes o := by
  refine ⟨old, h.document, fun check hcheck literal hlog hready => ?_⟩
  obtain ⟨i, hi⟩ := List.mem_iff_getElem?.mp hcheck
  obtain ⟨check', hcheck', hadvances⟩ := h.grows.check hi
  obtain rfl := hadvances.eq_of_ready hready
  exact h.found.ready check' (List.mem_of_getElem? hcheck') literal hlog hready

/-- Locals with another state of the same readiness. -/
theorem congr (h : Follows maxBytes timely K l o old) {l' : Locals}
    (hsummary : l'.logs.summary = l.logs.summary) (htracker : l'.readiness = l.readiness)
    (hidentity : l.state.SameIdentity l'.state) (hreadiness : l'.state.readiness = l.state.readiness)
    (hupdated : l'.state.updatedAtMs = l.state.updatedAtMs)
    (hknown : K' old.readiness l'.state.status l.state.readiness) :
    Follows maxBytes timely K' l' o old where
  document := h.document
  identity := h.identity.trans hidentity
  grows := hreadiness ▸ h.grows
  known := hreadiness ▸ hknown
  configured := h.configured
  deadline := h.deadline
  clocked ht := hupdated ▸ h.clocked ht
  punctual := hreadiness ▸ h.punctual
  sound := hreadiness ▸ h.sound
  budget := ⟨hsummary ▸ h.budget.limit, hsummary ▸ h.budget.captured, h.budget.length_le⟩
  found := by rw [htracker, hreadiness]; exact h.found
  matched ht := by rw [htracker, hreadiness]; exact h.matched ht

theorem know (h : Follows maxBytes timely K l o old)
    (hknown : K' old.readiness l.state.status l.state.readiness) :
    Follows maxBytes timely K' l o old :=
  h.congr rfl rfl (.refl _) rfl rfl hknown

theorem keeps (h : Follows maxBytes timely K l o old) {l' : Locals} (hkeeps : l.Keeps l') :
    Follows maxBytes timely K l' o old := by
  refine h.congr ?_ hkeeps.readiness ⟨?_, ?_, hkeeps.names⟩ ?_ ?_ ?_
  · rw [hkeeps.logs]
  · rw [hkeeps.frame]
  · rw [hkeeps.frame]
  · rw [hkeeps.frame]
  · rw [hkeeps.frame]
  · rw [hkeeps.status]
    exact h.known

theorem touched (h : Follows maxBytes timely K l o old) {now : Nat} (hnow : timely → o.Clocked now) :
    Follows maxBytes timely K (l.touched now) o old where
  document := h.document
  identity := ⟨h.identity.schemaVersion, h.identity.runId, h.identity.names⟩
  grows := h.grows
  known := h.known
  configured := h.configured
  deadline := h.deadline
  clocked ht := hnow ht old h.document
  punctual := h.punctual
  sound := h.sound
  budget := h.budget
  found := h.found
  matched := h.matched

/-- The state held may be written, also with another status. -/
theorem succeeds (h : Follows maxBytes timely K l o old) {state : RunState}
    (hidentity : l.state.SameIdentity state) (hreadiness : state.readiness = l.state.readiness)
    (hupdated : state.updatedAtMs = l.state.updatedAtMs)
    (hcomplete : state.status.complete → l.state.readiness.status ≠ .pending)
    (hfailed : state.status = .failed → l.state.readiness = old.readiness) :
    old.Succeeds timely (retainedBytes maxBytes o.received) state where
  identity := h.identity.trans hidentity
  settled hstatus := hreadiness.trans (h.grows.settled hstatus)
  configured hpending hnot := by
    rw [hreadiness, h.sound.notConfigured] at hnot
    have hlength := h.grows.checks.length_eq
    rw [hnot, List.length_nil, List.length_eq_zero_iff] at hlength
    exact h.configured hpending hlength
  deadlineAtMs := (congrArg ReadinessState.deadlineAtMs hreadiness).trans h.grows.deadlineAtMs
  logs check hcheck literal hlog := by
    rw [hreadiness] at hcheck
    obtain ⟨check', hcheck', hadvances⟩ := mem_right_of_forall₂ h.grows.checks hcheck
    exact ⟨check', hcheck', hadvances.condition_eq ▸ hlog⟩
  evidenced := hreadiness ▸ h.found.ready
  complete hstatus := hreadiness ▸ hcomplete hstatus
  failed hstatus := hreadiness.trans (hfailed hstatus)
  clocked ht := hupdated ▸ h.clocked ht
  punctual := hreadiness ▸ h.punctual

/-- The state held has become the document. -/
theorem written (h : Follows maxBytes timely K l o old)
    (hknown : K' l.state.readiness l.state.status l.state.readiness) :
    Follows maxBytes timely K' l { o with document := some l.state } l.state where
  document := rfl
  identity := .refl _
  grows := .refl _
  known := hknown
  configured hpending hnil := by
    rw [h.sound.notConfigured.mpr hnil] at hpending
    cases hpending
  deadline hpending := by
    rw [h.grows.deadlineAtMs]
    exact h.deadline (h.grows.pending hpending)
  clocked _ := Nat.le_refl _
  punctual _ hpending hready := absurd (hpending.symm.trans hready) nofun
  sound := h.sound
  budget := h.budget
  found := h.found
  matched := h.matched

end Follows

theorem Following.backed {K : Knowledge} (h : Following maxBytes timely K l o) :
    Backed maxBytes o := by
  obtain ⟨old, h⟩ := h
  exact h.backed

/-! ## Process control -/

theorem wp_persistFollowing {K : Knowledge} (hK : K.Writable) (h : Following maxBytes timely K l o) :
    Proc.wp (interface maxBytes timely) persistState (fun _ => Following maxBytes timely K)
      (Kept maxBytes) l o := by
  obtain ⟨old, h⟩ := h
  obtain ⟨hknown, hcomplete, hfailed⟩ := hK _ _ _ h.known
  have hwritten := h.written hknown
  simp only [persistState, Proc.wp_get_bind]
  exact wp_persist h.document (h.succeeds (.refl _) rfl rfl hcomplete hfailed) ⟨_, hwritten⟩
    (fun _ => h.backed) fun _ => hwritten.backed

variable (maxBytes timely) in
theorem controlFrame {K : Knowledge} (hK : K.Writable) :
    ControlFrame (interface maxBytes timely) (Following maxBytes timely K) (Kept maxBytes) where
  command c hc l o o' b o'' h hrely hs := by
    obtain ⟨hguar, ho⟩ := keeps_quiet c (quiet_of_control hc) rfl hrely hs
    exact ⟨hguar, ho ▸ h⟩
  fail {runId l o o' e o''} h hrely hs := by
    obtain ⟨-, ho⟩ := keeps_quiet (.releaseRegistry runId) rfl rfl hrely hs
    exact ho ▸ h.backed
  failIo c l o o' e o'' _ h hrely hs := by
    obtain ⟨-, ho⟩ := keeps_quiet c.command
      (quiet_of_control (BodyCmd.control_of_steering c.steering)) rfl hrely hs
    exact ho ▸ h.backed
  locals h hkeeps := by
    obtain ⟨old, h⟩ := h
    exact ⟨old, h.keeps hkeeps⟩
  touched h hrely hs := by
    subst hrely
    obtain ⟨rfl, hnow⟩ := hs
    obtain ⟨old, h⟩ := h
    exact ⟨old, h.touched hnow⟩
  persist h := wp_persistFollowing hK h

/-! ## The drain -/

/-- The chunk `chunk` is observed and recorded. -/
theorem Follows.observe {changed : Bool} (h : Follows maxBytes timely (Drained changed) l o old)
    (chunk : LogChunk) {clock : Nat → Nat} {o' : DocumentView}
    (ho' : o' = { o with received := o.received ++ [chunk] })
    (htime : timely → (∀ i, o'.Clocked (clock i)) ∧ o'.TimelyChunk maxBytes clock) {logs : LogWriter}
    (hbudget : Budget maxBytes logs (retain maxBytes (retained maxBytes o.received) chunk)) :
    let observed := l.readiness.observeLog l.state.readiness chunk.stream
      (l.logs.capturableBytes chunk) clock
    Follows maxBytes timely (Drained (changed || observed.2.2))
      { l with logs, readiness := observed.1, state := { l.state with readiness := observed.2.1 } }
      o' old := by
  intro observed
  have hcall := l.readiness.observeLog_call h.sound chunk.stream (l.logs.capturableBytes chunk) clock
  have hahead : LogsAhead l.state.readiness observed.2.1 := l.readiness.observeLog_logsAhead _ _ _
  have hcontent : retainedBytes maxBytes (o.received ++ [chunk]) =
      extend (retainedBytes maxBytes o.received) chunk.stream (l.logs.capturableBytes chunk) := by
    funext stream
    rw [retainedBytes, retained_concat, h.budget.capturableBytes_eq]
    exact congrFun (streamBytes_retain maxBytes (retained maxBytes o.received) chunk) stream
  have hmatched (ht : timely) :
      Matched (retainedBytes maxBytes (o.received ++ [chunk])) observed.1 observed.2.1 := by
    rw [hcontent]
    exact (h.matched ht).observe chunk.stream (l.logs.capturableBytes chunk) clock
  obtain ⟨hlive, hlogs, hsame⟩ := h.known
  subst ho'
  refine ⟨h.document, ⟨h.identity.schemaVersion, h.identity.runId, h.identity.names⟩,
    h.grows.trans hcall.grows, ⟨hlive, hlogs.trans hahead, fun hchanged => ?_⟩, h.configured, h.deadline,
    h.clocked,
    fun ht hpending hready => ?_, hcall.sound, by rwa [retained_concat], ?_, hmatched⟩
  · obtain ⟨hold, hnew⟩ := Bool.or_eq_false_iff.mp hchanged
    exact (hcall.unchanged_of_false hnew).trans (hsame hold)
  swap
  · change Found (retainedBytes maxBytes (o.received ++ [chunk])) observed.1 observed.2.1
    rw [hcontent]
    exact h.found.observe chunk.stream (l.logs.capturableBytes chunk) clock
  by_cases hstatus : l.state.readiness.status = .pending
  · -- The observation completes the readiness: before it some evidence was
    -- missing, and after it all of it is there.
    obtain ⟨i, hreadyAt⟩ := l.readiness.observeLog_ready hstatus _ _ clock hready
    obtain ⟨deadlineAtMs, hdeadline⟩ := Option.isSome_iff_exists.mp (h.deadline hpending)
    have hbefore : ¬ ∀ check ∈ old.readiness.checks,
        check.Evident (retainedBytes maxBytes o.received) := by
      intro hevident
      obtain ⟨check', hcheck', hnone⟩ :=
        h.sound.unready (by rw [hstatus]; decide) (by rw [hstatus]; decide)
      obtain ⟨check, hcheck, hadvances⟩ := mem_right_of_forall₂ hlogs hcheck'
      have hsome := (hadvances.evident_iff fun literal hlog => (h.matched ht).exact_iff
        (by rw [hstatus]; decide) (by rw [hstatus]; decide) hcheck' hlog).mp (hevident check hcheck)
      rw [hnone] at hsome
      cases hsome
    have hafter : ∀ check ∈ old.readiness.checks,
        check.Evident (retainedBytes maxBytes (o.received ++ [chunk])) := by
      intro check hcheck
      obtain ⟨j, hj⟩ := List.mem_iff_getElem?.mp hcheck
      obtain ⟨check', hj', hadvances⟩ := (hlogs.trans hahead).check hj
      have hmem := List.mem_of_getElem? hj'
      exact (hadvances.evident_iff fun literal hlog => (hmatched ht).exact_iff
        (by rw [hready]; decide) (by rw [hready]; decide) hmem hlog).mpr
        ((hcall.sound.ready.mp hready).2 check' hmem)
    refine ⟨clock i, deadlineAtMs, hreadyAt, ?_, ?_, (htime ht).1 i old h.document⟩
    · exact (h.grows.trans hcall.grows).deadlineAtMs.trans hdeadline
    · refine (htime ht).2 old h.document hpending ?_ hafter deadlineAtMs hdeadline i
      rwa [List.dropLast_concat]
  · have hsettled := hcall.grows.settled hstatus
    simp only [observed] at hready ⊢
    rw [hsettled] at hready ⊢
    exact h.punctual ht hpending hready

theorem wp_recordChunk (hmax : maxBytes ≤ u64Max) {changed : Bool}
    (h : Follows maxBytes timely (Drained changed) l o old) (chunk : LogChunk) :
    Proc.wp (interface maxBytes timely) (recordChunk chunk)
      (fun changed' => Following maxBytes timely (Drained (changed || changed'))) (Kept maxBytes)
      l { o with received := o.received ++ [chunk] } := by
  refine Proc.wp_bind (Proc.wp_call ?_)
  rintro _ rfl clock _ ⟨rfl, htime⟩
  refine ⟨trivial, ?_⟩
  simp only [Proc.wp_get_bind, Proc.wp_modify_bind]
  have hkeeps : (interface maxBytes timely).Keeps BodyCmd.records
      fun o' => o' = { o with received := o.received ++ [chunk] } :=
    fun c hc _ _ _ _ => keeps_quiet c (by cases c <;> first | rfl | cases hc)
  refine Proc.wp_seq _ (Proc.wp_mono
    (wp_record_budget hkeeps (retained maxBytes o.received) hmax ?_ chunk rfl)
    (fun _ _ _ => id) fun e _ o' ho => ?_) ?_
  · exact h.budget
  · obtain rfl := ho
    exact h.backed.receive chunk
  rintro _ l' _ ⟨hframe, hbudget, rfl⟩
  refine Proc.wp_pure ⟨old, ?_⟩
  rw [hframe]
  exact h.observe chunk rfl htime hbudget

theorem wp_receive {c : BodyCmd Received} (hc : c = .tryRecv ∨ ∃ timeout, c = .recvTimeout timeout)
    {changed : Bool} (h : Following maxBytes timely (Drained changed) l o)
    {Q : Received → Locals → DocumentView → Prop}
    (hchunk : ∀ chunk o' old, Follows maxBytes timely (Drained changed) l o' old →
      Q (.chunk chunk) l { o' with received := o'.received ++ [chunk] })
    (hother : ∀ r, (∀ chunk, r ≠ .chunk chunk) → Following maxBytes timely (Drained changed) l o →
      Q r l o) :
    Proc.wp (interface maxBytes timely) (Proc.call c) Q (Kept maxBytes) l o := by
  obtain ⟨old, h⟩ := h
  apply Proc.wp_call
  rintro _ rfl r o' hs
  have hr : o.Receives r o' := by
    rcases hc with rfl | ⟨timeout, rfl⟩ <;> exact hs
  refine ⟨by rcases hc with rfl | ⟨timeout, rfl⟩ <;> trivial, ?_⟩
  cases r with
  | chunk chunk =>
    obtain rfl := hr
    exact hchunk chunk o old h
  | empty =>
    obtain rfl := hr
    exact hother _ nofun ⟨old, h⟩
  | disconnected =>
    obtain rfl := hr
    exact hother _ nofun ⟨old, h⟩

theorem wp_drainBatch (hmax : maxBytes ≤ u64Max) (n : Nat) (changed : Bool)
    (h : Following maxBytes timely (Drained changed) l o) :
    Proc.wp (interface maxBytes timely) (drainBatch n changed)
      (fun drain => Following maxBytes timely (Drained drain.readinessChanged)) (Kept maxBytes) l o := by
  induction n generalizing changed l o with
  | zero => exact Proc.wp_pure h
  | succ n ih =>
    refine Proc.wp_bind (wp_receive (.inl rfl) h (fun chunk o old h => ?_) fun r hr h => ?_)
    · exact Proc.wp_seq _ (wp_recordChunk hmax h chunk) fun changed' l o h => ih _ h
    · cases r with
      | chunk chunk => exact absurd rfl (hr chunk)
      | empty => exact Proc.wp_pure h
      | disconnected => exact Proc.wp_pure h

/-- The last drain, whose report nobody reads. -/
def Ahead (maxBytes : Nat) (timely : Prop) (l : Locals) (o : DocumentView) : Prop :=
  ∃ changed, Following maxBytes timely (Drained changed) l o

theorem wp_drainRound (hmax : maxBytes ≤ u64Max) (deadline : Nat) (h : Ahead maxBytes timely l o) :
    Proc.wp (interface maxBytes timely) (drainRound deadline) (fun _ => Ahead maxBytes timely)
      (Kept maxBytes) l o := by
  obtain ⟨changed, h⟩ := h
  refine Proc.wp_bind (wp_call rfl fun now => ?_)
  simp only
  split
  · refine Proc.wp_bind (wp_receive (.inl rfl) h (fun chunk o old h => ?_) fun r hr h => ?_)
    · exact Proc.wp_throw (h.backed.receive chunk)
    · cases r with
      | chunk chunk => exact absurd rfl (hr chunk)
      | empty => exact Proc.wp_throw h.backed
      | disconnected => exact Proc.wp_pure ⟨changed, h⟩
  · refine Proc.wp_bind (wp_receive (.inr ⟨_, rfl⟩) h (fun chunk o old h => ?_) fun r hr h => ?_)
    · exact Proc.wp_seq _ (wp_recordChunk hmax h chunk) fun _ l o h => Proc.wp_pure ⟨_, h⟩
    · cases r with
      | chunk chunk => exact absurd rfl (hr chunk)
      | empty => exact Proc.wp_pure ⟨changed, h⟩
      | disconnected => exact Proc.wp_pure ⟨changed, h⟩

theorem wp_drainUntilClosed (hmax : maxBytes ≤ u64Max) (limit : Nat) (h : Ahead maxBytes timely l o) :
    Proc.wp (interface maxBytes timely) (drainUntilClosed limit) (fun _ => Ahead maxBytes timely)
      (Kept maxBytes) l o := by
  refine Proc.wp_bind (wp_call rfl fun now => ?_)
  refine Proc.wp_repeatUntil (Ahead maxBytes timely) (fun l o h => ?_) h
  refine Proc.wp_mono (wp_drainRound hmax _ h) (fun r l o h => ?_) fun _ _ _ => id
  cases r <;> exact h

/-! ## The poll -/

theorem Follows.poll {changed : Bool} (h : Follows maxBytes timely (Drained changed) l o old)
    {inputs : PollInputs}
    (htime : timely → o.Clocked inputs.readyAt ∧ o.TimelyProbe maxBytes inputs) :
    Follows maxBytes timely
      (Reported (changed || (l.readiness.poll l.state.readiness inputs).2.2)) (l.polled inputs) o
      old := by
  have hcall := l.readiness.poll_call h.sound inputs
  obtain ⟨hlive, hlogs, hsame⟩ := h.known
  refine ⟨h.document, ⟨h.identity.schemaVersion, h.identity.runId, h.identity.names⟩,
    h.grows.trans hcall.grows, ⟨hlive, fun hchanged => ?_⟩, h.configured, h.deadline,
    h.clocked,
    fun ht hpending hready => ?_, hcall.sound, h.budget, h.found.poll h.sound inputs,
    fun ht => (h.matched ht).poll inputs⟩
  · obtain ⟨hold, hnew⟩ := Bool.or_eq_false_iff.mp hchanged
    exact (hcall.unchanged_of_false hnew).trans (hsame hold)
  by_cases hstatus : l.state.readiness.status = .pending
  · -- The probe completes the readiness, so the other checks have their evidence.
    obtain ⟨hreadyAt, hnow, index, check, hcheck, hexternal, hprobe, hall⟩ :=
      l.readiness.poll_ready h.sound hstatus inputs hready
    obtain ⟨deadlineAtMs, hdeadline⟩ := Option.isSome_iff_exists.mp (h.deadline hpending)
    have hindex : old.readiness.checks[index]? = some check := by
      obtain ⟨hi, rfl⟩ := List.getElem?_eq_some_iff.mp hcheck
      have hi' : index < old.readiness.checks.length := hlogs.length_eq ▸ hi
      refine (List.getElem?_eq_getElem hi').trans ?_
      obtain heq | ⟨hadvances, literal, hlog⟩ := hlogs.get hi' hi
      · exact congrArg some heq.symm
      · have hcondition := hadvances.condition_eq.trans hlog
        simp only [List.get_eq_getElem] at hcondition
        simp [ReadinessTracker.external, hcondition] at hexternal
    have hevident : ∀ (j : Nat) (other : ReadinessCheck), j ≠ index →
        old.readiness.checks[j]? = some other → other.Evident (retainedBytes maxBytes o.received) := by
      intro j other hj hother
      obtain ⟨other', hother', hadvances⟩ := hlogs.check hother
      exact (hadvances.evident_iff fun literal hlog => (h.matched ht).exact_iff
        (by rw [hstatus]; decide) (by rw [hstatus]; decide) (List.mem_of_getElem? hother') hlog).mpr
        (hall j other' hj hother')
    have hdeadline' : l.state.readiness.deadlineAtMs = some deadlineAtMs :=
      h.grows.deadlineAtMs.trans hdeadline
    refine ⟨inputs.readyAt, deadlineAtMs, hreadyAt, hcall.grows.deadlineAtMs.trans hdeadline', ?_,
      (htime ht).1 old h.document⟩
    exact (htime ht).2 old h.document hpending index check hindex hexternal hprobe hevident
      deadlineAtMs hdeadline (hnow deadlineAtMs hdeadline')
  · have hsettled := hcall.grows.settled hstatus
    simp only [Locals.polled] at hready ⊢
    rw [hsettled] at hready ⊢
    exact h.punctual ht hpending hready

theorem wp_pollReadiness {changed : Bool} (h : Following maxBytes timely (Drained changed) l o) :
    Proc.wp (interface maxBytes timely) pollReadiness
      (fun polled => Following maxBytes timely (Reported (changed || polled))) (Kept maxBytes) l o := by
  obtain ⟨old, h⟩ := h
  refine Proc.wp_bind (Proc.wp_call ?_)
  rintro _ rfl inputs _ ⟨rfl, htime⟩
  refine ⟨trivial, ?_⟩
  simp only [Proc.wp_get_bind, Proc.wp_modify_bind, Proc.wp_pure_iff]
  exact ⟨old, h.poll htime⟩

/-- What the drain and the poll have changed is written at once. -/
theorem wp_persistReadiness {changed : Bool} (h : Following maxBytes timely (Reported changed) l o) :
    Proc.wp (interface maxBytes timely) (persistReadiness changed)
      (fun _ => Following maxBytes timely Synced) (Kept maxBytes) l o := by
  obtain ⟨old, h⟩ := h
  cases changed with
  | false =>
    exact Proc.wp_pure ⟨old, h.know ⟨h.known.1, h.known.2 rfl⟩⟩
  | true =>
    simp only [persistReadiness, if_true]
    refine Proc.wp_bind (Proc.wp_bind (wp_now fun now hnow => ?_))
    simp only [Proc.wp_modify_iff]
    have htouched := h.touched hnow
    obtain ⟨-, hcomplete, hfailed⟩ := Knowledge.writable_of_live (K := Reported true)
      (x := old.readiness) (y := l.state.readiness) h.known.1 ⟨h.known.1, fun h => by cases h⟩
    have hwritten : Follows maxBytes timely Synced (l.touched now) _ _ :=
      htouched.written ⟨h.known.1, rfl⟩
    refine Proc.wp_seq (fun _ => Following maxBytes timely Synced) ?_ fun _ l o h =>
      (controlFrame _ _ synced_writable).loop.wp_markStateWrite h
    simp only [persistState, Proc.wp_get_bind]
    exact wp_persist htouched.document (htouched.succeeds (.refl _) rfl rfl hcomplete hfailed)
      ⟨_, hwritten⟩ (fun _ => htouched.backed) fun _ => hwritten.backed

/-! ## Stopping -/

section Stopping

variable [Toolchain]

theorem wp_superviseStop (path : PathBuf) (h : Following maxBytes timely Synced l o) :
    Proc.wp (interface maxBytes timely) (superviseStop path)
      (fun _ => Following maxBytes timely Synced) (Kept maxBytes) l o := by
  have hframe := controlFrame maxBytes timely synced_writable
  have hstopping {now : Nat} {o : DocumentView} {state : RunState}
      (hidentity : (l.touched now).state.SameIdentity state)
      (hreadiness : state.readiness = l.state.readiness) (hupdated : state.updatedAtMs = now) (hstatus : state.status = .stopping)
      (h : Following maxBytes timely Synced (l.touched now) o) :
      Following maxBytes timely Synced { l with state } o := by
    obtain ⟨old, h⟩ := h
    refine ⟨old, h.congr rfl rfl hidentity hreadiness hupdated ⟨?_, h.known.2⟩⟩
    rw [hstatus]
    rfl
  simp only [superviseStop, Proc.wp_get_bind]
  split
  · refine hframe.loop.wp_watchTriggers (A := fun _ _ => True) (fun _ _ _ _ _ _ _ _ => trivial)
      (fun request now o _ h => hstopping ⟨rfl, rfl, rfl⟩ rfl rfl rfl h)
      (fun now o h => hstopping ⟨rfl, rfl, rfl⟩ rfl rfl rfl h) ?_
    refine Proc.wp_mono (wp_readStopRequest_keeps (J := fun o' => o' = o)
      (fun c hc _ _ _ _ => keeps_quiet c (by cases c <;> first | rfl | cases hc))
      (fun e o' ho => ho ▸ h.backed) path l.spec rfl) ?_ fun _ _ _ => id
    rintro r _ _ ⟨rfl, rfl⟩
    exact ⟨rfl, h, fun _ _ => trivial⟩
  · exact hframe.loop.wp_enforceStop _ h

/-! ## The end -/

omit [Toolchain] in
theorem Follows.processExited {K : Knowledge} (h : Follows maxBytes timely K l o old)
    (hlive : l.state.status.isTerminal = false) :
    Follows maxBytes timely Exited
      { l with state := { l.state with
        readiness := (ReadinessTracker.processExited l.state.readiness).1 } } o old := by
  have hcall := ReadinessTracker.processExited_call h.sound
  have hsettled : (ReadinessTracker.processExited l.state.readiness).1.status ≠ .pending := by
    unfold ReadinessTracker.processExited
    split
    · assumption
    · exact nofun
  have hfound : Found (retainedBytes maxBytes o.received) l.readiness
      (ReadinessTracker.processExited l.state.readiness).1 := by
    refine ⟨fun hpending => absurd hpending hsettled, ?_⟩
    have hchecks : (ReadinessTracker.processExited l.state.readiness).1.checks =
        l.state.readiness.checks := by
      unfold ReadinessTracker.processExited
      split <;> rfl
    rw [hchecks]
    exact h.found.ready
  refine ⟨h.document, ⟨h.identity.schemaVersion, h.identity.runId, h.identity.names⟩,
    h.grows.trans hcall.grows, ⟨hlive, hsettled⟩, h.configured, h.deadline,
    h.clocked, fun ht hpending hready => ?_,
    hcall.sound, h.budget, hfound, fun ht => ⟨hcall.sound,
      (h.matched ht).fit.grow hcall.grows.checks, hfound, fun hpending => absurd hpending hsettled⟩⟩
  revert hready
  unfold ReadinessTracker.processExited
  split
  · exact h.punctual ht hpending
  · exact nofun

theorem wp_finishLogs (h : Following maxBytes timely Exited l o) :
    Proc.wp (interface maxBytes timely) finishLogs (fun _ => Following maxBytes timely Exited)
      (Kept maxBytes) l o := by
  obtain ⟨old, h⟩ := h
  simp only [finishLogs, Proc.wp_modify_bind]
  refine Proc.wp_bind (wp_attempt rfl (fun _ => ?_) fun _ => h.backed)
  simp only [Proc.wp_modify_iff]
  exact ⟨old, h.congr rfl rfl ⟨rfl, rfl, rfl⟩ rfl rfl h.known⟩

theorem wp_handleExit (hmax : maxBytes ≤ u64Max) (exitStatus : ExitStatus)
    (h : Following maxBytes timely Synced l o) :
    Proc.wp (interface maxBytes timely) (handleExit exitStatus) (fun _ _ _ => True) (Kept maxBytes)
      l o := by
  have hframe := controlFrame maxBytes timely synced_writable
  have hexited := controlFrame maxBytes timely exited_writable
  refine Proc.wp_seq _ (hframe.loop.wp_killRemaining h) fun _ l o h => ?_
  simp only [Proc.wp_modify_bind]
  obtain ⟨old, h⟩ : Following maxBytes timely Synced { l with armed := false } o :=
    hframe.locals h ⟨rfl, rfl, rfl⟩
  have hdrained : Ahead maxBytes timely { l with armed := false } o :=
    ⟨false, old, h.know ⟨h.known.1, h.known.2 ▸ .refl _, fun _ => h.known.2⟩⟩
  refine Proc.wp_seq _ (wp_drainUntilClosed hmax _ hdrained) ?_
  rintro _ l o ⟨changed, old, h⟩
  simp only [Proc.wp_modify_bind]
  refine Proc.wp_seq _ (wp_finishLogs ⟨old, h.processExited h.known.1⟩) fun _ l o h => ?_
  refine Proc.wp_seq _ (hexited.wp_releaseLeases h) fun _ l o h => ?_
  refine Proc.wp_seq _ (hexited.loop.wp_touch h) fun _ l o h => ?_
  obtain ⟨old, h⟩ := h
  refine Proc.wp_bind (wp_call rfl fun finishedAtMs => ?_)
  simp only [Proc.wp_modify_bind, persistState, Proc.wp_get_bind]
  have hfinal : old.Succeeds timely (retainedBytes maxBytes o.received)
      (finalState l.state l.stopping exitStatus finishedAtMs) :=
    h.succeeds ⟨rfl, rfl, rfl⟩ rfl rfl (fun _ => h.known.2) fun hfailed => by
      simp only [finalState] at hfailed
      split at hfailed <;> cases hfailed
  refine wp_persist h.document hfinal trivial (fun _ => h.backed) fun _ => ?_
  exact ⟨_, rfl, h.found.ready⟩

/-! ## The rounds -/

omit [Toolchain] in
theorem wp_snapshotIfDue (h : Following maxBytes timely Synced l o) :
    Proc.wp (interface maxBytes timely) snapshotIfDue (fun _ => Following maxBytes timely Synced)
      (Kept maxBytes) l o := by
  refine (controlFrame _ _ synced_writable).loop.wp_snapshotIfDue (fun o h => ?_) h
  obtain ⟨old, h⟩ := h
  exact ⟨old, h.congr rfl rfl ⟨rfl, rfl, rfl⟩ rfl rfl h.known⟩

theorem wp_superviseRound (hmax : maxBytes ≤ u64Max) (path : PathBuf)
    (h : Following maxBytes timely Synced l o) :
    Proc.wp (interface maxBytes timely) (superviseRound path)
      (fun r l o => r.elim (Following maxBytes timely Synced l o) fun _ => True) (Kept maxBytes)
      l o := by
  have hframe := controlFrame maxBytes timely synced_writable
  have hdrained : Following maxBytes timely (Drained false) l o := by
    obtain ⟨old, h⟩ := h
    exact ⟨old, h.know ⟨h.known.1, h.known.2 ▸ .refl _, fun _ => h.known.2⟩⟩
  refine Proc.wp_seq _ (wp_drainBatch hmax _ _ hdrained) fun drain l o h => ?_
  refine Proc.wp_seq _ (wp_pollReadiness h) fun polled l o h => ?_
  refine Proc.wp_seq _ (wp_persistReadiness h) fun _ l o h => ?_
  refine Proc.wp_seq _ (wp_superviseStop path h) fun _ l o h => ?_
  refine Proc.wp_seq _ (hframe.loop.wp_tryWaitRetry h) fun exited l o h => ?_
  cases exited with
  | some exitStatus =>
    exact Proc.wp_seq _ (wp_handleExit hmax exitStatus h) fun _ l o _ => Proc.wp_pure trivial
  | none =>
    refine Proc.wp_seq _ (wp_snapshotIfDue h) fun _ l o h => ?_
    exact Proc.wp_bind (wp_call rfl fun _ => Proc.wp_pure h)

/-! ## The scopes -/

omit [Toolchain] in
theorem wp_dropLogs {Q : Unit → Locals → DocumentView → Prop}
    {E : AppError → Locals → DocumentView → Prop} (h : Q () l o) :
    Proc.wp (interface maxBytes timely) dropLogs Q E l o := by
  simp only [dropLogs, Proc.wp_get_bind]
  split
  · exact Proc.wp_pure h
  · exact wp_call rfl fun _ => h

omit [Toolchain] in
theorem wp_dropChild {Q : Unit → Locals → DocumentView → Prop}
    {E : AppError → Locals → DocumentView → Prop} (h : Q () l o) :
    Proc.wp (interface maxBytes timely) dropChild Q E l o := by
  simp only [dropChild, Proc.wp_get_bind]
  split
  · exact Proc.wp_bind (wp_call rfl fun _ => Proc.wp_pure h)
  · exact Proc.wp_pure h

omit [Toolchain] in
theorem wp_releaseRegistry {σ : Type} {s : σ} (leases : LeaseAllocation) :
    Proc.wp (interface maxBytes timely) (releaseRegistry leases) (fun _ _ o' => o' = o)
      (fun _ _ o' => o' = o) s o := by
  unfold releaseRegistry
  split
  · exact Proc.wp_pure rfl
  · exact Proc.wp_bind (wp_attempt rfl (fun _ => Proc.wp_pure rfl) fun _ => rfl)

omit [Toolchain] in
theorem wp_dropLeases {Q : Unit → Locals → DocumentView → Prop}
    {E : AppError → Locals → DocumentView → Prop} (h : ∀ l, Q () l o) :
    Proc.wp (interface maxBytes timely) dropLeases Q E l o := by
  simp only [dropLeases, Proc.wp_get_bind]
  refine Proc.wp_seq (fun _ _ o' => o' = o) (Proc.wp_outcome (wp_releaseRegistry l.leases)) ?_
  rintro _ l _ rfl
  exact Proc.wp_pure (h l)

theorem wp_superviseOutput (hmax : maxBytes ≤ u64Max) (path : PathBuf)
    (h : Following maxBytes timely Synced l o) :
    Proc.wp (interface maxBytes timely) (superviseOutput path) (fun _ _ _ => True) (Kept maxBytes)
      l o := by
  refine Proc.wp_ensuring (Proc.wp_mono (Q := fun _ _ _ => True) (E := Kept maxBytes) ?_
    (fun _ l o _ => wp_call rfl fun _ => trivial) fun _ l o h => wp_call rfl fun _ => h)
  refine Proc.wp_bind (wp_call rfl fun _ => ?_)
  refine Proc.wp_bind (wp_call rfl fun _ => ?_)
  refine Proc.wp_bind (wp_call rfl fun _ => ?_)
  refine Proc.wp_bind (wp_call rfl fun _ => ?_)
  refine Proc.wp_bind (wp_attempt rfl (fun _ => ?_) fun _ => h.backed)
  refine Proc.wp_bind (wp_call rfl fun now => ?_)
  simp only [Proc.wp_modify_bind]
  refine Proc.wp_ensuring (Proc.wp_mono (Q := fun _ _ _ => True) (E := Kept maxBytes) ?_
    (fun _ l o _ => wp_dropLogs trivial) fun _ l o h => wp_dropLogs h)
  refine Proc.wp_repeatUntil (Following maxBytes timely Synced) (fun l o h => ?_)
    ((controlFrame _ _ synced_writable).locals h ⟨rfl, rfl, rfl⟩)
  refine Proc.wp_mono (wp_superviseRound hmax path h) (fun r l o h => ?_) fun _ _ _ => id
  cases r <;> exact h

theorem wp_superviseChild (hmax : maxBytes ≤ u64Max) (path : PathBuf) (pid : Nat)
    (h : Following maxBytes timely Synced l o) :
    Proc.wp (interface maxBytes timely) (superviseChild path pid) (fun _ _ _ => True)
      (Kept maxBytes) l o := by
  have hframe := controlFrame maxBytes timely synced_writable
  refine Proc.wp_ensuring (Proc.wp_mono (Q := fun _ _ _ => True) (E := Kept maxBytes) ?_
    (fun _ l o _ => wp_dropChild trivial) fun _ l o h => wp_dropChild h)
  simp only [Proc.wp_modify_bind]
  refine Proc.wp_bind (wp_call rfl fun spawnedAtMs => ?_)
  obtain ⟨old, h⟩ := h
  have hrunning : Following maxBytes timely Synced { l with
      armed := true
      state := { recordSpawn spawnedAtMs l.state with
        limits := { (recordSpawn spawnedAtMs l.state).limits with
          runtimeDeadlineAtMs := l.spec.maxRuntimeMs.map (saturatingAdd spawnedAtMs) }
        status := .running } } o :=
    ⟨old, h.congr rfl rfl ⟨rfl, rfl, recordSpawn_names spawnedAtMs l.state⟩ rfl rfl
      ⟨rfl, h.known.2⟩⟩
  simp only [Proc.wp_modify_bind]
  refine Proc.wp_seq _ (hframe.loop.wp_touch hrunning) fun _ l o h => ?_
  simp only [Proc.wp_modify_bind]
  obtain ⟨old, h⟩ := h
  refine Proc.wp_seq _ (hframe.persist ⟨old, h.congr rfl rfl ⟨rfl, rfl, rfl⟩ rfl rfl h.known⟩) ?_
  exact fun _ l o h => wp_superviseOutput hmax path h

omit [Toolchain] in
theorem wp_failSpawn (error : IoError) (h : Following maxBytes timely Synced l o) :
    Proc.wp (interface maxBytes timely) (failSpawn error) (fun _ _ _ => True) (Kept maxBytes)
      l o := by
  have hframe := controlFrame maxBytes timely unspawned_writable
  obtain ⟨old, h⟩ := h
  simp only [failSpawn, Proc.wp_modify_bind]
  have hfailed : Following maxBytes timely Unspawned
      { l with state := { l.state with status := .failed } } o :=
    ⟨old, h.congr rfl rfl ⟨rfl, rfl, rfl⟩ rfl rfl ⟨rfl, h.known.2⟩⟩
  refine Proc.wp_seq _ (hframe.loop.wp_touch hfailed) fun _ l o h => ?_
  refine Proc.wp_bind (wp_call rfl fun finishedAtMs => ?_)
  simp only [Proc.wp_modify_bind]
  refine Proc.wp_seq _ (hframe.wp_releaseLeases (hframe.locals h ⟨rfl, rfl, rfl⟩)) fun _ l o h => ?_
  refine Proc.wp_seq _ (hframe.persist h) fun _ l o h => ?_
  simp only [Proc.wp_get_bind, Proc.wp_throw_iff]
  exact h.backed

/-- The state `l.state` may be written, and once it is there the supervisor
    follows it. -/
structure Populated (maxBytes : Nat) (timely : Prop) (l : Locals) (o : DocumentView) : Prop where
  document : ∃ old, o.document = some old ∧
    old.Succeeds timely (retainedBytes maxBytes o.received) l.state
  backed : Backed maxBytes o
  following : Following maxBytes timely Synced l { o with document := some l.state }

theorem wp_superviseLeased (hmax : maxBytes ≤ u64Max) (path : PathBuf)
    (h : Populated maxBytes timely l o) :
    Proc.wp (interface maxBytes timely) (superviseLeased path) (fun _ _ _ => True) (Kept maxBytes)
      l o := by
  have hframe := controlFrame maxBytes timely synced_writable
  refine Proc.wp_ensuring (Proc.wp_mono (Q := fun _ _ _ => True) (E := Kept maxBytes) ?_
    (fun _ l o _ => wp_dropLeases fun _ => trivial) fun _ l o h => wp_dropLeases fun _ => h)
  obtain ⟨old, hold, hnext⟩ := h.document
  refine Proc.wp_seq (fun _ => Following maxBytes timely Synced) ?_ fun _ l o h => ?_
  · simp only [persistState, Proc.wp_get_bind]
    exact wp_persist hold hnext h.following (fun _ => h.backed) fun _ => h.following.backed
  refine Proc.wp_bind (wp_call rfl fun handoffAtMs => ?_)
  simp only [Proc.wp_modify_bind, Proc.wp_get_bind]
  have h := hframe.locals h
    (show l.Keeps { l with state := l.leases.handoffAt handoffAtMs l.state } from
      ⟨rfl, rfl, LeaseAllocation.handoffAt_names _ _ _⟩)
  refine Proc.wp_bind (wp_call rfl fun r => ?_)
  cases r with
  | ok pid => exact wp_superviseChild hmax path pid h
  | error e => exact wp_failSpawn e h

end Stopping

/-! ## The setup -/

/-- A readiness of which no check has been decided. -/
structure Unstarted (readiness : ReadinessState) : Prop where
  sound : readiness.Sound
  deadline : readiness.status = .pending → readiness.deadlineAtMs.isSome
  unready : ∀ check ∈ readiness.checks, check.readyAtMs = none
  settled : readiness.status ≠ .pending → readiness.checks = []

theorem unstarted_new (conditions : List ReadinessCondition) (timeoutMs createdAtMs : Nat) :
    Unstarted (.new conditions timeoutMs createdAtMs) where
  sound := ReadinessState.new_sound conditions timeoutMs createdAtMs
  deadline hpending := by
    cases conditions with
    | nil => cases hpending
    | cons condition rest => rfl
  unready check hcheck := by
    obtain ⟨i, hi, rfl⟩ := List.mem_mapIdx.mp hcheck
    rfl
  settled hsettled := by
    cases conditions with
    | nil => rfl
    | cons condition rest => exact absurd rfl hsettled

theorem Unstarted.evidenced {readiness : ReadinessState} (h : Unstarted readiness)
    (content : LogStream → Bytes) : readiness.Evidenced content := by
  intro check hcheck literal _ hready
  rw [h.unready check hcheck] at hready
  cases hready

/-- The check `check'` is `check` with its condition resolved. -/
def Resolves (check check' : ReadinessCheck) : Prop :=
  check' = { check with condition := check'.condition } ∧
    ∀ literal, check'.condition = .log literal → check.condition = .log literal

theorem resolves_of_resolveCheck {portValues : BTreeMap String} {check check' : ReadinessCheck}
    (h : LeaseAllocation.resolveCheck portValues check = .ok check') : Resolves check check' := by
  unfold LeaseAllocation.resolveCheck at h
  split at h
  · split at h
    · cases h
    · cases h
      exact ⟨rfl, nofun⟩
  · cases h
    exact ⟨rfl, fun _ => id⟩

theorem Unstarted.resolve {readiness : ReadinessState} (h : Unstarted readiness)
    {checks : List ReadinessCheck} (hchecks : List.Forall₂ Resolves readiness.checks checks) :
    Unstarted { readiness with checks } := by
  have hback {check' : ReadinessCheck} (hcheck' : check' ∈ checks) :
      ∃ check ∈ readiness.checks, Resolves check check' := mem_right_of_forall₂ hchecks hcheck'
  have hunready : ∀ check ∈ checks, check.readyAtMs = none := by
    intro check' hcheck'
    obtain ⟨check, hcheck, hresolves, -⟩ := hback hcheck'
    rw [hresolves]
    exact h.unready check hcheck
  have hnil : checks = [] ↔ readiness.checks = [] := by
    rw [← List.length_eq_zero_iff, ← hchecks.length_eq, List.length_eq_zero_iff]
  refine ⟨⟨?_, ?_, ?_, h.sound.readyAt, h.sound.failure⟩, h.deadline, hunready, ?_⟩
  · exact h.sound.notConfigured.trans hnil.symm
  · intro check' hcheck'
    obtain ⟨check, hcheck, hresolves, -⟩ := hback hcheck'
    have hpaired := h.sound.paired check hcheck
    rw [hresolves]
    exact hpaired
  · refine h.sound.ready.trans ⟨fun ⟨hne, hall⟩ => ?_, fun ⟨hne, hall⟩ => ?_⟩
    · obtain ⟨check, hcheck⟩ := List.exists_mem_of_ne_nil _ hne
      have hready := hall check hcheck
      rw [h.unready check hcheck] at hready
      cases hready
    · obtain ⟨check, hcheck⟩ := List.exists_mem_of_ne_nil _ hne
      have hready := hall check hcheck
      rw [hunready check hcheck] at hready
      cases hready
  · exact fun hsettled => hnil.mpr (h.settled hsettled)

theorem Unstarted.found {readiness : ReadinessState} (h : Unstarted readiness)
    (content : LogStream → Bytes) : Found content .new readiness := by
  refine ⟨fun _ stream => ?_, h.evidenced content⟩
  cases stream <;> exact List.nil_suffix

/-- Nothing has been received that could match. -/
theorem Unstarted.matched {readiness : ReadinessState} (h : Unstarted readiness)
    (hfit : LiteralsFit readiness.checks) {content : LogStream → Bytes}
    (hcontent : ∀ stream, content stream = []) : Matched content .new readiness := by
  refine ⟨h.sound, hfit, h.found content, fun _ => ⟨?_, ?_⟩⟩
  · intro check _ literal _ _ stream
    rw [hcontent]
    cases stream <;> exact .inl rfl
  · rintro check hcheck literal hlog - ⟨stream, hoccurs⟩
    rw [hcontent] at hoccurs
    exact (hfit check hcheck literal hlog).1 (List.infix_nil.mp hoccurs)

theorem literalsFit_of_resolves {checks checks' : List ReadinessCheck} (h : LiteralsFit checks)
    (hchecks : List.Forall₂ Resolves checks checks') : LiteralsFit checks' := by
  intro check' hcheck' literal hlog
  obtain ⟨check, hcheck, -, hcondition⟩ := mem_right_of_forall₂ hchecks hcheck'
  exact h check hcheck literal (hcondition literal hlog)

/-- What populating leaves of the state. -/
structure Populates (state populated : RunState) : Prop where
  identity : state.SameIdentity populated
  status : populated.status = state.status
  updatedAtMs : populated.updatedAtMs = state.updatedAtMs
  readiness : populated.readiness = { state.readiness with checks := populated.readiness.checks }
  checks : List.Forall₂ Resolves state.readiness.checks populated.readiness.checks

section Setup

variable [Toolchain] {σ : Type} {s : σ}

theorem populates_of_populateState {ports : List ReservedPort} {state populated : RunState}
    {acquiredAtMs : Nat} {tempPaths : BTreeMap PathBuf} {environment : List (String × OsString)}
    (h : LeaseAllocation.populateState ports state acquiredAtMs tempPaths =
      .ok (populated, environment)) : Populates state populated := by
  have hframe := LeaseAllocation.populateState_frame h
  obtain ⟨hreadiness, portValues, hchecks⟩ := LeaseAllocation.populateState_checks h
  refine ⟨⟨?_, ?_, LeaseAllocation.populateState_names h⟩, ?_, ?_, hreadiness,
    hchecks.imp fun _ _ => resolves_of_resolveCheck⟩
  all_goals rw [hframe]

theorem wp_acquire {state : RunState} (requests : LeaseRequests) :
    Proc.wp (interface maxBytes timely) (LeaseAllocation.acquire state requests)
      (fun r _ o' => o' = o ∧ Populates state r.2) (fun _ _ o' => o' = o) s o := by
  refine Proc.wp_bind (Proc.wp_ofExcept (fun runId _ => ?_) fun _ _ => rfl)
  refine Proc.wp_bind (Proc.wp_ofExcept (fun _ _ => ?_) fun _ _ => rfl)
  refine Proc.wp_bind (Proc.wp_ofExcept (fun _ _ => ?_) fun _ _ => rfl)
  refine Proc.wp_bind (wp_call rfl fun acquiredAtMs => ?_)
  refine Proc.wp_seq (fun _ _ o' => o' = o) ?_ ?_
  · unfold createTempDirectories
    split
    · exact Proc.wp_pure rfl
    · exact wp_attempt rfl (fun _ => rfl) fun _ => rfl
  rintro tempPaths s o rfl
  refine Proc.wp_seq (fun _ _ o' => o' = o) ?_ ?_
  · unfold reservePortNames
    split
    · exact Proc.wp_pure rfl
    · exact wp_attempt rfl (fun _ => rfl) fun _ => rfl
  rintro ports s o rfl
  split
  · refine Proc.wp_seq (fun _ _ o' => o' = o) (wp_discardLeases ?_ rfl) ?_
    · rintro _ _ rfl
      exact wp_releaseRegistry _
    · rintro _ s o rfl
      exact Proc.wp_throw rfl
  · rename_i populated environment hpopulate
    exact Proc.wp_pure ⟨rfl, populates_of_populateState hpopulate⟩

/-- What the supervisor finds when it has acquired its lock. -/
structure Fresh (maxBytes : Nat) (timely : Prop) (o : DocumentView) : Prop where
  received : o.received = []
  document : ∃ state, o.document = some state ∧ Unstarted state.readiness ∧
    (timely → LiteralsFit state.readiness.checks)
  spec : ∀ spec, o.spec = some spec → spec.maxLogBytes = maxBytes

omit [Toolchain] in
theorem Fresh.backed (h : Fresh maxBytes timely o) : Backed maxBytes o := by
  obtain ⟨state, hstate, hunstarted, -⟩ := h.document
  exact ⟨state, hstate, hunstarted.evidenced _⟩

omit [Toolchain] in
theorem wp_loadSupervised (h : Fresh maxBytes timely o) :
    Proc.wp (interface maxBytes timely) loadSupervised
      (fun r _ o' => o' = o ∧ r.1.maxLogBytes = maxBytes ∧ o.document = some r.2)
      (Kept maxBytes) () o := by
  refine Proc.wp_bind (Proc.wp_attempt ?_)
  rintro _ rfl r _ ⟨rfl, hspec⟩
  refine ⟨trivial, ?_⟩
  cases r with
  | error e => exact h.backed
  | ok spec =>
    refine Proc.wp_bind (Proc.wp_throwIf (fun _ => h.backed) fun _ => ?_)
    refine Proc.wp_bind (Proc.wp_attempt ?_)
    rintro _ rfl r _ ⟨rfl, hstate⟩
    refine ⟨trivial, ?_⟩
    cases r with
    | error e => exact h.backed
    | ok state =>
      refine Proc.wp_bind (Proc.wp_throwIf (fun _ => h.backed) fun _ => ?_)
      exact Proc.wp_pure ⟨rfl, h.spec spec (hspec spec rfl), hstate state rfl⟩

omit [Toolchain] in
/-- The populated state follows the one from which it was made. -/
theorem Populates.populated {starting populated : RunState} (h : Populates starting populated)
    (hstatus : starting.status = .starting) (hunstarted : Unstarted starting.readiness)
    (hfit : timely → LiteralsFit starting.readiness.checks) (hreceived : o.received = []) (hdocument : o.document = some starting) (spec : SupervisorSpec)
    (leases : LeaseAllocation) :
    Populated maxBytes timely { spec, state := populated, leases, logs := .create maxBytes } o := by
  have hresolved : Unstarted populated.readiness := h.readiness ▸ hunstarted.resolve h.checks
  have hpunctual (hready : populated.readiness.status = .ready) : False := by
    obtain ⟨hne, hall⟩ := hresolved.sound.ready.mp hready
    obtain ⟨check, hcheck⟩ := List.exists_mem_of_ne_nil _ hne
    have hsome := hall check hcheck
    rw [hresolved.unready check hcheck] at hsome
    cases hsome
  have hlive : populated.status.isTerminal = false := by
    rw [h.status, hstatus]
    rfl
  refine ⟨⟨starting, hdocument, ?_⟩, ⟨starting, hdocument, hunstarted.evidenced _⟩, populated, ?_⟩
  · refine ⟨h.identity, fun hsettled => ?_, fun hpending hnot => ?_, ?_,
      fun check hcheck literal hlog => ?_,
      hresolved.evidenced _, fun hcomplete => ?_, fun hfailed => ?_, fun _ => h.updatedAtMs.ge,
      fun _ _ hready => (hpunctual hready).elim⟩
    · have hnil := hunstarted.settled hsettled
      have hchecks := h.checks
      rw [hnil, List.forall₂_nil_left_iff] at hchecks
      rw [h.readiness, hchecks, ← hnil]
    · rw [h.readiness] at hnot
      exact absurd (hpending.symm.trans hnot) nofun
    · rw [h.readiness]
    · obtain ⟨check', hcheck', -, hcondition⟩ := mem_right_of_forall₂ h.checks hcheck
      exact ⟨check', hcheck', hcondition literal hlog⟩
    · rw [RunStatus.complete_of_live hlive] at hcomplete
      cases hcomplete
    · rw [hfailed] at hlive
      cases hlive
  · refine ⟨rfl, .refl _, .refl _, ⟨hlive, rfl⟩, fun hpending hnil => ?_, hresolved.deadline,
      fun _ => Nat.le_refl _,
      fun _ _ hready => (hpunctual hready).elim, hresolved.sound, ?_, hresolved.found _,
      fun ht => hresolved.matched (literalsFit_of_resolves (hfit ht) h.checks) fun stream => ?_⟩
    · rw [hresolved.sound.notConfigured.mpr hnil] at hpending
      cases hpending
    · rw [hreceived]
      exact ⟨rfl, rfl, Nat.zero_le _⟩
    · rw [hreceived]
      rfl

theorem wp_superviseLocked (hmax : maxBytes ≤ u64Max) (path : PathBuf) (h : Fresh maxBytes timely o) :
    Proc.wp (interface maxBytes timely) (superviseLocked path) (fun _ _ _ => True) (Kept maxBytes)
      () o := by
  refine Proc.wp_seq _ (wp_loadSupervised h) ?_
  rintro ⟨spec, state⟩ s o ⟨rfl, hlimit, hstate⟩
  obtain ⟨_, hfound, hunstarted, hfit⟩ := h.document
  obtain rfl : state = _ := Option.some.inj (hstate.symm.trans hfound)
  refine Proc.wp_bind (Proc.wp_attempt ?_)
  rintro _ rfl r _ ⟨left, rfl⟩
  refine ⟨trivial, ?_⟩
  cases r with
  | error e => exact h.backed
  | ok u =>
    refine Proc.wp_bind (wp_now fun updatedAtMs hnow => ?_)
    refine Proc.wp_bind (wp_call rfl fun supervisorPid => ?_)
    have hstarting : state.Succeeds timely (retainedBytes maxBytes o.received) { state with
        status := .starting, updatedAtMs
        process := { state.process with supervisorPid := some supervisorPid } } :=
      ⟨⟨rfl, rfl, rfl⟩, fun _ => rfl, fun hpending hnot => absurd (hpending.symm.trans hnot) nofun, rfl, fun check hcheck _ hlog => ⟨check, hcheck, hlog⟩,
        hunstarted.evidenced _, nofun, nofun, fun ht => hnow ht state hstate,
        fun _ hpending hready => absurd (hpending.symm.trans hready) nofun⟩
    refine Proc.wp_seq (fun _ _ o' => o'.received = [] ∧ o'.document = some { state with
        status := .starting, updatedAtMs
        process := { state.process with supervisorPid := some supervisorPid } })
      (wp_persist hstate hstarting ⟨h.received, rfl⟩ (fun _ => h.backed)
        fun _ => ⟨_, rfl, hunstarted.evidenced _⟩) ?_
    rintro _ s o ⟨hreceived, hdocument⟩
    have hbacked : Backed maxBytes o := ⟨_, hdocument, hunstarted.evidenced _⟩
    refine Proc.wp_seq _ (Proc.wp_mono (wp_acquire spec.leaseRequests) (fun _ _ _ => id)
      fun _ _ o' ho => ?_) ?_
    · obtain rfl := ho
      exact hbacked
    rintro ⟨leases, populated⟩ s o ⟨rfl, hpopulates⟩
    refine Proc.wp_seq (fun r _ o => ∀ e, r.1 = .error e → Backed maxBytes o) (Proc.wp_withStore ?_)
      fun r s o hr => Proc.wp_ofExcept (fun _ _ => trivial) hr
    rw [show spec.maxLogBytes = maxBytes from hlimit]
    exact Proc.wp_mono (wp_superviseLeased hmax path
      (hpopulates.populated rfl hunstarted hfit hreceived hdocument spec leases))
      (fun _ _ _ _ => nofun) fun _ _ _ h _ _ => h

omit [Toolchain] in
theorem failedState_names (error : AppError) (updatedAtMs finishedAtMs : Nat) (state : RunState) :
    (failedState error updatedAtMs finishedAtMs state).leases.names = state.leases.names := by
  simp only [LeaseState.names, failedState, List.map_map]
  refine Prod.ext (List.map_congr_left fun lease _ => ?_) (List.map_congr_left fun lease _ => ?_)
  · simp only [Function.comp_apply, PortLease.expire]
    split <;> rfl
  · simp only [Function.comp_apply, TempDirectoryLease.expire]
    split <;> rfl

omit [Toolchain] in
theorem wp_markSupervisorFailed (error : AppError) (s : Unit) (h : Backed maxBytes o) :
    Proc.wp (interface maxBytes timely) (markSupervisorFailed error) (fun _ _ _ => True)
      (fun _ _ _ => True) s o := by
  refine Proc.wp_bind (Proc.wp_call ?_)
  rintro _ rfl r o ⟨rfl, hread⟩
  refine ⟨trivial, ?_⟩
  cases r with
  | error e => exact Proc.wp_pure trivial
  | ok state =>
    simp only
    split
    · exact Proc.wp_pure trivial
    obtain ⟨old, hold, hevidenced⟩ := h
    obtain rfl : old = state := Option.some.inj (hold.symm.trans (hread state rfl))
    refine Proc.wp_bind (wp_now fun updatedAtMs hnow => ?_)
    refine Proc.wp_bind (wp_call rfl fun finishedAtMs => ?_)
    refine Proc.wp_bind (Proc.wp_call ?_)
    rintro _ rfl r o' _
    -- The failed state keeps the readiness that is on disk.
    refine ⟨⟨old, hold, ⟨rfl, rfl, failedState_names _ _ _ _⟩, fun _ => rfl,
      fun hpending hnot => absurd (hpending.symm.trans hnot) nofun, rfl,
      fun check hcheck _ hlog => ⟨check, hcheck, hlog⟩, hevidenced, nofun, fun _ => rfl,
      fun ht => hnow ht old hold, fun _ hpending hready => ?_⟩, Proc.wp_pure trivial⟩
    exact absurd (hpending.symm.trans hready) nofun

theorem wp_superviseAndMark (hmax : maxBytes ≤ u64Max) (path : PathBuf) (h : Fresh maxBytes timely o) :
    Proc.wp (interface maxBytes timely) (superviseAndMark path) (fun _ _ _ => True)
      (fun _ _ _ => True) () o := by
  refine Proc.wp_seq (fun r _ o => ∀ e, r = .error e → Backed maxBytes o)
    (Proc.wp_outcome (Proc.wp_mono (wp_superviseLocked hmax path h) (fun _ _ _ _ => nofun) ?_))
    fun r s o hr => ?_
  · rintro e s o h _ -
    exact h
  cases r with
  | ok u => exact Proc.wp_pure trivial
  | error e =>
    exact Proc.wp_seq _ (wp_markSupervisorFailed e s (hr e rfl)) fun _ s o _ => Proc.wp_throw trivial

end Setup

end DocumentView

end Procherd
