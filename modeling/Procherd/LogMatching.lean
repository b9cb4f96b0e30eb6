-- SUMMARY: The incremental search for log literals against the whole output: a log check is ready exactly if its literal occurs in the retained bytes of one stream.
import Procherd.Accounting
import Procherd.ReadinessLaws
import Procherd.Reference
import Procherd.Supervisor

/-!
# Log matching

`observe_log` sees the output in pieces and keeps a short tail of each stream.
The tail is a suffix of what the stream gave so far, long enough for every
literal that is still looked for; so a literal that is found in the tail and the
next piece is one that occurs in the whole stream and has not occurred before.
-/

namespace Procherd

open Interaction

/-! ## Windows of a stream -/

theorem containsBytes_iff (haystack needle : Bytes) :
    containsBytes haystack needle ↔ needle <:+: haystack := by
  induction haystack with
  | nil => simp [containsBytes]
  | cons b rest ih =>
    rw [List.infix_cons_iff, ← ih, ← List.isPrefixOf_iff_prefix]
    simp [containsBytes]

/-- A window that is new in `content ++ piece` is found in the tail of `content`
    and `piece`, if the tail is long enough. -/
theorem infix_tail_append {content tail piece needle : Bytes} (hne : needle ≠ [])
    (htail : tail <:+ content) (hlong : tail = content ∨ needle.length - 1 ≤ tail.length)
    (hnew : ¬ needle <:+: content) (h : needle <:+: content ++ piece) : needle <:+: tail ++ piece := by
  rcases hlong with rfl | hlong
  · exact h
  obtain h | h | ⟨first, last, -, hlast, rfl, hfirst, hpiece⟩ := List.infix_append_iff_ne_nil.mp h
  · exact absurd h hnew
  · exact List.infix_append_of_infix_right h
  · -- The window ends in the piece, so less than the whole of it is in the tail.
    have hpos := List.length_pos_iff.mpr hlast
    rw [List.length_append] at hlong
    have hsuffix : first <:+ tail := List.suffix_of_suffix_length_le hfirst htail (by omega)
    exact List.infix_append_iff.mpr (.inr (.inr ⟨first, last, rfl, hsuffix, hpiece⟩))

/-! ## The tail -/

theorem le_foldl_max (values : List Nat) (start : Nat) :
    start ≤ values.foldl max start ∧ ∀ value ∈ values, value ≤ values.foldl max start := by
  induction values generalizing start with
  | nil => exact ⟨Nat.le_refl _, nofun⟩
  | cons head rest ih =>
    have ⟨hstart, hrest⟩ := ih (max start head)
    rw [List.foldl_cons]
    refine ⟨(Nat.le_max_left _ _).trans hstart, List.forall_mem_cons.mpr ⟨?_, hrest⟩⟩
    exact (Nat.le_max_right _ _).trans hstart

/-- The tail is long enough for every literal that is still looked for. -/
theorem le_maxTail {checks : List ReadinessCheck} {check : ReadinessCheck} {literal : String}
    (hcheck : check ∈ checks) (hcondition : check.condition = .log literal)
    (hnone : check.readyAtMs = none) (hlength : (literalBytes literal).length ≤ MAX_LOG_LITERAL_BYTES) :
    (literalBytes literal).length - 1 ≤ maxTail checks := by
  refine Nat.le_min.mpr ⟨(le_foldl_max _ 0).2 _ ?_, Nat.sub_le_sub_right hlength 1⟩
  refine List.mem_filterMap.mpr ⟨check, hcheck, ?_⟩
  simp [hcondition, hnone]

namespace ReadinessTracker

theorem tail_setTail (tracker : ReadinessTracker) (stream other : LogStream) (bytes : Bytes) :
    (tracker.setTail stream bytes).tail other = if other = stream then bytes else tracker.tail other := by
  cases stream <;> cases other <;> rfl

end ReadinessTracker

/-! ## The invariant -/

/-- The literal occurs in the content of one stream. -/
def Occurs (literal : String) (content : LogStream → Bytes) : Prop :=
  ∃ stream, literalBytes literal <:+: content stream

theorem Occurs.mono {literal : String} {content content' : LogStream → Bytes}
    (h : Occurs literal content) (hgrows : ∀ stream, content stream <+: content' stream) :
    Occurs literal content' := by
  obtain ⟨stream, h⟩ := h
  exact ⟨stream, h.trans (hgrows stream).isInfix⟩

/-- Nothing is found that is not there. -/
structure Found (content : LogStream → Bytes) (tracker : ReadinessTracker) (state : ReadinessState) :
    Prop where
  tail : state.status = .pending → ∀ stream, tracker.tail stream <:+ content stream
  ready : ∀ check ∈ state.checks, ∀ literal, check.condition = .log literal →
    check.readyAtMs.isSome → Occurs literal content

/-- While the readiness is pending, nothing is missed. -/
structure Missing (content : LogStream → Bytes) (tracker : ReadinessTracker)
    (state : ReadinessState) : Prop where
  tail : ∀ check ∈ state.checks, ∀ literal, check.condition = .log literal →
    check.readyAtMs = none → ∀ stream, tracker.tail stream = content stream ∨
      (literalBytes literal).length - 1 ≤ (tracker.tail stream).length
  unready : ∀ check ∈ state.checks, ∀ literal, check.condition = .log literal →
    check.readyAtMs = none → ¬ Occurs literal content

/-- The literals of the conditions are those that `start` accepts. -/
def LiteralsFit (checks : List ReadinessCheck) : Prop :=
  ∀ check ∈ checks, ∀ literal, check.condition = .log literal →
    literalBytes literal ≠ [] ∧ (literalBytes literal).length ≤ MAX_LOG_LITERAL_BYTES

/-- The content after one more piece of a stream. -/
def extend (content : LogStream → Bytes) (stream : LogStream) (piece : Bytes) : LogStream → Bytes :=
  fun other => content other ++ if stream = other then piece else []

theorem prefix_extend (content : LogStream → Bytes) (stream : LogStream) (piece : Bytes)
    (other : LogStream) : content other <+: extend content stream piece other :=
  List.prefix_append _ _

theorem extend_of_ne {content : LogStream → Bytes} {stream other : LogStream} {piece : Bytes}
    (h : other ≠ stream) : extend content stream piece other = content other := by
  rw [extend, if_neg (Ne.symm h), List.append_nil]

theorem extend_self (content : LogStream → Bytes) (stream : LogStream) (piece : Bytes) :
    extend content stream piece stream = content stream ++ piece := by
  rw [extend, if_pos rfl]

/-! ## One observation -/

namespace ReadinessTracker

variable {content : LogStream → Bytes} {tracker : ReadinessTracker} {state : ReadinessState}

/-- The checks after the search of a piece. -/
def observedChecks (tracker : ReadinessTracker) (state : ReadinessState) (stream : LogStream)
    (bytes : Bytes) (clock : Nat → Nat) : List ReadinessCheck :=
  (observeChecks stream (tracker.tail stream ++ bytes) clock 0 state.checks).1

/-- What a pending readiness keeps of a stream after a piece. -/
def observedTail (tracker : ReadinessTracker) (checks : List ReadinessCheck) (stream : LogStream)
    (bytes : Bytes) : Bytes :=
  let searchable := tracker.tail stream ++ bytes
  searchable.drop (searchable.length - min searchable.length (maxTail checks))

theorem observeLog_pending (hstatus : state.status = .pending) (stream : LogStream) (bytes : Bytes)
    (clock : Nat → Nat) :
    let checks := tracker.observedChecks state stream bytes clock
    (tracker.observeLog state stream bytes clock).1 =
        tracker.setTail stream (tracker.observedTail checks stream bytes) ∧
      ∃ i, (tracker.observeLog state stream bytes clock).2.1 =
        (finishIfReady { state with checks } (clock i)).1 := by
  unfold observeLog
  rw [if_neg (not_not.mpr hstatus)]
  exact ⟨rfl, _, rfl⟩

theorem observeLog_settled (hstatus : state.status ≠ .pending) (stream : LogStream) (bytes : Bytes)
    (clock : Nat → Nat) : tracker.observeLog state stream bytes clock = (tracker, state, false) := by
  unfold observeLog
  rw [if_pos hstatus]

/-- The check that an observed check was. -/
theorem mem_observedChecks {stream : LogStream} {bytes : Bytes} {clock : Nat → Nat}
    {check' : ReadinessCheck} (h : check' ∈ tracker.observedChecks state stream bytes clock) :
    ∃ check ∈ state.checks, check.Observed (tracker.tail stream ++ bytes) check' :=
  mem_right_of_forall₂ (observeChecks_observed _ _ _ _ _) h

end ReadinessTracker

namespace Found

variable {content content' : LogStream → Bytes} {tracker : ReadinessTracker} {state : ReadinessState}

theorem mono (h : Found content tracker state) (hstatus : state.status ≠ .pending)
    (hgrows : ∀ stream, content stream <+: content' stream) : Found content' tracker state where
  tail hpending := absurd hpending hstatus
  ready check hcheck literal hcondition hready := (h.ready check hcheck literal hcondition hready).mono hgrows

theorem observe (h : Found content tracker state) (stream : LogStream) (bytes : Bytes)
    (clock : Nat → Nat) :
    Found (extend content stream bytes) (tracker.observeLog state stream bytes clock).1
      (tracker.observeLog state stream bytes clock).2.1 := by
  by_cases hstatus : state.status = .pending
  · obtain ⟨htracker, i, hstate⟩ := tracker.observeLog_pending hstatus stream bytes clock
    have hsearchable : tracker.tail stream ++ bytes <:+ content stream ++ bytes := by
      obtain ⟨rest, hrest⟩ := h.tail hstatus stream
      exact ⟨rest, by rw [← List.append_assoc, hrest]⟩
    rw [htracker, hstate]
    refine ⟨fun _ other => ?_, ?_⟩
    · rw [ReadinessTracker.tail_setTail]
      split
      · rename_i heq
        subst heq
        rw [extend_self]
        exact (List.drop_suffix _ _).trans hsearchable
      · rename_i hne
        rw [extend_of_ne hne]
        exact h.tail hstatus other
    · rw [ReadinessState.finish_checks]
      intro check' hcheck' literal hcondition hready
      obtain ⟨check, hcheck, hobserved⟩ := ReadinessTracker.mem_observedChecks hcheck'
      rw [hobserved.advances.condition_eq] at hcondition
      rcases hobserved.ready.mp hready with hready | ⟨found, hfound, hcontains⟩
      · exact (h.ready check hcheck literal hcondition hready).mono (prefix_extend _ _ _)
      · rw [hcondition] at hfound
        cases hfound
        refine ⟨stream, ((containsBytes_iff _ _).mp hcontains).trans ?_⟩
        rw [extend_self]
        exact hsearchable.isInfix
  · rw [ReadinessTracker.observeLog_settled hstatus]
    exact h.mono hstatus (prefix_extend _ _ _)

end Found

namespace Missing

variable {content : LogStream → Bytes} {tracker : ReadinessTracker} {state : ReadinessState}

theorem observe (h : Missing content tracker state) (hfound : Found content tracker state)
    (hfit : LiteralsFit state.checks) (hstatus : state.status = .pending) (stream : LogStream)
    (bytes : Bytes) (clock : Nat → Nat) :
    Missing (extend content stream bytes) (tracker.observeLog state stream bytes clock).1
      (tracker.observeLog state stream bytes clock).2.1 := by
  obtain ⟨htracker, i, hstate⟩ := tracker.observeLog_pending hstatus stream bytes clock
  rw [htracker, hstate]
  -- What an unready check was before, and what the search says of its literal.
  have hbefore {check' : ReadinessCheck} {literal : String}
      (hcheck' : check' ∈ tracker.observedChecks state stream bytes clock)
      (hcondition : check'.condition = .log literal) (hnone : check'.readyAtMs = none) :
      ∃ check ∈ state.checks, check.condition = .log literal ∧ check.readyAtMs = none ∧
        ¬ containsBytes (tracker.tail stream ++ bytes) (literalBytes literal) := by
    obtain ⟨check, hcheck, hobserved⟩ := ReadinessTracker.mem_observedChecks hcheck'
    rw [hobserved.advances.condition_eq] at hcondition
    have hunready := mt hobserved.ready.mpr (by simp [hnone])
    have ⟨hunready, hmissed⟩ := not_or.mp hunready
    exact ⟨check, hcheck, hcondition, by simpa using hunready,
      fun hcontains => hmissed ⟨literal, hcondition, hcontains⟩⟩
  refine ⟨?_, ?_⟩
  · rw [ReadinessState.finish_checks]
    intro check' hcheck' literal hcondition hnone other
    obtain ⟨check, hcheck, hcondition', hnone', -⟩ := hbefore hcheck' hcondition hnone
    have htail := h.tail check hcheck literal hcondition' hnone' other
    rw [ReadinessTracker.tail_setTail]
    split
    · rename_i heq
      subst heq
      rw [extend_self]
      have hlong : (literalBytes literal).length - 1 ≤
          maxTail (tracker.observedChecks state other bytes clock) :=
        le_maxTail hcheck' hcondition hnone (hfit check hcheck literal hcondition').2
      simp only [ReadinessTracker.observedTail]
      rcases Nat.le_total (tracker.tail other ++ bytes).length
        (maxTail (tracker.observedChecks state other bytes clock)) with hshort | hshort
      · -- Everything that was searched is kept.
        rw [Nat.min_eq_left hshort, Nat.sub_self, List.drop_zero]
        rcases htail with htail | htail
        · exact .inl (by rw [htail])
        · refine .inr (htail.trans ?_)
          rw [List.length_append]
          exact Nat.le_add_right _ _
      · rw [Nat.min_eq_right hshort, List.length_drop]
        exact .inr (by omega)
    · rename_i hne
      rw [extend_of_ne hne]
      exact htail
  · rw [ReadinessState.finish_checks]
    rintro check' hcheck' literal hcondition hnone ⟨other, hoccurs⟩
    obtain ⟨check, hcheck, hcondition', hnone', hmissed⟩ := hbefore hcheck' hcondition hnone
    have hold := h.unready check hcheck literal hcondition' hnone'
    by_cases heq : other = stream
    · subst heq
      rw [extend_self] at hoccurs
      refine hmissed ((containsBytes_iff _ _).mpr ?_)
      exact infix_tail_append (hfit check hcheck literal hcondition').1 (hfound.tail hstatus other)
        (h.tail check hcheck literal hcondition' hnone' other) (fun hc => hold ⟨other, hc⟩) hoccurs
    · rw [extend_of_ne heq] at hoccurs
      exact hold ⟨other, hoccurs⟩

end Missing

/-! ## A poll -/

/-- A poll decides no log check. -/
theorem poll_logChecks {tracker : ReadinessTracker} {state : ReadinessState} (inputs : PollInputs)
    {check : ReadinessCheck} {literal : String}
    (hcheck : check ∈ (tracker.poll state inputs).2.1.checks)
    (hcondition : check.condition = .log literal) : check ∈ state.checks := by
  by_cases hstatus : state.status = .pending
  · generalize hresult : (tracker.poll state inputs).2 = result at hcheck
    have hpolled := hresult ▸ tracker.poll_polled hstatus inputs
    cases hpolled with
    | timedOut _ => exact hcheck
    | idle => exact hcheck
    | complete _ =>
      rwa [ReadinessState.finish_checks] at hcheck
    | @probed index probed evidence _ hprobed hexternal _ =>
      rw [ReadinessState.finish_checks] at hcheck
      rcases List.mem_or_eq_of_mem_set hcheck with hcheck | rfl
      · exact hcheck
      · have hlog : probed.condition = .log literal := hcondition
        simp [ReadinessTracker.external, hlog] at hexternal
  · unfold ReadinessTracker.poll at hcheck
    rw [if_pos hstatus] at hcheck
    exact hcheck

theorem Found.poll {content : LogStream → Bytes} {tracker : ReadinessTracker}
    {state : ReadinessState} (h : Found content tracker state) (hsound : state.Sound)
    (inputs : PollInputs) :
    Found content (tracker.poll state inputs).1 (tracker.poll state inputs).2.1 where
  tail hstatus stream := by
    rw [ReadinessTracker.poll_tail]
    exact h.tail ((tracker.poll_call hsound inputs).grows.pending hstatus) stream
  ready check hcheck literal hcondition :=
    h.ready check (poll_logChecks inputs hcheck hcondition) literal hcondition

/-- A readiness whose log checks agree with the content of the streams. -/
structure Matched (content : LogStream → Bytes) (tracker : ReadinessTracker) (state : ReadinessState) :
    Prop where
  sound : state.Sound
  fit : LiteralsFit state.checks
  found : Found content tracker state
  missing : state.status = .pending → Missing content tracker state

theorem LiteralsFit.grow {checks checks' : List ReadinessCheck} (h : LiteralsFit checks)
    (hchecks : List.Forall₂ ReadinessCheck.Advances checks checks') : LiteralsFit checks' := by
  intro check' hcheck' literal hcondition
  obtain ⟨check, hcheck, hadvances⟩ := mem_right_of_forall₂ hchecks hcheck'
  exact h check hcheck literal (hadvances.condition_eq ▸ hcondition)

namespace Matched

variable {content : LogStream → Bytes} {tracker : ReadinessTracker} {state : ReadinessState}

theorem observe (h : Matched content tracker state) (stream : LogStream) (bytes : Bytes)
    (clock : Nat → Nat) :
    Matched (extend content stream bytes) (tracker.observeLog state stream bytes clock).1
      (tracker.observeLog state stream bytes clock).2.1 := by
  have hcall := tracker.observeLog_call h.sound stream bytes clock
  refine ⟨hcall.sound, h.fit.grow hcall.grows.checks, h.found.observe stream bytes clock, ?_⟩
  intro hpending
  by_cases hstatus : state.status = .pending
  · exact (h.missing hstatus).observe h.found h.fit hstatus stream bytes clock
  · rw [ReadinessTracker.observeLog_settled hstatus] at hpending
    exact absurd hpending hstatus

theorem poll (h : Matched content tracker state) (inputs : PollInputs) :
    Matched content (tracker.poll state inputs).1 (tracker.poll state inputs).2.1 := by
  have hcall := tracker.poll_call h.sound inputs
  refine ⟨hcall.sound, h.fit.grow hcall.grows.checks, h.found.poll h.sound inputs, ?_⟩
  intro hstatus'
  have hmissing := h.missing (hcall.grows.pending hstatus')
  refine ⟨fun check hcheck literal hcondition hnone stream => ?_, ?_⟩
  · rw [ReadinessTracker.poll_tail]
    exact hmissing.tail check (poll_logChecks inputs hcheck hcondition) literal hcondition hnone
      stream
  · intro check hcheck literal hcondition
    exact hmissing.unready check (poll_logChecks inputs hcheck hcondition) literal hcondition

/-- Unless it ended without success, a log check is ready exactly if its literal
    occurs. -/
theorem exact_iff (h : Matched content tracker state) (htimedOut : state.status ≠ .timedOut)
    (hfailed : state.status ≠ .failed) {check : ReadinessCheck} (hcheck : check ∈ state.checks)
    {literal : String} (hcondition : check.condition = .log literal) :
    check.readyAtMs.isSome ↔ Occurs literal content := by
  refine ⟨h.found.ready check hcheck literal hcondition, fun hoccurs => ?_⟩
  cases hstatus : state.status with
  | notConfigured =>
    rw [h.sound.notConfigured.mp hstatus] at hcheck
    cases hcheck
  | ready => exact (h.sound.ready.mp hstatus).2 check hcheck
  | pending =>
    by_contra hunready
    have hnone : check.readyAtMs = none := by simpa using hunready
    exact (h.missing hstatus).unready check hcheck literal hcondition hnone hoccurs
  | timedOut => exact absurd hstatus htimedOut
  | failed => exact absurd hstatus hfailed

end Matched

/-! ## Chunks -/

/-- What a budget keeps of one more chunk extends the content of its stream. -/
theorem streamBytes_retain (maxBytes : Nat) (pieces : List LogChunk) (chunk : LogChunk) :
    (fun stream => streamBytes stream (retain maxBytes pieces chunk)) =
      extend (fun stream => streamBytes stream pieces) chunk.stream
        (chunk.bytes.take (min chunk.bytes.length (maxBytes - (bytesOf pieces).length))) := by
  funext stream
  simp only [retain, extend]
  split
  · rw [streamBytes_append, streamBytes_singleton]
  · rename_i hzero
    rw [Nat.eq_zero_of_not_pos hzero, List.take_zero, ite_self, List.append_nil]

/-- A writer that has kept `pieces` within a budget of `maxBytes`. -/
structure Budget (maxBytes : Nat) (writer : LogWriter) (pieces : List LogChunk) : Prop where
  limit : writer.summary.maxBytes = maxBytes
  captured : writer.summary.capturedBytes = (bytesOf pieces).length
  length_le : (bytesOf pieces).length ≤ maxBytes

namespace Budget

variable {maxBytes : Nat} {writer : LogWriter} {pieces : List LogChunk}

theorem capturableBytes_eq (h : Budget maxBytes writer pieces) (chunk : LogChunk) :
    writer.capturableBytes chunk =
      chunk.bytes.take (min chunk.bytes.length (maxBytes - (bytesOf pieces).length)) := by
  rw [LogWriter.capturableBytes, LogWriter.captured, LogWriter.available, h.limit, h.captured]

theorem retain (h : Budget maxBytes writer pieces) (hmax : maxBytes ≤ u64Max) (chunk : LogChunk)
    {writer' : LogWriter} (hlimit : writer'.summary.maxBytes = writer.summary.maxBytes)
    (hcaptured : writer'.summary.capturedBytes =
      saturatingAdd writer.summary.capturedBytes (writer.captured chunk)) :
    Budget maxBytes writer' (Procherd.retain maxBytes pieces chunk) := by
  have hle := h.length_le
  have hn : writer.captured chunk = min chunk.bytes.length (maxBytes - (bytesOf pieces).length) := by
    rw [LogWriter.captured, LogWriter.available, h.limit, h.captured]
  have hlength : (bytesOf (Procherd.retain maxBytes pieces chunk)).length =
      (bytesOf pieces).length + writer.captured chunk := by
    rw [hn]
    simp only [Procherd.retain]
    split
    · rw [bytesOf_append, bytesOf_singleton, List.length_append, List.length_take,
        Nat.min_eq_left (Nat.min_le_left _ _)]
    · rename_i hzero
      rw [Nat.eq_zero_of_not_pos hzero, Nat.add_zero]
  refine ⟨hlimit.trans h.limit, ?_, by omega⟩
  rw [hcaptured, h.captured, hlength]
  exact saturatingAdd_of_le (by omega)

end Budget

/-! ## record -/

section Record

variable {O : Type} {L : Interface BodyCmd O} {J : O → Prop} {l : Locals} {o : O}

/-- The commands that record a chunk. -/
def BodyCmd.records {β : Type} : BodyCmd β → Bool
  | .now | .appendLog _ => true
  | _ => false

theorem wp_writeBuffer_locals (hJ : L.Keeps BodyCmd.records J) (h : J o) :
    Proc.wp L writeBuffer
      (fun _ l' o' => l' = { l with logs := { l.logs with buffer := [] } } ∧ J o')
      (fun _ _ o' => J o') l o := by
  refine Proc.wp_repeatUntil
    (fun l' o' => (∃ buffer, l' = { l with logs := { l.logs with buffer } }) ∧ J o') ?_
    ⟨⟨l.logs.buffer, rfl⟩, h⟩
  rintro _ o ⟨⟨buffer, rfl⟩, h⟩
  simp only [Proc.wp_get_bind]
  split
  · rename_i hempty
    obtain rfl : buffer = [] := hempty
    exact Proc.wp_pure ⟨rfl, h⟩
  · refine Proc.wp_bind (Proc.wp_call fun o' hrely r o'' hs => ?_)
    obtain ⟨hguar, h⟩ := hJ (.appendLog _) rfl h hrely hs
    refine ⟨hguar, ?_⟩
    cases r with
    | wrote count =>
      simp only [Proc.wp_modify_bind, Proc.wp_pure_iff]
      exact ⟨⟨_, rfl⟩, h⟩
    | failed e kept =>
      simp only [Proc.wp_modify_bind, Proc.wp_throw_iff]
      exact h

/-- A recorded chunk leaves the state alone, and spends the budget. -/
theorem wp_record_budget (hJ : L.Keeps BodyCmd.records J) {maxBytes : Nat} (pieces : List LogChunk)
    (hmax : maxBytes ≤ u64Max) (h : Budget maxBytes l.logs pieces) (chunk : LogChunk) (ho : J o) :
    Proc.wp L (record chunk)
      (fun _ l' o' => l' = { l with logs := l'.logs } ∧
        Budget maxBytes l'.logs (retain maxBytes pieces chunk) ∧ J o') (fun _ _ o' => J o') l o := by
  have hcaptured : (l.logs.updateDigest chunk).captured chunk = l.logs.captured chunk := by
    rw [LogWriter.captured, LogWriter.available, LogWriter.updateDigest_summary]
    rfl
  have hle : l.logs.captured chunk ≤ chunk.bytes.length := Nat.min_le_left _ _
  simp only [record, Proc.wp_modify_bind, Proc.wp_get_bind, hcaptured]
  split
  · refine Proc.wp_bind (Proc.wp_bind (Proc.wp_call fun o' hrely timestampMs o'' hs => ?_))
    have ⟨hguar, ho⟩ := hJ .now rfl ho hrely hs
    refine ⟨hguar, ?_⟩
    simp only [Proc.wp_get_bind, Proc.wp_modify_bind]
    refine Proc.wp_seq _ (wp_writeBuffer_locals hJ ho) ?_
    rintro _ _ o ⟨rfl, ho⟩
    simp only [Proc.wp_modify_iff]
    refine ⟨trivial, h.retain hmax chunk ?_ ?_, ho⟩
    · simp [LogWriter.drop, LogWriter.advance]
    · simp [LogWriter.drop, LogWriter.advance, LogWriter.nextRecord, hcaptured, Nat.min_eq_left hle]
  · rename_i hzero
    have hzero := Nat.eq_zero_of_not_pos hzero
    have hlength := h.length_le
    simp only [Proc.wp_modify_iff]
    refine ⟨trivial, h.retain hmax chunk ?_ ?_, ho⟩
    · simp [LogWriter.drop]
    · rw [hzero, saturatingAdd_of_le (by rw [h.captured]; omega)]
      simp [LogWriter.drop]

end Record

/-! ## record_chunk -/

/-- Every command may return anything. -/
abbrev anyAnswer : Interface BodyCmd Unit := .isolated (fun _ _ _ _ => True) fun _ _ _ _ => True

section RecordChunk

variable {l : Locals}

theorem wp_any {α : Type} {c : BodyCmd α} {Q : α → Locals → Unit → Prop}
    {E : AppError → Locals → Unit → Prop} (h : ∀ a, Q a l ()) :
    Proc.wp anyAnswer (Proc.call c) Q E l () :=
  Proc.wp_call fun _ _ a _ _ => ⟨trivial, h a⟩

theorem keeps_any : anyAnswer.Keeps BodyCmd.records fun _ => True :=
  fun _ _ _ _ _ _ _ _ _ => ⟨trivial, trivial⟩

/-- The literals are matched against what the writer keeps of the chunks. -/
structure Watching (maxBytes : Nat) (chunks : List LogChunk) (l : Locals) : Prop where
  budget : Budget maxBytes l.logs (retained maxBytes chunks)
  matched : Matched (fun stream => streamBytes stream (retained maxBytes chunks)) l.readiness
    l.state.readiness

theorem wp_recordChunk_any {maxBytes : Nat} {chunks : List LogChunk} (hmax : maxBytes ≤ u64Max)
    (h : Watching maxBytes chunks l) (chunk : LogChunk) :
    Proc.wp anyAnswer (recordChunk chunk) (fun _ l' _ => Watching maxBytes (chunks ++ [chunk]) l')
      (fun _ _ _ => True) l () := by
  refine Proc.wp_bind (wp_any fun clock => ?_)
  simp only [Proc.wp_get_bind, Proc.wp_modify_bind]
  refine Proc.wp_seq _ (Proc.wp_mono
    (wp_record_budget keeps_any (retained maxBytes chunks) hmax ?_ chunk trivial)
    (fun _ _ _ => id) fun _ _ _ _ => trivial) ?_
  · exact h.budget
  rintro _ l' _ ⟨hframe, hbudget, -⟩
  refine Proc.wp_pure ⟨?_, ?_⟩
  · rwa [retained_concat]
  · rw [hframe, retained_concat, streamBytes_retain, ← h.budget.capturableBytes_eq]
    exact h.matched.observe chunk.stream _ clock

theorem wp_pollReadiness_any {maxBytes : Nat} {chunks : List LogChunk}
    (h : Watching maxBytes chunks l) :
    Proc.wp anyAnswer pollReadiness (fun _ l' _ => Watching maxBytes chunks l')
      (fun _ _ _ => True) l () := by
  refine Proc.wp_bind (wp_any fun inputs => ?_)
  simp only [Proc.wp_get_bind, Proc.wp_modify_bind, Proc.wp_pure_iff]
  exact ⟨h.budget, h.matched.poll inputs⟩

end RecordChunk

/-! ## A sequence of chunks and polls -/

inductive Feed where
  | chunk (chunk : LogChunk)
  | poll

def Feed.chunk? : Feed → Option LogChunk
  | .chunk received => some received
  | .poll => none

/-- `record_chunk` on chunks, with polls between them. -/
def feedAll : List Feed → Supervised Unit
  | [] => pure ()
  | .chunk chunk :: feeds => do
    let _ ← recordChunk chunk
    feedAll feeds
  | .poll :: feeds => do
    let _ ← pollReadiness
    feedAll feeds

theorem wp_feedAll {maxBytes : Nat} {chunks : List LogChunk} {l : Locals} (hmax : maxBytes ≤ u64Max)
    (feeds : List Feed) (h : Watching maxBytes chunks l) :
    Proc.wp anyAnswer (feedAll feeds)
      (fun _ l' _ => Watching maxBytes (chunks ++ feeds.filterMap Feed.chunk?) l')
      (fun _ _ _ => True) l () := by
  induction feeds generalizing chunks l with
  | nil =>
    refine Proc.wp_pure ?_
    rwa [List.filterMap_nil, List.append_nil]
  | cons feed feeds ih =>
    cases feed with
    | chunk chunk =>
      refine Proc.wp_seq _ (wp_recordChunk_any hmax h chunk) fun _ l _ h => ?_
      have hfeeds := ih h
      rwa [List.append_assoc] at hfeeds
    | poll => exact Proc.wp_seq _ (wp_pollReadiness_any h) fun _ l _ h => ih h

theorem Matched.new {conditions : List ReadinessCondition} (timeoutMs createdAtMs : Nat)
    (hfit : ∀ literal, .log literal ∈ conditions →
      literalBytes literal ≠ [] ∧ (literalBytes literal).length ≤ MAX_LOG_LITERAL_BYTES) :
    Matched (fun stream => streamBytes stream []) .new
      (.new conditions timeoutMs createdAtMs) := by
  have hnew {check : ReadinessCheck}
      (hcheck : check ∈ (ReadinessState.new conditions timeoutMs createdAtMs).checks) :
      check.condition ∈ conditions ∧ check.readyAtMs = none := by
    obtain ⟨i, hi, rfl⟩ := List.mem_mapIdx.mp hcheck
    exact ⟨List.getElem_mem hi, rfl⟩
  have hlog : LiteralsFit (ReadinessState.new conditions timeoutMs createdAtMs).checks :=
    fun check hcheck literal hcondition => hfit literal (hcondition ▸ (hnew hcheck).1)
  refine ⟨ReadinessState.new_sound conditions timeoutMs createdAtMs, hlog, ⟨fun _ stream => ?_, ?_⟩,
    fun _ => ⟨fun _ _ _ _ _ stream => .inl ?_, ?_⟩⟩
  · cases stream <;> exact List.suffix_rfl
  · intro check hcheck literal _ hready
    rw [(hnew hcheck).2] at hready
    cases hready
  · cases stream <;> rfl
  · rintro check hcheck literal hcondition - ⟨stream, hoccurs⟩
    exact (hlog check hcheck literal hcondition).1 (List.infix_nil.mp hoccurs)

/-- After any sequence of chunks and polls, unless the readiness has timed out
    or failed, a log check is ready exactly if its literal occurs in what the
    writer kept of one stream. -/
theorem log_readiness_exact {conditions : List ReadinessCondition} {timeoutMs createdAtMs : Nat}
    {maxLogBytes : Nat} {l : Locals}
    (hfit : ∀ literal, .log literal ∈ conditions →
      literalBytes literal ≠ [] ∧ (literalBytes literal).length ≤ MAX_LOG_LITERAL_BYTES)
    (hmax : maxLogBytes ≤ u64Max) (hlogs : l.logs = .create maxLogBytes) (htracker : l.readiness = .new)
    (hreadiness : l.state.readiness = .new conditions timeoutMs createdAtMs) (feeds : List Feed) :
    Proc.wp anyAnswer (feedAll feeds)
      (fun _ l' _ => l'.state.readiness.status ≠ .timedOut → l'.state.readiness.status ≠ .failed →
        ∀ check ∈ l'.state.readiness.checks, ∀ literal, check.condition = .log literal →
          (check.readyAtMs.isSome ↔ ∃ stream, literalBytes literal <:+:
            streamBytes stream (retained maxLogBytes (feeds.filterMap Feed.chunk?))))
      (fun _ _ _ => True) l () := by
  have hwatching : Watching maxLogBytes [] l := by
    refine ⟨?_, ?_⟩
    · rw [hlogs]
      exact ⟨rfl, rfl, Nat.zero_le _⟩
    · rw [htracker, hreadiness]
      exact .new timeoutMs createdAtMs hfit
  refine Proc.wp_mono (wp_feedAll hmax feeds hwatching) (fun _ l' _ h => ?_) fun _ _ _ => id
  rw [List.nil_append] at h
  intro htimedOut hfailed check hcheck literal hcondition
  exact h.matched.exact_iff htimedOut hfailed hcheck hcondition

end Procherd

namespace Procherd.Reference

open Interaction

/-- A supervisor that waits for `hi` in the output, with a budget of 4 bytes. -/
def watchful : Locals :=
  { spec := options.spec { portNames := [], tempDirectoryNames := [] } 0
    state := { options.initialState { portNames := [], tempDirectoryNames := [] } 0 with
      readiness := .new [.tcp "127.0.0.1:80", .log "hi"] 1000 0 }
    leases := { runId := options.runId, ports := [] }
    logs := .create 4 }

def splitFeeds : List Feed :=
  [.chunk { stream := .stdout, bytes := [111, 104] }, .poll,
    .chunk { stream := .stderr, bytes := [105] }, .chunk { stream := .stdout, bytes := [105, 10] }]

/-- The literal is found across two chunks of one stream, at the end of the
    budget. -/
theorem log_readiness_exact_split :
    Proc.wp anyAnswer (feedAll splitFeeds)
      (fun _ l' _ => l'.state.readiness.status ≠ .timedOut → l'.state.readiness.status ≠ .failed →
        ∀ check ∈ l'.state.readiness.checks, check.condition = .log "hi" → check.readyAtMs.isSome)
      (fun _ _ _ => True) watchful () := by
  have hfit : ∀ literal, .log literal ∈ [.tcp "127.0.0.1:80", ReadinessCondition.log "hi"] →
      literalBytes literal ≠ [] ∧ (literalBytes literal).length ≤ MAX_LOG_LITERAL_BYTES := by
    intro literal hmem
    obtain rfl : literal = "hi" := by simpa using hmem
    decide
  have hoccurs : ∃ stream, literalBytes "hi" <:+:
      streamBytes stream (retained 4 (splitFeeds.filterMap Feed.chunk?)) := ⟨.stdout, by decide⟩
  refine Proc.wp_mono (log_readiness_exact hfit (by decide) rfl rfl rfl splitFeeds)
    (fun _ l' _ h htimedOut hfailed check hcheck hcondition => ?_) fun _ _ _ => id
  exact (h htimedOut hfailed check hcheck "hi" hcondition).mpr hoccurs

end Procherd.Reference
