-- SUMMARY: Termination: every command comes to its end as time passes, and every supervisor once its child is gone.
import Procherd.Interaction.Fairness
import Procherd.Observation

/-!
# Termination

The loops of `start`, `wait` and `stop` look at a clock, and give up at their
deadline. The loop of the supervisor has none: it goes on until the child has
exited, and then drains the output, for a bounded time. So a command needs
nothing but that time passes, and a supervisor that its child exits too.
-/

namespace Procherd

open Interaction Machine

variable [Toolchain]

/-! ## Time and the child -/

instance : Nonempty system.Answer := ⟨({} : Answer)⟩

/-- The monotonic clock is read at this time or later. -/
def instantsAfter (time : Nat) : system.Condition
  | .start, _, .inr .instant, a, _ => time ≤ a.time
  | .supervisor, _, .inr .instant, a, _ => time ≤ a.time
  | .client _, _, .instant, a, _ => time ≤ a.time
  | _, _, _, _, _ => True

/-- `try_wait` is not interrupted, and does not find the child running. -/
def childGone : system.Condition
  | .supervisor, _, .inr .tryWait, a, _ =>
    (∀ e, a.io = some e → e.kind ≠ .interrupted) ∧ (a.io = none → a.exit.isSome)
  | _, _, _, _, _ => True

variable {setup : Setup} {b : Behavior (always system) setup.initial}

/-- The monotonic clock does not stop. -/
def TimePasses (b : Behavior (always system) setup.initial) : Prop :=
  ∀ time, b.Eventually (instantsAfter time)

/-! ## Commands -/

section Client

/-- A thread that executes commands of clients, treated fairly in a behaviour in
    which time passes. -/
structure Clocked (b : Behavior (always system) setup.initial) (i : Thread)
    (g : ∀ {β : Type}, ClientCmd β → i.Cmd β) : Prop where
  follows : b.Follows i fun _ => True
  exec : ∀ {β : Type} (c : ClientCmd β) a w, exec i (g c) a w = execClient i c a w
  instant : ∀ time, ∃ k₀, ∀ j ≥ k₀, ∀ a, b.Executes i (g .instant) a j → time ≤ a.time

variable {i : Thread} {g : ∀ {β : Type}, ClientCmd β → i.Cmd β} {σ : Type}

/-- The commands that wait for nothing. -/
def ClientCmd.immediate {β : Type} : ClientCmd β → Bool
  | .awaitLogs => false
  | _ => true

theorem execClient_immediate {t : Thread} {β : Type} {c : ClientCmd β} (hc : c.immediate)
    (w : World) : ∃ r, execClient t c {} w = some r := by
  cases c with
  | awaitLogs => cases hc
  | tryLock =>
    simp only [execClient, fallible]
    repeat' split
    all_goals exact ⟨_, rfl⟩
  | writeStopRequest request =>
    simp only [execClient, fallible, committed]
    split
    · exact ⟨_, rfl⟩
    · exact ⟨_, rfl⟩
  | _ => exact ⟨_, rfl⟩

namespace Clocked

variable (K : Clocked b i g)

include K

theorem free {β : Type} {c : ClientCmd β} (hc : c.immediate) :
    Behavior.Free (M := system) (i := i) (fun _ => True) (g c) := by
  refine ⟨fun w _ => ?_, fun _ _ _ _ _ _ => trivial⟩
  obtain ⟨r, hr⟩ := execClient_immediate (t := i) hc w
  exact ⟨{}, r, (K.exec c {} w).trans hr⟩

theorem finishes_call {β ε : Type} {c : ClientCmd β} (hc : c.immediate) :
    b.Finishes i g (fun _ => True) (Proc.call c : Proc ClientCmd ε σ β) :=
  .call K.follows (K.free hc)

theorem finishes_attempt {α ε : Type} {c : ClientCmd (Except ε α)} (hc : c.immediate) :
    b.Finishes i g (fun _ => True) (Proc.attempt c : Proc ClientCmd ε σ α) :=
  .attempt K.follows (K.free hc)

theorem finishes_observe : b.Finishes i g (fun _ => True) observeStateAndActivity := by
  have hread : b.Finishes i g (fun _ => True) (Proc.attempt .readState : Client RunState) :=
    K.finishes_attempt rfl
  have hactive : b.Finishes i g (fun _ => True) supervisorActive := by
    refine .bind (K.finishes_attempt rfl) fun free => ?_
    split
    · exact .bind (K.finishes_attempt rfl) fun _ => .pure
    · exact .pure
  refine .bind hread fun state => .bind .ofExcept fun _ => .bind hactive fun active => ?_
  split
  · exact .bind hread fun _ => .bind .ofExcept fun _ => .pure
  · exact .pure

theorem finishes_loadView : b.Finishes i g (fun _ => True) loadView :=
  .bind K.finishes_observe fun _ => .pure

/-- From some time on, a round that looks at the clock finds its deadline over. -/
theorem leaves_at_deadline (deadline : Nat) : ∃ k₀, ∀ k ≥ k₀, ∀ {α : Type}
    {f : Nat → Proc ClientCmd AppError σ (Option α)},
    (∀ now ≥ deadline, ∀ j, b.Leaves i g (fun _ => True) (f now) j) →
      b.Leaves i g (fun _ => True) (Proc.call .instant >>= f) k := by
  obtain ⟨k₀, hlate⟩ := K.instant deadline
  refine ⟨k₀, fun k hk α f hf => .call K.follows (K.free rfl) fun j hj a now he hexec => ?_⟩
  have hnow : now = a.time := by
    have h := (K.exec .instant a (b.cfg j).world).symm.trans hexec
    exact ((Prod.mk.inj (Option.some.inj h)).1).symm
  exact hf now (hnow ▸ hlate j (Nat.le_trans hk hj) a he) _

theorem finishes_wait (runId : String) (condition : WaitCondition) (timeoutMs : Nat) :
    b.Finishes i g (fun _ => True) (wait runId condition timeoutMs) := by
  refine .bind .throwIf fun _ => .bind (K.finishes_call rfl) fun now => ?_
  refine .repeatUntil K.follows (.bind K.finishes_loadView fun view => .bind .throwIf fun _ =>
    .bind .ofExcept fun satisfied => ?_) ?_
  · split
    · exact .pure
    · refine .bind (K.finishes_call rfl) fun now => ?_
      split
      · exact .throw
      · exact .pure
  obtain ⟨k₀, hlate⟩ := K.leaves_at_deadline (σ := Unit) (now + timeoutMs)
  refine ⟨k₀, fun k hk => .bind K.finishes_loadView fun k₁ h₁ view => .bind .throwIf fun k₂ h₂ _ =>
    .bind .ofExcept fun k₃ h₃ satisfied => ?_⟩
  split
  · exact .found
  · refine hlate k₃ (by omega) fun now hnow j => ?_
    rw [if_pos hnow]
    exact .throw

theorem finishes_settle (runId : String) (deadline : Nat) (view : RunView) :
    b.Finishes i g (fun _ => True) (settle runId deadline view) := by
  refine .bind (.withStore (.repeatUntil K.follows (.bind .get fun view => ?_) ?_)) fun _ =>
    .ofExcept
  · split
    · exact .pure
    refine .bind (K.finishes_call rfl) fun now => ?_
    split
    · exact .throw
    · exact .bind (.withStore K.finishes_loadView) fun _ =>
        .bind .ofExcept fun _ => .bind .modify fun _ => .pure
  obtain ⟨k₀, hlate⟩ := K.leaves_at_deadline (σ := RunView) deadline
  refine ⟨k₀, fun k hk => .bind .get fun k₁ h₁ view => ?_⟩
  split
  · exact .found
  · refine hlate k₁ (Nat.le_trans hk h₁) fun now hnow j => ?_
    rw [if_pos hnow]
    exact .throw

theorem finishes_stop (runId : String) (graceMs : Nat) :
    b.Finishes i g (fun _ => True) (stop runId graceMs) := by
  refine .bind .throwIf fun _ => .bind K.finishes_loadView fun view => ?_
  split
  · exact .bind (K.finishes_call rfl) fun now =>
      .bind (K.finishes_settle runId (now + 5000) view) fun _ => .pure
  split
  · exact .throw
  refine .bind (K.finishes_attempt rfl) fun ownerToken => .bind (K.finishes_call rfl) fun _ =>
    .bind (K.finishes_attempt rfl) fun _ => .bind (K.finishes_call rfl) fun now => ?_
  refine .repeatUntil K.follows (.bind K.finishes_loadView fun view => ?_) ?_
  · split
    · exact .pure
    split
    · exact .throw
    refine .bind (K.finishes_call rfl) fun now => ?_
    split
    · exact .throw
    · exact .pure
  obtain ⟨k₀, hlate⟩ := K.leaves_at_deadline (σ := Unit) (now + graceMs + 5000)
  refine ⟨k₀, fun k hk => .bind K.finishes_loadView fun k₁ h₁ view => ?_⟩
  split
  · exact .found
  split
  · exact .throw
  · refine hlate k₁ (Nat.le_trans hk h₁) fun now hnow j => ?_
    rw [if_pos hnow]
    exact .throw

theorem finishes_abandonStart (options : StartOptions) :
    b.Finishes i g (fun _ => True) (abandonStart options) :=
  .bind (K.finishes_call rfl) fun _ => .bind (K.finishes_call rfl) fun _ => .throw

theorem finishes_concludeStart (runId : String) (deadline : Nat) (state : RunState) (active : Bool) :
    b.Finishes i g (fun _ => True) (concludeStart runId deadline state active) := by
  unfold concludeStart
  split
  · refine .bind (K.finishes_call rfl) fun now => ?_
    split
    · exact .throw
    · exact .pure
  split
  · exact .throw
  split
  · exact .throw
  · exact .pure

/-- The loop of `start` waits for a terminal run, and for one that is starting. -/
theorem finishes_awaitStart (options : StartOptions) :
    b.Finishes i g (fun _ => True) (awaitStart options) := by
  refine .bind (K.finishes_call rfl) fun now =>
    .bind (.withStore (.repeatUntil K.follows ?_ ?_)) fun _ => .ofExcept
  · refine .bind (.withStore K.finishes_observe) fun _ => .bind .ofExcept fun observed =>
      .bind .modify fun _ => ?_
    split
    · exact K.finishes_concludeStart _ _ _ _
    refine .bind .get fun activeSeen => ?_
    split
    · exact .throw
    refine .bind (K.finishes_call rfl) fun now => ?_
    split
    · exact K.finishes_abandonStart options
    · exact .pure
  obtain ⟨k₀, hlate⟩ := K.leaves_at_deadline (σ := Bool) (now + options.startupTimeoutMs)
  refine ⟨k₀, fun k hk => .bind (.withStore K.finishes_observe) fun k₁ h₁ _ =>
    .bind .ofExcept fun k₂ h₂ observed => .bind .modify fun k₃ h₃ _ => ?_⟩
  split
  · unfold concludeStart
    split
    · refine hlate k₃ (by omega) fun now hnow j => ?_
      rw [if_pos hnow]
      exact .throw
    split
    · exact .throw
    split
    · exact .throw
    · exact .found
  refine .bind .get fun k₄ h₄ activeSeen => ?_
  split
  · exact .throw
  · refine hlate k₄ (by omega) fun now hnow j => ?_
    rw [if_pos hnow]
    exact .bind (K.finishes_call rfl) fun _ _ _ => .bind (K.finishes_call rfl) fun _ _ _ => .throw

end Clocked

end Client

/-! ## start -/

section Start

theorem steady_true {i : Thread} : b.Steady i fun _ => True := fun _ _ _ => trivial

/-- Only `start` launches a run. -/
theorem steady_unlaunched : b.Steady .start fun w => w.phase = .unlaunched := by
  refine Behavior.steady_of_exec fun j hj β c a w r w' _ h hw => ?_
  cases j with
  | start => exact absurd rfl hj
  | supervisor =>
    cases c with
    | inl c =>
      obtain rfl | ⟨hphase, -⟩ | ⟨hphase, -⟩ := execLock_phase h
      · exact hw
      · cases hw.symm.trans hphase
      · cases hw.symm.trans hphase
    | inr c => exact (execBody_phase (show execBody c a w = some (r, w') from h)).trans hw
  | reader stream => exact (execReader_phase (show execReader stream c a w = _ from h)).trans hw
  | client n => exact (execClient_phase (show execClient _ c a w = _ from h)).trans hw

/-- The commands of the creation before the launch. -/
def CreateCmd.beforeLaunch {β : Type} : CreateCmd β → Bool
  | .launch => false
  | _ => true

omit [Toolchain] in
theorem execCreate_ready {β : Type} {c : CreateCmd β} (hc : c.beforeLaunch) (w : World) :
    ∃ r, execCreate c {} w = some r := by
  cases c with
  | launch => cases hc
  | _ => exact ⟨_, rfl⟩

theorem free_create {β : Type} {c : CreateCmd β} (hc : c.beforeLaunch) :
    Behavior.Free (M := system) (i := .start) (fun w => w.phase = .unlaunched) (.inl c) := by
  refine ⟨fun w _ => ⟨{}, execCreate_ready hc w⟩, fun a w r w' h hw => ?_⟩
  have h : execCreate c a w = some (r, w') := h
  cases c with
  | launch => cases hc
  | _ =>
    simp only [execCreate, fallible, committed] at h
    repeat' split at h
    all_goals (cases h; exact hw)

theorem finishes_createRun (F : b.Follows .start fun w => w.phase = .unlaunched) (state : RunState)
    (spec : SupervisorSpec) (ownerToken : String) :
    b.Finishes .start (fun c => c) (fun w => w.phase = .unlaunched)
      (createRun state spec ownerToken) :=
  .bind .ofExcept fun _ => .bind (.attempt F (free_create rfl)) fun _ =>
    .bind (.attempt F (free_create rfl)) fun _ => .bind (.attempt F (free_create rfl)) fun _ =>
    .bind (.attempt F (free_create rfl)) fun _ => .bind (.attempt F (free_create rfl)) fun _ =>
    .attempt F (free_create rfl)

theorem clocked_start (hfair : b.Fair .start) (htime : TimePasses b) : Clocked b .start .inr where
  follows := ⟨hfair, steady_true⟩
  exec _ _ _ := rfl
  instant time := by
    obtain ⟨k₀, h⟩ := Behavior.Executes.meets (i := Thread.start) (htime time)
    exact ⟨k₀, fun j hj a he => h j hj (.inr .instant) a he⟩

theorem finishes_failLaunch (F : b.Follows .start fun _ => True) (runId : String)
    (state : RunState) (error : AppError) :
    b.Finishes .start (fun c => c) (fun _ => True) (failLaunch runId state error) := by
  have hfree {β : Type} {c : CreateCmd β} (hc : c.beforeLaunch) :
      Behavior.Free (M := system) (i := .start) (fun _ => True) (.inl c) :=
    ⟨fun w _ => ⟨{}, execCreate_ready hc w⟩, fun _ _ _ _ _ _ => trivial⟩
  exact .bind (.call F (hfree rfl)) fun _ => .bind (.call F (hfree rfl)) fun _ =>
    .bind (.call F (hfree rfl)) fun _ => .throw

theorem ends_start (hfair : b.Fair .start) (htime : TimePasses b) (options : StartOptions) (k : Nat)
    (h : (b.cfg k).world.phase = .unlaunched) :
    b.Ends .start (fun c => c) (start options ()) k fun _ _ => True := by
  have K := clocked_start hfair htime
  have F : b.Follows .start fun w => w.phase = .unlaunched := ⟨hfair, steady_unlaunched⟩
  have hcheck : b.Finishes .start (fun c => c) (fun w => w.phase = .unlaunched)
      (Proc.ofExcept options.check : Starter LeaseRequests) := .ofExcept
  refine .seq (hcheck k () h) (fun k _ requests _ h => ?_) fun _ _ _ _ => trivial
  refine .seq (Behavior.Finishes.call F (free_create rfl) k () h) (fun k _ createdAtMs _ h => ?_)
    fun _ _ _ _ => trivial
  refine .seq (finishes_createRun F _ _ _ k () h) (fun k _ _ _ h => ?_) fun _ _ _ _ => trivial
  refine .seq (Q := fun _ _ => True) (.exec F h (fun w hw => ⟨{}, ?_⟩)
    fun _ _ _ _ _ _ _ => .ret trivial) (fun k _ launched _ _ => ?_) fun _ _ _ _ => trivial
  · show ∃ r, execCreate .launch {} w = some r
    simp only [execCreate, hw, ne_eq, not_true_eq_false, if_false]
    exact ⟨_, rfl⟩
  cases launched with
  | error e => exact finishes_failLaunch K.follows _ _ e k () trivial
  | ok u =>
    exact Behavior.Ends.hoist (g := fun c => c) (K.finishes_awaitStart options k () trivial)

end Start

/-- What a client of the command line runs. -/
inductive Command where
  | status
  | wait (runId : String) (condition : WaitCondition) (timeoutMs : Nat)
  | stop (runId : String) (graceMs : Nat)

def Command.program : Command → ClientProgram
  | .status => Client.program observeStateAndActivity .observed
  | .wait runId condition timeoutMs => Client.program (Procherd.wait runId condition timeoutMs) .waited
  | .stop runId graceMs => Client.program (Procherd.stop runId graceMs) .stopped

theorem clocked_client {n : Nat} (hfair : b.Fair (.client n)) (htime : TimePasses b) :
    Clocked b (.client n) fun c => c where
  follows := ⟨hfair, steady_true⟩
  exec _ _ _ := rfl
  instant time := by
    obtain ⟨k₀, h⟩ := Behavior.Executes.meets (i := Thread.client n) (htime time)
    exact ⟨k₀, fun j hj a he => h j hj .instant a he⟩

theorem Command.returns {n : Nat} (hfair : b.Fair (.client n)) (htime : TimePasses b)
    (command : Command) (hclient : setup.clients n = command.program) :
    ∃ k r, (b.cfg k).thread (.client n) = .ret r := by
  have K := clocked_client hfair htime
  have hthread : (b.cfg 0).thread (.client n) = command.program := by
    rw [b.start]
    exact hclient
  cases command with
  | status =>
    obtain ⟨k, -, r, hr, -⟩ := (K.finishes_observe 0 () trivial).returns hthread
    exact ⟨k, _, hr⟩
  | wait runId condition timeoutMs =>
    obtain ⟨k, -, r, hr, -⟩ :=
      (K.finishes_wait runId condition timeoutMs 0 () trivial).returns hthread
    exact ⟨k, _, hr⟩
  | stop runId graceMs =>
    obtain ⟨k, -, r, hr, -⟩ := (K.finishes_stop runId graceMs 0 () trivial).returns hthread
    exact ⟨k, _, hr⟩

/-- Whatever the other threads do or leave undone, and whatever fails: a command
    returns, if it is not kept from moving and time passes. -/
theorem commands_return (setup : Setup) (b : Behavior (always system) setup.initial)
    (htime : TimePasses b) :
    (b.Fair .start → ∃ k r, (b.cfg k).thread .start = .ret r) ∧
    ∀ n, (∃ command : Command, setup.clients n = command.program) → b.Fair (.client n) →
      ∃ k r, (b.cfg k).thread (.client n) = .ret r := by
  refine ⟨fun hfair => ?_, fun n hclient hfair => ?_⟩
  · have hphase : (b.cfg 0).world.phase = .unlaunched := by
      rw [b.start]
      rfl
    have hthread : (b.cfg 0).thread .start = (start setup.options ()).bind fun r => .ret r.1 := by
      rw [b.start]
      rfl
    obtain ⟨k, -, r, hr, -⟩ := (ends_start hfair htime setup.options 0 hphase).returns hthread
    exact ⟨k, _, hr⟩
  · obtain ⟨command, hcommand⟩ := hclient
    exact command.returns hfair htime hcommand

/-! ## The supervisor -/

section Supervisor

/-- The supervisor holds its lock, and the receiver of the channel if `open`. -/
def Working (receives : Bool) (w : World) : Prop :=
  w.phase = .active ∧ (receives → w.receiver)

theorem steady_working {receives : Bool} : b.Steady .supervisor (Working receives) := by
  refine Behavior.steady_of_exec fun j hj β c a w r w' _ h hw => ?_
  obtain ⟨hphase, hreceiver⟩ := hw
  have hkept (hp : w'.phase = w.phase) (hr : w'.receiver = w.receiver) : Working receives w' :=
    ⟨hp.trans hphase, fun h => hr.trans (hreceiver h)⟩
  cases j with
  | supervisor => exact absurd rfl hj
  | start =>
    cases c with
    | inl c =>
      have h : execCreate c a w = some (r, w') := h
      refine hkept ?_ (by rw [execCreate_frame h])
      obtain hp | ⟨hp, -⟩ := execCreate_phase h
      · exact hp
      · cases hphase.symm.trans hp
    | inr c =>
      have h : execClient .start c a w = some (r, w') := h
      exact hkept (by rw [execClient_frame h]) (by rw [execClient_frame h])
  | reader stream =>
    have h : execReader stream c a w = some (r, w') := h
    exact hkept (by rw [execReader_frame h]) (by rw [execReader_frame h])
  | client n =>
    have h : execClient (.client n) c a w = some (r, w') := h
    exact hkept (by rw [execClient_frame h]) (by rw [execClient_frame h])

/-- The commands that need the receiver. -/
def BodyCmd.needsReceiver {β : Type} : BodyCmd β → Bool
  | .tryRecv | .recvTimeout _ => true
  | _ => false

/-- The commands that make the receiver or drop it. -/
def BodyCmd.scopesReceiver {β : Type} : BodyCmd β → Bool
  | .openChannel | .dropReceiver => true
  | _ => false

theorem execBody_ready {β : Type} (c : BodyCmd β) {w : World} (hw : c.needsReceiver → w.receiver) :
    ∃ r, execBody c {} w = some r := by
  cases c with
  | tryRecv =>
    simp only [execBody, hw rfl, if_true]
    exact ⟨_, rfl⟩
  | recvTimeout timeout =>
    simp only [execBody, hw rfl, if_true]
    exact ⟨_, rfl⟩
  | reservePorts runId names | releaseRegistry runId =>
    simp only [execBody, fallible, committed]
    split <;> exact ⟨_, rfl⟩
  | inspectStop | openStop | removeStop =>
    simp only [execBody, fallible]
    split <;> exact ⟨_, rfl⟩
  | _ => exact ⟨_, rfl⟩

theorem execBody_receiver {β : Type} {c : BodyCmd β} (hc : c.scopesReceiver = false) {a : Answer}
    {w w' : World} {r : β} (h : execBody c a w = some (r, w')) : w'.receiver = w.receiver := by
  cases c with
  | openChannel | dropReceiver => cases hc
  | _ =>
    simp only [execBody, fallible, committed, fallibleIo, receive] at h
    repeat' split at h
    all_goals cases h <;> rfl

theorem free_body {receives : Bool} {β : Type} {c : BodyCmd β}
    (hc : !c.scopesReceiver && (!c.needsReceiver || receives)) :
    Behavior.Free (M := system) (i := .supervisor) (Working receives) (.inr c) := by
  obtain ⟨hscope, hreceives⟩ := Bool.and_eq_true_iff.mp hc
  refine ⟨fun w hw => ⟨{}, execBody_ready c fun h => hw.2 ?_⟩, fun a w r w' h hw => ?_⟩
  · simpa [h] using hreceives
  · have h : execBody c a w = some (r, w') := h
    have hreceiver := execBody_receiver (by simpa using hscope) h
    exact ⟨(execBody_phase h).trans hw.1, fun h => hreceiver.trans (hw.2 h)⟩

/-- One round of `try_wait_retry`. -/
def tryWaitRound : Supervised (Option (Option ExitStatus)) := do
  match ← Proc.call .tryWait with
  | .ok status => return some status
  | .error e => if e.kind = .interrupted then return none else Proc.throw (.ofIo e)

/-- The supervisor is treated fairly in a behaviour in which time passes and the
    child is gone some time. -/
structure Attended (b : Behavior (always system) setup.initial) : Prop where
  fair : b.Fair .supervisor
  instant : ∀ time, ∃ k₀, ∀ j ≥ k₀, ∀ a,
    b.Executes .supervisor (.inr BodyCmd.instant) a j → time ≤ a.time
  child : ∃ k₀, ∀ j ≥ k₀, ∀ a, b.Executes .supervisor (.inr BodyCmd.tryWait) a j →
    (∀ e, a.io = some e → e.kind ≠ .interrupted) ∧ (a.io = none → a.exit.isSome)

/-- The supervisor gets to the end of the procedure. -/
abbrev Concludes (b : Behavior (always system) setup.initial) (receives : Bool) {σ α : Type}
    (m : Body σ α) : Prop :=
  b.Finishes .supervisor (fun c => .inr c) (Working receives) m

namespace Attended

variable (A : Attended b) {receives : Bool} {σ α : Type}

include A

theorem follows : b.Follows .supervisor (Working receives) := ⟨A.fair, steady_working⟩

theorem call {c : BodyCmd α} (hc : !c.scopesReceiver && (!c.needsReceiver || receives)) :
    Concludes b receives (Proc.call c : Body σ α) := .call A.follows (free_body hc)

theorem attempt {c : BodyCmd (Except AppError α)}
    (hc : !c.scopesReceiver && (!c.needsReceiver || receives)) :
    Concludes b receives (Proc.attempt c : Body σ α) := .attempt A.follows (free_body hc)

/-! ### Leases -/

theorem releaseRegistry (leases : LeaseAllocation) :
    Concludes b receives (releaseRegistry leases : Body σ LeaseAllocation) := by
  unfold Procherd.releaseRegistry
  split
  · exact .pure
  · exact .bind (A.attempt rfl) fun _ => .pure

theorem discardLeases (leases : LeaseAllocation) :
    Concludes b receives (discardLeases leases : Body σ Unit) := by
  refine .bind (.outcome (A.releaseRegistry leases)) fun released => ?_
  cases released with
  | ok _ => exact .pure
  | error _ => exact .bind (.outcome (A.releaseRegistry leases)) fun _ => .pure

theorem acquire (state : RunState) (requests : LeaseRequests) :
    Concludes b receives (LeaseAllocation.acquire state requests : Body σ _) := by
  refine .bind .ofExcept fun runId => .bind .ofExcept fun _ => .bind .ofExcept fun _ =>
    .bind (A.call rfl) fun acquiredAtMs => .bind ?_ fun tempPaths => .bind ?_ fun ports => ?_
  · unfold createTempDirectories
    split
    · exact .pure
    · exact A.attempt rfl
  · unfold reservePortNames
    split
    · exact .pure
    · exact A.attempt rfl
  · split
    · exact .bind (A.discardLeases _) fun _ => .throw
    · exact .pure

theorem releaseLeases : Concludes b receives releaseLeases :=
  .bind .get fun _ => .bind (A.releaseRegistry _) fun _ => .bind .modify fun _ =>
    .bind (A.call rfl) fun _ => .modify

theorem dropLeases : Concludes b receives dropLeases :=
  .bind .get fun _ => .bind (.outcome (A.releaseRegistry _)) fun _ => .pure

/-! ### State -/

theorem persistState : Concludes b receives persistState := .bind .get fun _ => A.attempt rfl

theorem touch : Concludes b receives touch := .bind (A.call rfl) fun _ => .modify

theorem markStateWrite : Concludes b receives markStateWrite := .bind (A.call rfl) fun _ => .modify

theorem persistReadiness (changed : Bool) : Concludes b receives (persistReadiness changed) := by
  unfold Procherd.persistReadiness
  split
  · exact .bind A.touch fun _ => .bind A.persistState fun _ => A.markStateWrite
  · exact .pure

theorem snapshotIfDue : Concludes b receives snapshotIfDue := by
  refine .bind (A.call rfl) fun now => .bind .get fun locals => ?_
  split
  · exact .bind .modify fun _ => .bind A.touch fun _ => .bind A.persistState fun _ =>
      A.markStateWrite
  · exact .pure

theorem pollReadiness : Concludes b receives pollReadiness :=
  .bind (A.call rfl) fun _ => .bind .get fun _ => .bind .modify fun _ => .pure

/-! ### The child -/

theorem startKillTolerant : Concludes b receives startKillTolerant := by
  refine .bind (A.call rfl) fun killed => ?_
  cases killed with
  | ok _ => exact .pure
  | error e =>
    simp only
    split
    · exact .pure
    · exact .throw

theorem dropChild : Concludes b receives dropChild := by
  refine .bind .get fun locals => ?_
  split
  · exact .bind (A.call rfl) fun _ => .pure
  · exact .pure

theorem killRemaining : Concludes b receives killRemaining := by
  refine .bind A.startKillTolerant fun killed => ?_
  split
  · exact .modify
  · exact .pure

theorem finishes_tryWaitRound : Concludes b receives tryWaitRound := by
  refine .bind (A.call rfl) fun waited => ?_
  cases waited with
  | ok status => exact .pure
  | error e =>
    simp only
    split
    · exact .pure
    · exact .throw

variable (receives) in
/-- Once the child is gone, `try_wait` finds its exit or fails for good. -/
theorem tryWait_gone : ∃ k₀, ∀ k ≥ k₀, ∀ s, Working receives (b.cfg k).world →
    b.Ends .supervisor (fun c => .inr c) (tryWaitRound s) k fun r w =>
      ((∃ status : ExitStatus, r.1 = .ok (some (some status))) ∨ ∃ e, r.1 = .error e) ∧
        Working receives w := by
  obtain ⟨k₀, hgone⟩ := A.child
  refine ⟨k₀, fun k hk s h => .exec A.follows h (free_body rfl).ready fun j hj a r he hJ hexec => ?_⟩
  have hJ' : Working receives (b.cfg (j + 1)).world :=
    (free_body rfl).keeps a _ r _ hexec hJ
  obtain ⟨hlasting, hexit⟩ := hgone j (Nat.le_trans hk hj) a he
  obtain ⟨e, hio, rfl, -⟩ | ⟨hio, hexec⟩ := fallibleIo_cases hexec
  · -- The error is no interruption, after which the round would be repeated.
    show b.Ends _ _ ((if e.kind = .interrupted then pure none else Proc.throw (.ofIo e) :
        Supervised (Option (Option ExitStatus))) s) _ _
    rw [if_neg (hlasting e hio)]
    exact .ret ⟨.inr ⟨_, rfl⟩, hJ'⟩
  · obtain ⟨rfl, -⟩ := Prod.mk.inj (Option.some.inj hexec)
    obtain ⟨status, hstatus⟩ := Option.isSome_iff_exists.mp (hexit hio)
    rw [hstatus]
    exact .ret ⟨.inl ⟨status, rfl⟩, hJ'⟩

theorem tryWaitRetry : Concludes b receives tryWaitRetry := by
  refine .repeatUntil A.follows A.finishes_tryWaitRound ?_
  obtain ⟨k₀, hgone⟩ := A.tryWait_gone receives
  refine ⟨k₀, fun k hk s h => (hgone k hk s h).mono ?_⟩
  rintro r w ⟨⟨status, hr⟩ | ⟨e, hr⟩, hJ⟩
  · exact ⟨fun hnone => (by cases hr.symm.trans hnone), hJ⟩
  · exact ⟨fun hnone => (by cases hr.symm.trans hnone), hJ⟩

variable (receives) in
theorem tryWaitRetry_gone : ∃ k₀, ∀ k ≥ k₀, ∀ s, Working receives (b.cfg k).world →
    b.Ends .supervisor (fun c => .inr c) (Procherd.tryWaitRetry s) k fun r w =>
      ((∃ status : ExitStatus, r.1 = .ok (some status)) ∨ ∃ e, r.1 = .error e) ∧
        Working receives w := by
  obtain ⟨k₀, hgone⟩ := A.tryWait_gone receives
  refine ⟨k₀, fun k hk s h => .onceAround A.follows h fun j hj hJ => ?_⟩
  refine (hgone j (by omega) s hJ).mono ?_
  rintro r w ⟨⟨status, hr⟩ | ⟨e, hr⟩, hJ⟩
  · exact .inl ⟨some status, hr, .inl ⟨status, rfl⟩, hJ⟩
  · exact .inr ⟨e, hr, .inr ⟨e, rfl⟩, hJ⟩

/-! ### Output -/

theorem writeBuffer : Concludes b receives writeBuffer := by
  refine .repeatUntil_of_variant (fun l => l.logs.buffer.length) A.follows fun k l h => ?_
  show b.Ends _ _ ((if l.logs.buffer = [] then pure (some ()) else
    Proc.call (.appendLog l.logs.buffer) >>= _ : Supervised (Option Unit)) l) _ _
  split
  · exact .ret ⟨h, fun hnone => by cases hnone⟩
  rename_i hbuffer
  refine .exec A.follows h (free_body rfl).ready fun j _ a r _ hJ hexec => ?_
  have hJ' : Working receives (b.cfg (j + 1)).world :=
    (free_body rfl).keeps a _ r _ hexec hJ
  cases r with
  | failed e kept => exact .ret ⟨hJ', fun hnone => by cases hnone⟩
  | wrote count =>
    refine .ret ⟨hJ', fun _ => ?_⟩
    have hcount : 0 < count := by
      have hexec : execBody (.appendLog l.logs.buffer) a _ = _ := hexec
      simp only [execBody] at hexec
      split at hexec
      · cases (Prod.mk.inj (Option.some.inj hexec)).1
      · have hwrote := (Prod.mk.inj (Option.some.inj hexec)).1
        cases hwrote
        omega
    have hlength : 0 < l.logs.buffer.length := List.length_pos_of_ne_nil hbuffer
    simp only [List.length_drop]
    omega

theorem record (chunk : LogChunk) : Concludes b receives (record chunk) := by
  refine .bind .modify fun _ => .bind .get fun locals => ?_
  simp only
  split
  · exact .bind (.bind (A.call rfl) fun _ => .bind .get fun _ => .bind .modify fun _ =>
      .bind A.writeBuffer fun _ => .modify) fun _ => .modify
  · exact .modify

theorem recordChunk (chunk : LogChunk) : Concludes b receives (recordChunk chunk) :=
  .bind (A.call rfl) fun _ => .bind .get fun _ => .bind .modify fun _ =>
    .bind (A.record chunk) fun _ => .pure

theorem drainBatch (n : Nat) (changed : Bool) : Concludes b true (drainBatch n changed) := by
  induction n generalizing changed with
  | zero => exact .pure
  | succ n ih =>
    refine .bind (A.call rfl) fun received => ?_
    cases received with
    | chunk chunk => exact .bind (A.recordChunk chunk) fun _ => ih _
    | empty => exact .pure
    | disconnected => exact .pure

theorem drainRound (deadline : Nat) : Concludes b true (drainRound deadline) := by
  refine .bind (A.call rfl) fun now => ?_
  simp only
  split
  · refine .bind (A.call rfl) fun received => ?_
    cases received with
    | disconnected => exact .pure
    | _ => exact .throw
  · refine .bind (A.call rfl) fun received => ?_
    cases received with
    | chunk chunk => exact .bind (A.recordChunk chunk) fun _ => .pure
    | _ => exact .pure

/-- The deadline of the drain comes. -/
theorem drainUntilClosed (limit : Nat) : Concludes b true (drainUntilClosed limit) := by
  refine .bind (A.call rfl) fun begun => .repeatUntil A.follows (A.drainRound _) ?_
  obtain ⟨k₀, hlate⟩ := A.instant (begun + limit)
  refine ⟨k₀, fun k hk => .call A.follows (free_body rfl) fun j hj a now he hexec => ?_⟩
  have hnow : now = a.time := ((Prod.mk.inj (Option.some.inj hexec)).1).symm
  have hover : begun + limit - now = 0 := by
    have := hlate j (Nat.le_trans hk hj) a he
    omega
  simp only [hover, if_true]
  refine .bind (A.call rfl) fun _ _ received => ?_
  cases received with
  | disconnected => exact .found
  | _ => exact .throw

theorem finishLogs : Concludes b receives finishLogs :=
  .bind .modify fun _ => .bind (A.attempt rfl) fun _ => .modify

theorem dropLogs : Concludes b receives dropLogs := by
  refine .bind .get fun locals => ?_
  split
  · exact .pure
  · exact A.call rfl

/-! ### Stop requests -/

theorem readStopRequest (path : PathBuf) (spec : SupervisorSpec) :
    Concludes b receives (readStopRequest path spec : Body σ (Option StopRequest)) := by
  have hread : Concludes b receives (readStopJson path : Body σ StopRequest) :=
    .bind (A.attempt rfl) fun _ => .bind (A.attempt rfl) fun _ => .bind (A.attempt rfl) fun _ =>
      .ofExcept
  refine .bind (.outcome hread) fun found => ?_
  cases found with
  | ok request => exact .bind .ofExcept fun _ => .bind (A.attempt rfl) fun _ => .pure
  | error e =>
    simp only
    split
    · refine .bind (A.call rfl) fun present => ?_
      split
      · exact .throw
      · exact .pure
    · exact .throw

theorem requestStop (graceMs : Nat) (reason : ExitReason) :
    Concludes b receives (requestStop graceMs reason) := by
  refine .bind .modify fun _ => ?_
  split
  · refine .bind (A.call rfl) fun signalled => ?_
    have hstopping : Concludes b receives (do
        let now ← Proc.call .instant
        return { deadline := now + graceMs, forceSent := false, reason } : Supervised Stopping) :=
      .bind (A.call rfl) fun _ => .pure
    cases signalled with
    | ok _ => exact hstopping
    | error e =>
      simp only
      split
      · exact hstopping
      · exact .bind .throw fun _ => hstopping
  · exact .bind A.startKillTolerant fun _ => .bind .modify fun _ => .bind (A.call rfl) fun _ => .pure

theorem watchTriggers (path : PathBuf) : Concludes b receives (watchTriggers path) := by
  refine .bind .get fun locals => .bind (A.readStopRequest path _) fun found => ?_
  cases found with
  | some request =>
    exact .bind .modify fun _ => .bind A.touch fun _ => .bind .modify fun _ =>
      .bind (A.requestStop _ _) fun _ => .bind .modify fun _ => A.persistState
  | none =>
    refine .bind (.bind .get fun locals => ?_) fun expired => ?_
    · split
      · exact .pure
      · exact .bind (A.call rfl) fun _ => .pure
    split
    · exact .bind (A.call rfl) fun _ => .bind .get fun _ => .bind .modify fun _ =>
        .bind (A.requestStop _ _) fun _ => .bind .modify fun _ => A.persistState
    · exact .pure

theorem enforceStop (stopping : Stopping) : Concludes b receives (enforceStop stopping) := by
  refine .bind ?_ fun due => ?_
  · unfold forceDue
    split
    · exact .pure
    · exact .bind (A.call rfl) fun _ => .pure
  split
  · refine .bind A.startKillTolerant fun killed => ?_
    have hforced : Concludes b receives (do
        Proc.modify fun l => { l with
          stopping := some { stopping with forceSent := true }
          state := { l.state with cleanup := { l.state.cleanup with forceUsed := true } } }
        Procherd.touch
        Procherd.persistState : Supervised Unit) :=
      .bind .modify fun _ => .bind A.touch fun _ => A.persistState
    simp only
    split
    · exact .bind .modify fun _ => hforced
    · exact hforced
  · exact .pure

/-! ### The loop -/

theorem superviseStop (path : PathBuf) : Concludes b receives (superviseStop path) := by
  refine .bind .get fun locals => ?_
  split
  · exact A.watchTriggers path
  · exact A.enforceStop _

theorem handleExit (exitStatus : ExitStatus) : Concludes b true (handleExit exitStatus) :=
  .bind A.killRemaining fun _ => .bind .modify fun _ => .bind (A.drainUntilClosed _) fun _ =>
    .bind .modify fun _ => .bind A.finishLogs fun _ => .bind A.releaseLeases fun _ =>
    .bind A.touch fun _ => .bind (A.call rfl) fun _ => .bind .modify fun _ => A.persistState

theorem superviseRounds (path : PathBuf) :
    Concludes b true (Proc.repeatUntil (superviseRound path)) := by
  refine .repeatUntil A.follows ?_ ?_
  · refine .bind (A.drainBatch _ _) fun drain => .bind A.pollReadiness fun polled =>
      .bind (A.persistReadiness _) fun _ => .bind (A.superviseStop path) fun _ =>
      .bind A.tryWaitRetry fun waited => ?_
    cases waited with
    | some exitStatus => exact .bind (A.handleExit exitStatus) fun _ => .pure
    | none => exact .bind A.snapshotIfDue fun _ => .bind (A.call rfl) fun _ => .pure
  -- A round begun when the child is gone finds its exit.
  obtain ⟨k₀, hgone⟩ := A.tryWaitRetry_gone true
  refine ⟨k₀, fun k hk => .bind (A.drainBatch _ _) fun k₁ h₁ drain =>
    .bind A.pollReadiness fun k₂ h₂ polled => .bind (A.persistReadiness _) fun k₃ h₃ _ =>
    .bind (A.superviseStop path) fun k₄ h₄ _ s h => ?_⟩
  refine .seq (hgone k₄ (by omega) s h) (fun j _ waited s' h => ?_) fun e s' w h => ?_
  · obtain ⟨⟨exitStatus, hstatus⟩ | ⟨e, he⟩, hJ⟩ := h
    · cases hstatus
      exact Behavior.Leaves.bind (A.handleExit exitStatus) (fun _ _ _ => .found) s' hJ
    · cases he
  · exact ⟨fun hnone => (by cases hnone), h.2⟩

/-! ### The scopes -/

/-- The scope of the receiver: the supervisor has none before it and after it. -/
theorem superviseOutput (path : PathBuf) : Concludes b false (superviseOutput path) := by
  intro k s h
  -- The outcome of the body is kept until the receiver is dropped.
  refine .seq (Q := fun r w => (∃ result, r.1 = .ok result) ∧ Working true w)
    (.bind (Q := fun _ => Working true)
      (.exec A.follows h (fun w _ => ⟨{}, _, rfl⟩) fun j _ a r _ hJ hexec => ?_)
      fun _ _ r h => .ret ⟨⟨r.1, rfl⟩, h⟩)
    (fun k _ result s h => .exec A.follows h.2 (fun w _ => ⟨{}, _, rfl⟩)
      fun j _ a r _ hJ hexec => ?_) ?_
  · have hopened : Working true (b.cfg (j + 1)).world := by
      rw [← (Prod.mk.inj (Option.some.inj hexec)).2]
      exact ⟨hJ.1, fun _ => rfl⟩
    refine Behavior.Finishes.bind (A.call rfl) (fun _ => .bind (A.call rfl) fun _ =>
      .bind (A.call rfl) fun _ => .bind (A.attempt rfl) fun _ => .bind (A.call rfl) fun _ =>
      .bind .modify fun _ => .ensuring (A.superviseRounds path) A.dropLogs) (j + 1) s hopened
  · have hdropped : Working false (b.cfg (j + 1)).world := by
      rw [← (Prod.mk.inj (Option.some.inj hexec)).2]
      exact ⟨hJ.1, fun hnone => by cases hnone⟩
    exact Behavior.Ends.ret (a := (result, s)) hdropped
  · rintro e s w ⟨⟨result, hresult⟩, -⟩
    cases hresult

theorem superviseChild (path : PathBuf) (pid : Nat) :
    Concludes b false (superviseChild path pid) :=
  .ensuring (.bind .modify fun _ => .bind (A.call rfl) fun _ => .bind .modify fun _ =>
    .bind A.touch fun _ => .bind .modify fun _ => .bind A.persistState fun _ =>
    A.superviseOutput path) A.dropChild

theorem failSpawn (error : IoError) : Concludes b receives (failSpawn error) :=
  .bind .modify fun _ => .bind A.touch fun _ => .bind (A.call rfl) fun _ => .bind .modify fun _ =>
    .bind A.releaseLeases fun _ => .bind A.persistState fun _ => .bind .get fun _ => .throw

theorem superviseLeased (path : PathBuf) : Concludes b false (superviseLeased path) := by
  refine .ensuring (.bind A.persistState fun _ => .bind (A.call rfl) fun _ => .bind .modify fun _ =>
    .bind .get fun _ => .bind (A.call rfl) fun spawned => ?_) A.dropLeases
  cases spawned with
  | ok pid => exact A.superviseChild path pid
  | error e => exact A.failSpawn e

theorem superviseLocked (path : PathBuf) : Concludes b false (superviseLocked path) := by
  have hload : Concludes b false loadSupervised :=
    .bind (A.attempt rfl) fun _ => .bind .throwIf fun _ => .bind (A.attempt rfl) fun _ =>
      .bind .throwIf fun _ => .pure
  exact .bind hload fun _ => .bind (A.attempt rfl) fun _ => .bind (A.call rfl) fun _ =>
    .bind (A.call rfl) fun _ => .bind (A.attempt rfl) fun _ => .bind (A.acquire _ _) fun _ =>
    .bind (.withStore (A.superviseLeased path)) fun _ => .ofExcept

theorem superviseAndMark (path : PathBuf) : Concludes b false (superviseAndMark path) := by
  refine .bind (.outcome (A.superviseLocked path)) fun result => ?_
  cases result with
  | ok _ => exact .pure
  | error e =>
    refine .bind (.bind (A.call rfl) fun found => ?_) fun _ => .throw
    cases found with
    | error _ => exact .pure
    | ok state =>
      simp only
      split
      · exact .pure
      · exact .bind (A.call rfl) fun _ => .bind (A.call rfl) fun _ => .bind (A.call rfl) fun _ => .pure

end Attended

theorem attended (hfair : b.Fair .supervisor) (htime : TimePasses b)
    (hchild : b.Eventually childGone) : Attended b where
  fair := hfair
  instant time := by
    obtain ⟨k₀, h⟩ := Behavior.Executes.meets (i := Thread.supervisor) (htime time)
    exact ⟨k₀, fun j hj a he => h j hj (.inr .instant) a he⟩
  child := by
    obtain ⟨k₀, h⟩ := Behavior.Executes.meets (i := Thread.supervisor) hchild
    exact ⟨k₀, fun j hj a he => h j hj (.inr .tryWait) a he⟩

/-- `supervise` once it has its lock. -/
def superviseHeld (path : PathBuf) : Proc (Either LockCmd BodyCmd) AppError Unit Unit := do
  let result ← Proc.outcome ((superviseAndMark path).hoist .inr)
  Proc.call (.inl .release)
  Proc.ofExcept result

theorem Attended.ends_held (A : Attended b) (path : PathBuf) {k : Nat}
    (h : Working false (b.cfg k).world) : b.Ends .supervisor (fun c => c) (superviseHeld path ()) k
      fun _ w => w.phase = .released := by
  refine .seq (Q := fun r w => (∃ result, r.1 = .ok result) ∧ Working false w)
    (.bind (Behavior.Ends.hoist (A.superviseAndMark path k () h)) fun _ _ r hr =>
      .ret ⟨⟨r.1, rfl⟩, hr⟩) (fun j _ result s hr => ?_) ?_
  · refine .exec A.follows hr.2 (fun w hw => ⟨{}, _, if_pos hw.1⟩)
      fun j' _ a r _ hJ hexec => .ret ?_
    have hreleased := (if_pos hJ.1).symm.trans hexec
    rw [← (Prod.mk.inj (Option.some.inj hreleased)).2]
  · rintro e s w ⟨⟨result, hresult⟩, -⟩
    cases hresult

/-- A supervisor that gets to try for its lock returns, without the lock. -/
theorem supervisor_returns (setup : Setup) (b : Behavior (always system) setup.initial)
    (hfair : b.Fair .supervisor) (htime : TimePasses b) (hchild : b.Eventually childGone)
    (hmoves : ∃ k a, b.move k = some (.supervisor, a)) :
    ∃ k r, (b.cfg k).thread .supervisor = .ret r ∧ (b.cfg k).world.phase ≠ .active := by
  have A := attended hfair htime hchild
  have hthread : (b.cfg 0).thread .supervisor =
      (supervise (setup.runDir.join "stop.request.json") ()).bind fun r => .ret r.1 := by
    rw [b.start]
    rfl
  obtain ⟨n, a₀, hn⟩ := hmoves
  -- Its first move is the attempt at the lock.
  obtain ⟨j, a, hmove, hstays⟩ : ∃ j a, b.move j = some (.supervisor, a) ∧
      (b.cfg j).thread .supervisor = (b.cfg 0).thread .supervisor := by
    obtain ⟨j, -, ⟨a, hmove⟩, hstays, -⟩ | ⟨hstays, -⟩ :=
      Behavior.move_or_stay (steady_true (b := b) (i := .supervisor)) trivial n
    · exact ⟨j, a, hmove, hstays⟩
    · rw [Nat.zero_add] at hstays
      exact ⟨n, a₀, hn, hstays⟩
  rw [hthread] at hstays
  obtain ⟨-, ⟨β, c, cont, r, hp, hexec, hr⟩ | ⟨_, _, _, _, _, hp, -⟩⟩ :=
    step_cases (b.steps j _ hmove).1
  swap
  · cases hstays.symm.trans hp
  obtain ⟨rfl, hc, hcont⟩ := Prog.exec.inj (hstays.symm.trans hp)
  cases hc
  cases hcont
  have hacquire : execLock .acquire a (b.cfg j).world = some (r, (b.cfg (j + 1)).world) := hexec
  simp only [execLock] at hacquire
  split at hacquire
  · cases hacquire
  rename_i hlaunched
  split at hacquire
  · -- The lock file could not be opened or locked.
    obtain ⟨rfl, hworld⟩ := Prod.mk.inj (Option.some.inj hacquire)
    refine ⟨j + 1, _, hr, fun hactive => hlaunched fun hphase => ?_⟩
    rw [hworld, hactive] at hphase
    cases hphase
  split at hacquire
  · obtain ⟨rfl, hworld⟩ := Prod.mk.inj (Option.some.inj hacquire)
    have hworking : Working false (b.cfg (j + 1)).world := by
      rw [← hworld]
      exact ⟨rfl, fun h => by cases h⟩
    obtain ⟨k, -, r, hreturned, hreleased⟩ :=
      (A.ends_held (setup.runDir.join "stop.request.json") hworking).returns hr
    refine ⟨k, _, hreturned, fun hactive => ?_⟩
    rw [hreleased] at hactive
    cases hactive
  · cases hacquire

end Supervisor

end Procherd

namespace Procherd.Reference

open Interaction Machine

/-- `start`, the client and the supervisor come to their ends. -/
def ending : List system.Move :=
  startUp ++ finish ++ steps (.client 0) 5 {} ++ steps .start 4 {}

/-- The threads of `ending` that have returned. -/
def returned (cfg : system.Config) : Bool :=
  [Thread.start, .client 0, .supervisor].all fun i => (cfg.thread i).result?.isSome

theorem ret_of_returned {cfg : system.Config} (h : returned cfg) {i : Thread}
    (hi : i ∈ [Thread.start, .client 0, .supervisor]) : ∃ r, cfg.thread i = .ret r := by
  obtain ⟨r, hr⟩ := Option.isSome_iff_exists.mp (List.all_eq_true.mp h i hi)
  exact ⟨r, Prog.eq_ret_of_result? hr⟩

theorem run_ending : (run (setup waiter).initial ending).map returned = some true := by
  decide +kernel

theorem isSome_run_ending : (run (setup waiter).initial ending).isSome := by
  rw [← Option.isSome_map, run_ending]
  rfl

theorem fair_ending {i : Thread} (hi : i ∈ [Thread.start, .client 0, .supervisor]) :
    (Behavior.ofRun (setup waiter).initial ending isSome_run_ending).Fair i := by
  obtain ⟨cfg, hcfg, hreturned⟩ := Option.map_eq_some_iff.mp run_ending
  obtain ⟨r, hr⟩ := ret_of_returned hreturned hi
  exact Behavior.ofRun_fair hcfg hr

/-- `wait` and `start` return in a behaviour that ends. -/
theorem commands_return_ending : ∃ b : Behavior (always system) (setup waiter).initial,
    (∃ k r, (b.cfg k).thread .start = .ret r) ∧ ∃ k r, (b.cfg k).thread (.client 0) = .ret r := by
  have hreturn := commands_return (setup waiter)
    (Behavior.ofRun (setup waiter).initial ending isSome_run_ending)
    fun _ => Behavior.ofRun_eventually _
  exact ⟨_, hreturn.1 (fair_ending (by simp)),
    hreturn.2 0 ⟨.wait options.runId .exit 1000, rfl⟩ (fair_ending (by simp))⟩

/-- The supervisor takes its first step right after the launch. -/
theorem supervisor_returns_ending : ∃ b : Behavior (always system) (setup waiter).initial,
    ∃ k r, (b.cfg k).thread .supervisor = .ret r ∧ (b.cfg k).world.phase ≠ .active :=
  ⟨_, supervisor_returns (setup waiter)
    (Behavior.ofRun (setup waiter).initial ending isSome_run_ending) (fair_ending (by simp))
    (fun _ => Behavior.ofRun_eventually _) (Behavior.ofRun_eventually _) ⟨9, {}, rfl⟩⟩

end Procherd.Reference
