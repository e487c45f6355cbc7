import GitlabRunner.JobTraceOrder

/-!
# The log at the coordinator

The trace client together with a coordinator that holds the received log as a byte
string.  A patch that starts at the end of the string is appended, any other patch is
answered with the length of the string.
-/

namespace GitlabRunner.JobTrace

open Network List ActionRuns Option SenderStep

inductive Sender where
  | watcher
  | finisher (index : Nat)
  deriving DecidableEq, Repr

def Sender.action : Sender → Input → Action
  | .watcher => .watch
  | .finisher index => .finish index

/-- What happens to a patch on its way to the coordinator and back.  An answer
carries any `Job-Status` header. -/
inductive Exchange where
  | requestLost
  | responseLost
  | serverError (applied : Bool) (status : Fin 100) (remoteState remoteRange : String)
  | answered (remoteState : String)
  | forbidden
  | notFound
  deriving DecidableEq, Repr

def receive (coordinator content : List UInt8) (start : Int) : List UInt8 :=
  if start = coordinator.length then coordinator ++ content else coordinator

def reply (coordinator : List UInt8) (start : Int) (remoteState : String) : Response :=
  if start = coordinator.length then ⟨statusAccepted, remoteState, ""⟩
  else ⟨statusRequestedRangeNotSatisfiable, remoteState, rangeHeader coordinator.length⟩

/-- The coordinator's string after an exchange, and the outcome for the client. -/
def Exchange.result (coordinator content : List UInt8) (start : Int) :
    Exchange → List UInt8 × Outcome
  | .requestLost => (coordinator, .transportError)
  | .responseLost => (receive coordinator content start, .transportError)
  | .serverError applied status remoteState remoteRange =>
    (if applied then receive coordinator content start else coordinator,
      .response ⟨500 + status.val, remoteState, remoteRange⟩)
  | .answered remoteState =>
    (receive coordinator content start, .response (reply coordinator start remoteState))
  | .forbidden => (coordinator, .response ⟨statusForbidden, "", ""⟩)
  | .notFound => (coordinator, .response ⟨statusNotFound, "", ""⟩)

/-- Neither message of the exchange is lost, and it is no server error. -/
def Exchange.delivered : Exchange → Bool
  | .requestLost => false
  | .responseLost => false
  | .serverError _ _ _ _ => false
  | .answered _ => true
  | .forbidden => true
  | .notFound => true

structure Upload where
  system : System
  coordinator : List UInt8
  deriving DecidableEq, Repr

/-- An action of the trace client other than the end of `PatchTrace`, or the
exchange for a patch in flight. -/
inductive UploadAction where
  | trace (action : Action)
  | exchange (sender : Sender) (message : Exchange)
  deriving DecidableEq, Repr

def UploadAction.delivered : UploadAction → Bool
  | .trace _ => true
  | .exchange _ message => message.delivered

def PatchPc.isInFlight : PatchPc → Bool
  | .inFlight _ _ => true
  | _ => false

def Upload.step (config : Config) (upload : Upload) : UploadAction → Option Upload
  | .trace action =>
    if (upload.system.patchOf action).any PatchPc.isInFlight then none
    else (JobTrace.step config upload.system action).map
      fun system => { upload with system := system }
  | .exchange sender message =>
    match upload.system.patchOf (sender.action .nothing) with
    | some (.inFlight content start) =>
      let (coordinator, outcome) := message.result upload.coordinator content start
      (JobTrace.step config upload.system (sender.action (.outcome outcome))).map
        fun system => { system := system, coordinator := coordinator }
    | _ => none

def Upload.start : Upload where
  system := JobTrace.start
  coordinator := []

variable {config : Config} {coordinator content : List UInt8} {start : Int}

theorem receive_cases :
    receive coordinator content start = coordinator ∨
      start = coordinator.length ∧ receive coordinator content start = coordinator ++ content := by
  unfold receive
  split
  · rename_i atEnd
    exact .inr ⟨atEnd, rfl⟩
  · exact .inl rfl

/-- An exchange leaves the coordinator's string alone or appends a patch that
starts at its end. -/
theorem Exchange.result_coordinator (message : Exchange) :
    (message.result coordinator content start).1 = coordinator ∨
      start = coordinator.length ∧
        (message.result coordinator content start).1 = coordinator ++ content := by
  cases message with
  | requestLost | forbidden | notFound => exact .inl rfl
  | responseLost | answered => exact receive_cases
  | serverError applied status remoteState remoteRange =>
    cases applied with
    | false => exact .inl rfl
    | true => exact receive_cases

variable {message : Exchange}

/-- Only an answer of the coordinator has the status code of a settled patch. -/
theorem Exchange.answered_of_settled {response : Response}
    (outcome : (message.result coordinator content start).2 = .response response)
    (code : response.statusCode = statusAccepted ∨
      response.statusCode = statusRequestedRangeNotSatisfiable) :
    ∃ remoteState, message = .answered remoteState ∧
      response = reply coordinator start remoteState := by
  cases message with
  | requestLost | responseLost => cases outcome
  | serverError applied status remoteState remoteRange =>
    cases outcome
    simp only [statusAccepted, statusRequestedRangeNotSatisfiable] at code
    omega
  | answered remoteState =>
    cases outcome
    exact ⟨remoteState, rfl, rfl⟩
  | forbidden | notFound =>
    cases outcome
    exact absurd code (by decide)

open Exchange

/-- A patch is settled by an answer, and its offset is the length of the coordinator's string. -/
theorem Exchange.answered_of_known {offset : Int} {state : UpdateState} (nonempty : content ≠ [])
    (returned : patchTrace content start (message.result coordinator content start).2 =
      (offset, state)) (known : state = .updateSucceeded ∨ state = .updateRangeMismatch) :
    (∃ remoteState, message = .answered remoteState) ∧ (coordinator.length < 2 ^ 63 →
      offset = (message.result coordinator content start).1.length) := by
  rcases patchTrace_cases nonempty returned with
    ⟨-, sentOffset, response, outcome, -, accepted⟩ |
    ⟨-, response, outcome, -, mismatch, sentOffset⟩ | ⟨notSucceeded, notMismatch⟩
  · obtain ⟨remoteState, rfl, rfl⟩ := answered_of_settled outcome (.inl accepted)
    have atEnd : start = coordinator.length := by
      by_contra elsewhere
      simp [reply, elsewhere, statusAccepted, statusRequestedRangeNotSatisfiable] at accepted
    exact ⟨⟨_, rfl⟩, fun _ => by simp [result, receive, sentOffset, atEnd]⟩
  · obtain ⟨remoteState, rfl, rfl⟩ := answered_of_settled outcome (.inr mismatch)
    have elsewhere : start ≠ coordinator.length := by
      intro atEnd
      simp [reply, atEnd, statusAccepted, statusRequestedRangeNotSatisfiable] at mismatch
    refine ⟨⟨_, rfl⟩, fun small => ?_⟩
    simp [result, receive, sentOffset, elsewhere, reply, newOffset_rangeHeader small]
  · exact absurd known (not_or.mpr ⟨notSucceeded, notMismatch⟩)

/-- A delivered exchange settles the patch or ends `finalTraceUpdate`. -/
theorem Exchange.state_of_delivered {offset : Int} {state : UpdateState} (nonempty : content ≠ [])
    (delivered : message.delivered = true)
    (returned : patchTrace content start (message.result coordinator content start).2 =
      (offset, state)) (unknown : ¬(state = .updateSucceeded ∨ state = .updateRangeMismatch)) :
    state = .updateAbort ∨ state = .updateNotFound := by
  have hasContent : content.length ≠ 0 := by simpa using nonempty
  cases message with
  | requestLost | responseLost | serverError => cases delivered
  | answered remoteState =>
    simp only [result, patchTrace, hasContent, if_false] at returned
    split at returned
    · cases returned
      exact .inl rfl
    · by_cases atEnd : start = coordinator.length
      · simp only [reply, atEnd, if_true] at returned
        cases returned
        exact absurd (.inl rfl) unknown
      · simp [reply, atEnd, statusAccepted, statusRequestedRangeNotSatisfiable,
          statusNotFound] at returned
        exact absurd (.inr returned.2.symm) unknown
  | forbidden =>
    simp only [result, patchTrace, hasContent, if_false] at returned
    cases returned
    exact .inl rfl
  | notFound =>
    simp only [result, patchTrace, hasContent, if_false] at returned
    cases returned
    exact .inr rfl
variable {pc : FinishPc}

theorem System.patchOf_of_position (system : System) {index : Nat}
    (position : system.finishers[index]? = some pc) (input : Input) :
    system.patchOf (.finish index input) = pc.patchPc := by
  simp [System.patchOf, position]

@[simp]
theorem patchOf_action (system : System) (sender : Sender) (input : Input) :
    system.patchOf (sender.action input) = system.patchOf (sender.action .nothing) := by
  cases sender <;> rfl

@[simp]
theorem input_action (sender : Sender) (input : Input) : (sender.action input).input = input := by
  cases sender <;> rfl
variable {upload next : Upload} {action : UploadAction}

theorem Upload.step_cases (stepTo : upload.step config action = some next) :
    (∃ inner, action = .trace inner ∧
      JobTrace.step config upload.system inner = some next.system ∧
      next.coordinator = upload.coordinator ∧
      ∀ content start, upload.system.patchOf inner ≠ some (.inFlight content start)) ∨
    (∃ sender message content start, action = .exchange sender message ∧
      upload.system.patchOf (sender.action .nothing) = some (.inFlight content start) ∧
      JobTrace.step config upload.system
        (sender.action (.outcome (message.result upload.coordinator content start).2)) =
          some next.system ∧
      next.coordinator = (message.result upload.coordinator content start).1) := by
  cases action with
  | trace inner =>
    simp only [Upload.step] at stepTo
    split at stepTo
    · cases stepTo
    · rename_i notInFlight
      obtain ⟨system, moved, rfl⟩ := map_eq_some_iff.mp stepTo
      refine .inl ⟨inner, rfl, moved, rfl, ?_⟩
      intro content start inFlight
      simp [inFlight, PatchPc.isInFlight] at notInFlight
  | exchange sender message =>
    simp only [Upload.step] at stepTo
    split at stepTo
    · rename_i content start inFlight
      obtain ⟨system, moved, rfl⟩ := map_eq_some_iff.mp stepTo
      exact .inr ⟨sender, message, content, start, rfl, inFlight, moved, rfl⟩
    · cases stepTo

/-- What holds of a `sendPatch` call: a patch in flight is a piece of the log
from the current offset on, and an offset about to be stored is the length of
the coordinator's string. -/
def PatchPc.Sound (config : Config) (client : Client) (coordinator : List UInt8) :
    PatchPc → Prop
  | .read => True
  | .inFlight content start =>
    start = client.sentTrace ∧ content ≠ [] ∧
      content.length ≤ config.maxTracePatchSize ∧
      content <+: client.trace.drop start.toNat
  | .store sentOffset _ _ => sentOffset = coordinator.length

def FinishPc.traceSent : FinishPc → Bool
  | .update complete _ => complete
  | .done complete => complete
  | _ => false

/-- The joint invariant of the offset, the coordinator's string and the log. -/
structure Exact (config : Config) (upload : Upload) : Prop where
  ordered : Ordered upload.system
  received : upload.coordinator <+: upload.system.client.trace
  nonneg : 0 ≤ upload.system.client.sentTrace
  sent : upload.system.client.sentTrace ≤ upload.coordinator.length
  small : upload.system.client.trace.length < 2 ^ 63
  sending : ∀ pc ∈ upload.system.sending,
    pc.Sound config upload.system.client upload.coordinator
  complete : ∀ pc ∈ upload.system.finishers, pc.traceSent = true →
    upload.coordinator = upload.system.client.trace

theorem exact_start : Exact config Upload.start where
  ordered := ordered_start
  received := nil_prefix
  nonneg := Int.le_refl 0
  sent := Int.le_refl 0
  small := by decide
  sending := by simp [Upload.start, JobTrace.start, System.sending, WatchPc.patchPc]
  complete := by simp [Upload.start, JobTrace.start]
variable {client : Client}

theorem PatchPc.Sound.grow {next : Client} {pc : PatchPc}
    (sound : pc.Sound config client coordinator) (sentTrace : next.sentTrace = client.sentTrace)
    (trace : client.trace <+: next.trace) : pc.Sound config next coordinator := by
  cases pc with
  | read => trivial
  | inFlight content start =>
    obtain ⟨atOffset, nonempty, short, piece⟩ := sound
    obtain ⟨more, same⟩ := trace
    refine ⟨atOffset.trans sentTrace.symm, nonempty, short, piece.trans ?_⟩
    rw [← same, drop_append]
    exact prefix_append _ _
  | store sentOffset state reached => exact sound

theorem small_of_step {system next : System} {action : Action}
    (small : system.client.trace.length < 2 ^ 63)
    (stepTo : JobTrace.step config system action = some next) :
    next.client.trace.length < 2 ^ 63 := by
  cases transition_of_step stepTo with
  | grew isOpen bounded => simpa using bounded
  | failDecides undecided => simpa using small
  | watchPatched _ sent | watchUpdated _ sent | finishPatched _ sent | finishUpdated _ sent =>
    rw [sent.frame]; exact small
  | cancelFuncSet | failIgnored | timerFired | closed | traceLeft | traceSent | handedOver =>
    exact small

theorem traceSent_finishPatch (result : PatchResult) : (finishPatch result).traceSent = false := by
  fun_cases finishPatch result <;> rfl

theorem traceSent_finishUpdate (complete : Bool) (result : UpdateResult) :
    (finishUpdate complete result).traceSent = complete := by
  fun_cases finishUpdate complete result <;> rfl

theorem FinishPc.phase_of_traceSent (complete : pc.traceSent = true) :
    pc.closed = true ∧ pc.handedOver = true := by
  cases pc <;> first | exact ⟨rfl, rfl⟩ | cases complete

/-- A trace is only complete if it was so before or if the offset has reached
the end of the log; either way the log is as before and nothing is sent. -/
theorem traceSent_of_step {system next : System} {action : Action} (ordered : Ordered system)
    (stepTo : JobTrace.step config system action = some next)
    (member : pc ∈ next.finishers) (complete : pc.traceSent = true) :
    next.client.trace = system.client.trace ∧ system.patchOf action = none ∧
      ((∃ before ∈ system.finishers, before.traceSent = true) ∨
        (system.client.trace.length : Int) = system.client.sentTrace) := by
  cases transition_of_step stepTo with
  | grew isOpen bounded =>
    obtain ⟨index, position⟩ := mem_iff_getElem?.mp member
    have closed := (ordered.of_position position).2.2.2.1
    rw [(FinishPc.phase_of_traceSent complete).1] at closed
    exact absurd (isOpen.symm.trans closed) (by decide)
  | cancelFuncSet | failIgnored => exact ⟨rfl, rfl, .inl ⟨pc, member, complete⟩⟩
  | failDecides undecided =>
    rcases mem_append.mp member with before | new
    · exact ⟨setState_trace _ _ _, rfl, .inl ⟨pc, before, complete⟩⟩
    · obtain rfl := mem_singleton.mp new
      cases complete
  | timerFired waiting =>
    exact ⟨rfl, by simp [System.patchOf, waiting, WatchPc.patchPc], .inl ⟨pc, member, complete⟩⟩
  | watchPatched position sent =>
    obtain ⟨index, finisher⟩ := mem_iff_getElem?.mp member
    have done := (ordered.of_position finisher).2.2.2.2 (FinishPc.phase_of_traceSent complete).2
    rw [position] at done
    cases done
  | watchUpdated position sent =>
    refine ⟨by rw [sent.frame], by simp [System.patchOf, position, WatchPc.patchPc], ?_⟩
    exact .inl ⟨pc, member, complete⟩
  | closed position | traceLeft position | handedOver position =>
    obtain ⟨rfl, one, -⟩ := ordered.of_position position
    simp only [one, set_cons_zero, mem_singleton] at member
    subst member
    cases complete
  | traceSent position allSent =>
    refine ⟨rfl, ?_, .inr allSent⟩
    simp [System.patchOf, position, FinishPc.patchPc]
  | finishPatched position sent =>
    obtain ⟨rfl, one, -⟩ := ordered.of_position position
    simp only [one, set_cons_zero, mem_singleton] at member
    rw [member, traceSent_finishPatch] at complete
    cases complete
  | finishUpdated position sent =>
    obtain ⟨rfl, one, -⟩ := ordered.of_position position
    simp only [one, set_cons_zero, mem_singleton] at member
    rw [member, traceSent_finishUpdate] at complete
    refine ⟨by rw [sent.frame], by simp [System.patchOf, one, FinishPc.patchPc], ?_⟩
    exact .inl ⟨_, mem_of_getElem? position, complete⟩

/-- The completeness part of the invariant, for an action that leaves the
coordinator's string alone unless it moves a `sendPatch`. -/
theorem Exact.complete_of_step {action : Action} (exact : Exact config upload)
    (stepTo : JobTrace.step config upload.system action = some next.system)
    (unchanged : upload.system.patchOf action = none →
      next.coordinator = upload.coordinator) :
    ∀ pc ∈ next.system.finishers, pc.traceSent = true →
      next.coordinator = next.system.client.trace := by
  intro pc member complete
  obtain ⟨trace, actor, cause⟩ := traceSent_of_step exact.ordered stepTo member complete
  rw [trace, unchanged actor]
  rcases cause with ⟨before, finisher, sent⟩ | allSent
  · exact exact.complete before finisher sent
  · apply exact.received.eq_of_length_le
    have := exact.sent
    omega

variable {result : PatchResult} {input : Input}

/-- `sendPatch` between the exchanges: the snapshot is a piece of the log, and
the stored offset is the length of the coordinator's string. -/
theorem PatchStep.sound {next : Client} {pc : PatchPc}
    (sent : PatchStep config client pc input next result)
    (nonneg : 0 ≤ client.sentTrace) (bounded : client.sentTrace ≤ coordinator.length)
    (sound : pc.Sound config client coordinator)
    (notInFlight : ∀ content start, pc ≠ .inFlight content start) :
    0 ≤ next.sentTrace ∧ next.sentTrace ≤ coordinator.length ∧
      ∀ after, result.patchPc = some after → after.Sound config next coordinator := by
  cases sent with
  | upToDate | outOfRange => exact ⟨nonneg, bounded, by simp [PatchResult.patchPc]⟩
  | snapshot atLeast below =>
    refine ⟨nonneg, bounded, ?_⟩
    intro after moved
    obtain rfl := some.inj moved
    refine ⟨rfl, ?_, length_take_le _ _, take_prefix _ _⟩
    have := config.maxTracePatchSize_pos
    rw [← length_pos_iff, length_take, length_drop]
    omega
  | settled | refused => exact absurd rfl (notInFlight _ _)
  | stored =>
    simp only [PatchPc.Sound] at sound
    exact ⟨by simp [sound], by simp [sound], by simp [PatchResult.patchPc]⟩

theorem PatchStep.client_of_inFlight {next : Client}
    (sent : PatchStep config client (.inFlight content start) input next result) :
    next = client := by
  cases sent <;> rfl

/-- The offset of a settled exchange is the length of the coordinator's string. -/
theorem PatchStep.sound_of_exchange {next : Client}
    (sent : PatchStep config client (.inFlight content start)
      (.outcome (message.result coordinator content start).2) next result)
    (nonempty : content ≠ []) (small : coordinator.length < 2 ^ 63) :
    ∀ after, result.patchPc = some after →
      after.Sound config client (message.result coordinator content start).1 := by
  intro after moved
  cases sent with
  | settled returned known =>
    obtain rfl := some.inj moved
    exact (answered_of_known nonempty returned known).2 small
  | refused returned unknown => cases moved

theorem PatchPc.Sound.received
    (sound : (PatchPc.inFlight content start).Sound config client coordinator)
    (received : coordinator <+: client.trace) (message : Exchange) :
    (message.result coordinator content start).1 <+: client.trace := by
  obtain ⟨-, -, -, piece⟩ := sound
  rcases message.result_coordinator with unchanged | ⟨atEnd, appended⟩
  · rw [unchanged]
    exact received
  · obtain ⟨rest, same⟩ := received
    rw [appended, ← same, prefix_append_right_inj]
    simpa [atEnd, ← same] using piece

theorem Exchange.length_le_result (message : Exchange) :
    coordinator.length ≤ (message.result coordinator content start).1.length := by
  rcases message.result_coordinator with unchanged | ⟨-, appended⟩
  · exact Nat.le_of_eq (by rw [unchanged])
  · simp [appended]

theorem Exact.trace_step {action : Action} (exact : Exact config upload)
    (stepTo : JobTrace.step config upload.system action = some next.system)
    (unchanged : next.coordinator = upload.coordinator) (notInFlight : ∀ content start,
      upload.system.patchOf action ≠ some (.inFlight content start)) : Exact config next := by
  have ordered := exact.ordered.step stepTo
  have small := small_of_step exact.small stepTo
  have complete := exact.complete_of_step stepTo (fun _ => unchanged)
  cases of_step exact.ordered stepTo with
  | quiet actor sentTrace trace sending panicked =>
    refine ⟨ordered, ?_, ?_, ?_, small, ?_, complete⟩
    · rw [unchanged]
      exact exact.received.trans trace
    · rw [sentTrace]
      exact exact.nonneg
    · rw [sentTrace, unchanged]
      exact exact.sent
    · intro pc member
      rw [unchanged]
      rcases sending pc member with rfl | before
      · trivial
      · exact (exact.sending pc before).grow sentTrace trace
  | @patched pc result actor sent before after panicked =>
    obtain ⟨nonneg, bounded, sound⟩ := sent.sound exact.nonneg exact.sent
      (exact.sending pc (by simp [before]))
      (fun content start inFlight => notInFlight content start (by rw [actor, inFlight]))
    refine ⟨ordered, ?_, nonneg, ?_, small, ?_, complete⟩
    · rw [unchanged, sent.frame]
      exact exact.received
    · rw [unchanged]
      exact bounded
    · intro position member
      rw [after, mem_toList] at member
      rw [unchanged]
      exact sound position member

theorem Exact.exchange_step {sender : Sender} (exact : Exact config upload)
    (inFlight : upload.system.patchOf (sender.action .nothing) = some (.inFlight content start))
    (stepTo : JobTrace.step config upload.system
      (sender.action (.outcome (message.result upload.coordinator content start).2)) =
        some next.system) (received : next.coordinator =
      (message.result upload.coordinator content start).1) : Exact config next := by
  have ordered := exact.ordered.step stepTo
  have small := small_of_step exact.small stepTo
  have complete := exact.complete_of_step stepTo (fun idle => absurd idle (by simp [inFlight]))
  cases of_step exact.ordered stepTo with
  | quiet actor => simp [inFlight] at actor
  | @patched pc result actor sent before after panicked =>
    rw [patchOf_action, inFlight, some.injEq] at actor
    subst actor
    rw [input_action] at sent
    have sound := exact.sending (.inFlight content start) (by simp [before])
    have shorter := Nat.lt_of_le_of_lt exact.received.length_le exact.small
    have unchanged := sent.client_of_inFlight
    refine ⟨ordered, ?_, ?_, ?_, small, ?_, complete⟩
    · rw [unchanged, received]
      exact sound.received exact.received message
    · rw [unchanged]
      exact exact.nonneg
    · rw [unchanged, received]
      exact Int.le_trans exact.sent (by exact_mod_cast message.length_le_result)
    · intro position member
      rw [after, mem_toList] at member
      rw [unchanged, received]
      exact sent.sound_of_exchange sound.2.1 shorter position member

theorem Exact.step (exact : Exact config upload) (stepTo : upload.step config action = some next) :
    Exact config next := by
  rcases Upload.step_cases stepTo with
    ⟨inner, rfl, moved, unchanged, notInFlight⟩ |
    ⟨sender, message, content, start, rfl, inFlight, moved, received⟩
  · exact exact.trace_step moved unchanged notInFlight
  · exact exact.exchange_step inFlight moved received
variable {actions : List UploadAction}

def FinishPc.inFlight (pc : FinishPc) : Bool :=
  pc.patchPc.any PatchPc.isInFlight

def issuesFinalPatch (upload next : Upload) : Bool :=
  next.system.finishers.any FinishPc.inFlight &&
    !upload.system.finishers.any FinishPc.inFlight

def finalPatches (config : Config) (upload : Upload) (actions : List UploadAction) : Nat :=
  count (Upload.step config) issuesFinalPatch upload actions

/-- How many patches `finalTraceUpdate` can still issue while all exchanges are
delivered: one for each missing byte, and one to learn the coordinator's length
if the offset is behind. -/
def FinishPc.remaining (client : Client) (coordinator : List UInt8) : FinishPc → Nat
  | .patch (.inFlight _ start) =>
    if start = coordinator.length then client.trace.length - coordinator.length - 1
    else client.trace.length - coordinator.length
  | .patch (.store _ _ _) => client.trace.length - coordinator.length
  | .anyTraceToSend | .patch .read =>
    if client.sentTrace = coordinator.length then client.trace.length - coordinator.length
    else client.trace.length - coordinator.length + 1
  | _ => 0

def Upload.remaining (upload : Upload) : Nat :=
  (upload.system.finishers.map
    (FinishPc.remaining upload.system.client upload.coordinator)).sum

/-- The invariant together with a call in `finalTraceUpdate` or behind it. -/
structure Final (config : Config) (upload : Upload) : Prop where
  exact : Exact config upload
  handedOver : ∃ pc, upload.system.finishers = [pc] ∧ pc.handedOver = true

theorem FinishPc.remaining_le (client : Client) (coordinator : List UInt8) (pc : FinishPc) :
    pc.remaining client coordinator ≤ client.trace.length - coordinator.length + 1 := by
  unfold FinishPc.remaining
  split <;> first | omega | (split <;> omega)

theorem FinishPc.closed_of_handedOver (handedOver : pc.handedOver = true) : pc.closed = true := by
  cases pc <;> first | rfl | cases handedOver

/-- What an action can do once `finish` has handed over: an action of the
`sendPatch` of the only call, or one that keeps the client or sends the status. -/
theorem Ordered.final_step {system next : System} {action : Action}
    (ordered : Ordered system) (one : system.finishers = [pc]) (handedOver : pc.handedOver = true)
    (stepTo : JobTrace.step config system action = some next) :
    (∃ patchPc result, pc = .patch patchPc ∧ system.patchOf action = some patchPc ∧
      PatchStep config system.client patchPc action.input next.client result ∧
      next.finishers = [finishPatch result]) ∨
    (system.patchOf action = none ∧
      (next.client = system.client ∧ next.finishers = [pc] ∨
        pc = .anyTraceToSend ∧ next.client = system.client ∧
          next.finishers = [.patch .read] ∨
        pc = .anyTraceToSend ∧ next.finishers = [.update true (.read true)] ∨
        ∃ complete result, next.finishers = [finishUpdate complete result])) := by
  have first : system.finishers[0]? = some pc := by simp [one]
  obtain ⟨-, -, decided, closed, done⟩ := ordered.of_position first
  have watcher := done handedOver
  cases transition_of_step stepTo with
  | grew isOpen bounded =>
    rw [FinishPc.closed_of_handedOver handedOver] at closed
    exact absurd (isOpen.symm.trans closed) (by decide)
  | cancelFuncSet | failIgnored => exact .inr ⟨rfl, .inl ⟨rfl, one⟩⟩
  | failDecides undecided => exact absurd undecided decided
  | timerFired waiting => simp [watcher] at waiting
  | watchPatched position | watchUpdated position => simp [watcher] at position
  | closed position | handedOver position =>
    obtain ⟨rfl, same, -⟩ := ordered.of_position position
    simp only [one, List.cons.injEq, and_true] at same
    subst same
    cases handedOver
  | traceLeft position left =>
    have actor := system.patchOf_of_position position .nothing
    obtain ⟨rfl, same, -⟩ := ordered.of_position position
    simp only [one, List.cons.injEq, and_true] at same
    exact .inr ⟨actor, .inr (.inl ⟨same, rfl, by simp [one]⟩)⟩
  | traceSent position allSent =>
    have actor := system.patchOf_of_position position .nothing
    obtain ⟨rfl, same, -⟩ := ordered.of_position position
    simp only [one, List.cons.injEq, and_true] at same
    exact .inr ⟨actor, .inr (.inr (.inl ⟨same, by simp [one]⟩))⟩
  | @finishPatched index patchPc input client result position sent =>
    obtain ⟨rfl, same, -⟩ := ordered.of_position position
    simp only [one, List.cons.injEq, and_true] at same
    have actor := system.patchOf_of_position position input
    exact .inl ⟨patchPc, result, same, actor, sent, by simp [one]⟩
  | @finishUpdated index complete updatePc input client result position sent =>
    have actor := system.patchOf_of_position position input
    obtain ⟨rfl, -⟩ := ordered.of_position position
    exact .inr ⟨actor, .inr (.inr (.inr ⟨complete, result, by simp [one]⟩))⟩

theorem inFlight_finishPatch (result : PatchResult) :
    (finishPatch result).inFlight = result.patchPc.any PatchPc.isInFlight := by
  rw [FinishPc.inFlight, (finishPatch_next result).2.2.1]

theorem inFlight_finishUpdate (complete : Bool) (result : UpdateResult) :
    (finishUpdate complete result).inFlight = false := by
  rw [FinishPc.inFlight, (finishUpdate_next complete result).2.2.1]
  rfl

theorem PatchStep.remaining_le {next : Client} {pc : PatchPc}
    (sent : PatchStep config client pc input next result)
    (sound : pc.Sound config client coordinator)
    (notInFlight : ∀ content start, pc ≠ .inFlight content start) :
    (finishPatch result).inFlight.toNat + (finishPatch result).remaining next coordinator ≤
      (FinishPc.patch pc).remaining client coordinator := by
  rw [inFlight_finishPatch]
  cases sent with
  | upToDate | outOfRange => simp [PatchResult.patchPc, finishPatch, FinishPc.remaining]
  | snapshot atLeast below =>
    simp only [PatchResult.patchPc, finishPatch, FinishPc.remaining, any_some,
      PatchPc.isInFlight, Bool.toNat_true]
    split <;> omega
  | settled | refused => exact absurd rfl (notInFlight _ _)
  | @stored sentOffset state reached =>
    simp only [PatchPc.Sound] at sound
    cases state <;>
      simp [PatchResult.patchPc, finishPatch, FinishPc.remaining, sound]

/-- A delivered exchange brings the log forward, corrects the offset, or ends
`finalTraceUpdate`. -/
theorem PatchStep.remaining_le_of_exchange {next : Client}
    (sent : PatchStep config client (.inFlight content start)
      (.outcome (message.result coordinator content start).2) next result)
    (nonempty : content ≠ []) (delivered : message.delivered = true) :
    (finishPatch result).inFlight = false ∧
      (finishPatch result).remaining client (message.result coordinator content start).1 ≤
        (FinishPc.patch (.inFlight content start)).remaining client coordinator := by
  rw [inFlight_finishPatch]
  cases sent with
  | settled returned known =>
    refine ⟨rfl, ?_⟩
    have hasContent := length_pos_iff.mpr nonempty
    obtain ⟨remoteState, rfl⟩ := (answered_of_known nonempty returned known).1
    simp only [finishPatch, FinishPc.remaining, result, receive]
    split
    · rw [length_append]
      omega
    · exact Nat.le_refl _
  | refused returned unknown =>
    refine ⟨rfl, ?_⟩
    rcases state_of_delivered nonempty delivered returned unknown with
      rfl | rfl
    · exact Nat.zero_le _
    · exact Nat.zero_le _

theorem Upload.remaining_of_one (one : upload.system.finishers = [pc]) :
    upload.remaining = pc.remaining upload.system.client upload.coordinator := by
  simp [Upload.remaining, one]

theorem issuesFinalPatch_same (same : next.system.finishers = upload.system.finishers) :
    issuesFinalPatch upload next = false := by
  simp [issuesFinalPatch, same]

/-- An action of the only call that pays for the patch it issues. -/
theorem Final.of_paid {before after : FinishPc}
    (exact : Exact config next) (one : upload.system.finishers = [before])
    (same : next.system.finishers = [after]) (handedOver : after.handedOver = true)
    (paid : after.inFlight.toNat + after.remaining next.system.client next.coordinator ≤
      before.remaining upload.system.client upload.coordinator) :
    Final config next ∧
      (issuesFinalPatch upload next).toNat + next.remaining ≤ upload.remaining := by
  refine ⟨⟨exact, after, same, handedOver⟩, ?_⟩
  have issued : (issuesFinalPatch upload next).toNat ≤ after.inFlight.toNat := by
    simp only [issuesFinalPatch, same, any_cons, any_nil, Bool.or_false]
    cases after.inFlight with
    | false => simp
    | true => exact Bool.toNat_le _
  rw [Upload.remaining_of_one one, Upload.remaining_of_one same]
  omega

/-- Once `finish` has handed over it stays so, and a delivered action pays for
the patch it issues. -/
theorem Final.step (final : Final config upload) (delivered : action.delivered = true)
    (stepTo : upload.step config action = some next) :
    Final config next ∧
      (issuesFinalPatch upload next).toNat + next.remaining ≤ upload.remaining := by
  have exact := final.exact
  obtain ⟨pc, one, handedOver⟩ := final.handedOver
  have exactNext := exact.step stepTo
  rcases Upload.step_cases stepTo with
    ⟨inner, rfl, moved, unchanged, notInFlight⟩ |
    ⟨sender, message, content, start, rfl, inFlight, moved, received⟩
  · rcases exact.ordered.final_step one handedOver moved with
      ⟨patchPc, result, rfl, actor, sent, same⟩ | ⟨-, ⟨client, same⟩ |
        ⟨rfl, client, same⟩ | ⟨rfl, same⟩ | ⟨complete, result, same⟩⟩
    · refine Final.of_paid exactNext one same (finishPatch_next result).2.1 ?_
      rw [unchanged]
      have member : patchPc ∈ upload.system.sending := by
        simp [System.sending, one, FinishPc.patchPc]
      refine sent.remaining_le (exact.sending patchPc member) ?_
      intro content start same
      exact notInFlight content start (by rw [actor, same])
    · refine ⟨⟨exactNext, pc, same, handedOver⟩, ?_⟩
      rw [Upload.remaining_of_one one, Upload.remaining_of_one same, client, unchanged,
        issuesFinalPatch_same (same.trans one.symm)]
      exact Nat.le_of_eq (Nat.zero_add _)
    · refine Final.of_paid exactNext one same rfl ?_
      rw [client, unchanged]
      exact Nat.le_of_eq (Nat.zero_add _)
    · exact Final.of_paid exactNext one same rfl (Nat.zero_le _)
    · refine Final.of_paid exactNext one same (finishUpdate_next complete result).2.1 ?_
      rw [inFlight_finishUpdate]
      fun_cases finishUpdate complete result <;> exact Nat.zero_le _
  · rcases exact.ordered.final_step one handedOver moved with
      ⟨patchPc, result, rfl, actor, sent, same⟩ | ⟨idle, -⟩
    · rw [patchOf_action, inFlight, some.injEq] at actor
      subst actor
      rw [input_action] at sent
      have member : PatchPc.inFlight content start ∈ upload.system.sending := by
        simp [System.sending, one, FinishPc.patchPc]
      obtain ⟨idle, paid⟩ := sent.remaining_le_of_exchange (exact.sending _ member).2.1 delivered
      refine Final.of_paid exactNext one same (finishPatch_next result).2.1 ?_
      rw [idle, received, sent.client_of_inFlight]
      exact Nat.le_trans (Nat.le_of_eq (Nat.zero_add _)) paid
    · rw [patchOf_action, inFlight] at idle
      cases idle

variable {last : Upload}

/-- Along delivered actions `finalTraceUpdate` issues no more patches than there
are bytes missing, and one. -/
theorem Final.patches_le (final : Final config upload)
    (delivered : ∀ action ∈ actions, action.delivered = true)
    (reached : run (Upload.step config) upload actions = some last) :
    finalPatches config upload actions ≤
      upload.system.client.trace.length - upload.coordinator.length + 1 := by
  have bound : finalPatches config upload actions + last.remaining ≤ upload.remaining :=
    count_add_le Upload.remaining
    (fun _ _ _ final delivered stepTo => (Final.step final delivered stepTo).1)
    (fun _ _ _ final delivered stepTo => (Final.step final delivered stepTo).2)
    final (meetsAlong_of_forall (fun action member _ => delivered action member) upload) reached
  obtain ⟨pc, one, -⟩ := final.handedOver
  rw [Upload.remaining_of_one one] at bound
  have := pc.remaining_le upload.system.client upload.coordinator
  omega

/-- A patch of `finalTraceUpdate` is only in flight if it was so before or if
the call was already in `sendPatch`. -/
theorem Ordered.inFlight_of_step {system next : System} {action : Action} (ordered : Ordered system)
    (stepTo : JobTrace.step config system action = some next)
    (inFlight : next.finishers.any FinishPc.inFlight = true) :
    next.finishers = system.finishers ∨ ∃ patchPc, system.finishers = [.patch patchPc] := by
  cases transition_of_step stepTo with
  | grew | cancelFuncSet | failIgnored | timerFired | watchPatched | watchUpdated => exact .inl rfl
  | failDecides undecided =>
    cases ordered with
    | running _ none isOpen =>
      rw [none] at inFlight
      cases inFlight
    | finishing pc decided => exact absurd undecided decided
  | closed position | traceLeft position | traceSent position | handedOver position =>
    obtain ⟨rfl, one, -⟩ := ordered.of_position position
    rw [one] at inFlight
    cases inFlight
  | finishPatched position sent => exact .inr ⟨_, (ordered.of_position position).2.1⟩
  | finishUpdated position sent =>
    obtain ⟨rfl, one, -⟩ := ordered.of_position position
    simp [one, inFlight_finishUpdate] at inFlight

theorem Upload.exists_step (stepTo : upload.step config action = some next) :
    ∃ inner, JobTrace.step config upload.system inner = some next.system := by
  rcases Upload.step_cases stepTo with ⟨inner, -, moved, -⟩ | ⟨_, _, _, _, -, -, moved, -⟩
  · exact ⟨inner, moved⟩
  · exact ⟨_, moved⟩

section

variable (exact : Exact config upload)

include exact

theorem Exact.trace_length_le (stepTo : upload.step config action = some next) :
    upload.system.client.trace.length ≤ next.system.client.trace.length := by
  obtain ⟨inner, moved⟩ := Upload.exists_step stepTo
  cases of_step exact.ordered moved with
  | quiet actor sentTrace trace => exact trace.length_le
  | patched actor sent => exact Nat.le_of_eq (by rw [sent.frame])

theorem Exact.trace_length_le_of_run
    (reached : run (Upload.step config) upload actions = some last) :
    upload.system.client.trace.length ≤ last.system.client.trace.length :=
  (run_invariant_of_step (fun state => Exact config state ∧
      upload.system.client.trace.length ≤ state.system.client.trace.length)
    (fun _ _ _ holds stepTo => ⟨holds.1.step stepTo,
      Nat.le_trans holds.2 (holds.1.trace_length_le stepTo)⟩) ⟨exact, Nat.le_refl _⟩ reached).2

/-- `finalTraceUpdate` issues its first patch only after the handover. -/
theorem Exact.final_of_issues (stepTo : upload.step config action = some next)
    (issues : issuesFinalPatch upload next = true) : Final config upload := by
  obtain ⟨inner, moved⟩ := Upload.exists_step stepTo
  have inFlight : next.system.finishers.any FinishPc.inFlight = true :=
    (Bool.and_eq_true_iff.mp issues).1
  rcases exact.ordered.inFlight_of_step moved inFlight with same | ⟨patchPc, one⟩
  · rw [issuesFinalPatch_same same] at issues
    cases issues
  · exact ⟨exact, _, one, rfl⟩

/-- Along delivered actions `finalTraceUpdate` issues only finitely many patches,
from whatever point on the actions are delivered. -/
theorem Exact.patches_le (delivered : ∀ action ∈ actions, action.delivered = true)
    (reached : run (Upload.step config) upload actions = some last) :
    finalPatches config upload actions ≤ last.system.client.trace.length + 1 := by
  induction actions generalizing upload with
  | nil => exact Nat.zero_le _
  | cons action actions ih =>
    by_cases final : Final config upload
    · have bound := final.patches_le delivered reached
      have grown := exact.trace_length_le_of_run reached
      omega
    · obtain ⟨next, stepTo, reachedNext⟩ := run_cons_eq_some.mp reached
      have idle : issuesFinalPatch upload next = false := by
        by_contra issues
        exact final (exact.final_of_issues stepTo (Bool.not_eq_false _ ▸ issues))
      rw [finalPatches, count_cons stepTo, idle, Bool.toNat_false, Nat.zero_add]
      exact ih (exact.step stepTo)
        (fun later member => delivered later (mem_cons_of_mem _ member)) reachedNext

end

def System.patchesInFlight (system : System) : List (List UInt8) :=
  system.sending.filterMap fun pc =>
    match pc with
    | .inFlight content _ => some content
    | _ => none

theorem Exact.patchesInFlight (exact : Exact config upload) :
    upload.system.patchesInFlight.length ≤ 1 ∧
      ∀ patch ∈ upload.system.patchesInFlight, patch.length ≤ config.maxTracePatchSize := by
  refine ⟨Nat.le_trans (length_filterMap_le _ _) exact.ordered.sending_length, ?_⟩
  intro patch member
  obtain ⟨pc, sending, content⟩ := mem_filterMap.mp member
  split at content
  · obtain rfl := some.inj content
    exact (exact.sending _ sending).2.2.1
  · cases content

/-- Trace upload is exact, in every state that the client and the coordinator
reach and from it on. -/
theorem upload_exact {upload : Upload} {actions : List UploadAction}
    (reached : run (Upload.step config) Upload.start actions = some upload) :
    upload.system.patchesInFlight.length ≤ 1 ∧
      (∀ patch ∈ upload.system.patchesInFlight,
        patch.length ≤ config.maxTracePatchSize) ∧
      upload.coordinator <+: upload.system.client.trace ∧
      (∀ pc ∈ upload.system.finishers, pc.traceSent = true →
        upload.system.client.traceClosed = true ∧
          upload.coordinator = upload.system.client.trace) ∧
      ∀ later last, (∀ action ∈ later, action.delivered = true) →
        run (Upload.step config) upload later = some last →
        finalPatches config upload later ≤ last.system.client.trace.length + 1 := by
  have exact := run_invariant_of_step (Exact config)
    (fun _ _ _ exact stepTo => exact.step stepTo) exact_start reached
  refine ⟨exact.patchesInFlight.1, exact.patchesInFlight.2, exact.received, ?_, ?_⟩
  · intro pc member complete
    obtain ⟨index, position⟩ := mem_iff_getElem?.mp member
    have closed := (exact.ordered.of_position position).2.2.2.1
    rw [(FinishPc.phase_of_traceSent complete).1] at closed
    exact ⟨closed, exact.complete pc member complete⟩
  · intro later last delivered reachedLast
    exact exact.patches_le delivered reachedLast

def lostResponseRun : List UploadAction :=
  [.trace (.grow [104, 105]), .trace (.watch .timer), .trace (.watch .nothing),
    .exchange .watcher .responseLost, .trace (.grow [33]),
    .trace (.fail true .scriptFailure), .trace (.finish 0 .nothing), .trace (.handover 0),
    .trace (.finish 0 .nothing), .trace (.finish 0 .nothing),
    .exchange (.finisher 0) (.answered "running"), .trace (.finish 0 .nothing),
    .trace (.finish 0 .nothing), .trace (.finish 0 .nothing),
    .exchange (.finisher 0) (.answered "running"), .trace (.finish 0 .nothing),
    .trace (.finish 0 .nothing)]

def lostResponseEnd : Upload where
  system :=
    { client :=
        { trace := [104, 105, 33]
          traceClosed := true
          state := .failed
          failureReason := .scriptFailure
          sentTrace := 3
          sentState := .running
          recorded := [.scriptFailure] }
      cancelFunc := false
      watcher := .done
      finishers := [.update true (.read true)] }
  coordinator := [104, 105, 33]

theorem upload_exact_lostResponse :
    run (Upload.step smallPatches) Upload.start lostResponseRun = some lostResponseEnd ∧
      lostResponseEnd.system.patchesInFlight.length ≤ 1 ∧
      lostResponseEnd.coordinator <+: lostResponseEnd.system.client.trace ∧
      lostResponseEnd.coordinator = lostResponseEnd.system.client.trace ∧
      finalPatches smallPatches lostResponseEnd [] ≤ 4 := by
  have reached : run (Upload.step smallPatches) Upload.start lostResponseRun =
      some lostResponseEnd := by decide
  obtain ⟨single, -, received, complete, finite⟩ := upload_exact reached
  exact ⟨reached, single, received,
    (complete (.update true (.read true)) (by decide) rfl).2,
    finite [] lostResponseEnd (by simp) rfl⟩

end GitlabRunner.JobTrace
