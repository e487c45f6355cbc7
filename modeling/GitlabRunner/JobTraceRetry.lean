import GitlabRunner.JobTraceStatus

/-!
# Retries of the final job status

`finalStatusUpdate` sends the status of a finished job until the coordinator has taken it or
has refused it for good.
-/

namespace GitlabRunner

open List ActionRuns Option

namespace Network

/-- `doJSON`, for a request whose response has no body to decode: the result code
and the response. -/
def doJSON : Outcome → Int × Option Response
  | .clientError => (clientErrorCode, none)
  | .transportError => (-1, none)
  | .response response => (response.statusCode, some response)

structure RemoteJobStateResponse where
  statusCode : Int
  remoteState : String
  deriving DecidableEq, Repr

def newRemoteJobStateResponse : Option Response → RemoteJobStateResponse
  | none => ⟨0, ""⟩
  | some response => ⟨response.statusCode, response.remoteState⟩

def RemoteJobStateResponse.isAborted (remote : RemoteJobStateResponse) : Bool :=
  if remote.remoteState = "canceled" ∨ remote.remoteState = "failed" then true
  else if remote.statusCode = statusForbidden then true
  else false

/-- The `switch` of `UpdateJob`. -/
def updateState (result : Int) (remote : RemoteJobStateResponse) : UpdateState :=
  if remote.isAborted then .updateAbort
  else if result = statusOK then .updateSucceeded
  else if result = statusNotFound then .updateAbort
  else if result = statusForbidden then .updateAbort
  else if result = clientErrorCode then .updateAbort
  else .updateFailed

theorem updateState_doJSON (outcome : Outcome) :
    updateState (doJSON outcome).1 (newRemoteJobStateResponse (doJSON outcome).2) =
      updateJob outcome := by
  cases outcome with
  | clientError | transportError => decide
  | response response => rfl

/-- A response has the status code of an HTTP response, which has no sign. -/
def Outcome.IsHttp : Outcome → Prop
  | .response answer => 0 ≤ answer.statusCode
  | _ => True

/-- The outcomes after which a status need not be sent again: it was taken, the job
was refused, or no client can be made. -/
def Outcome.definitive : Outcome → Bool
  | .clientError => true
  | .transportError => false
  | .response answer =>
    answer.statusCode = statusOK ∨ answer.remoteState = "canceled" ∨
      answer.remoteState = "failed" ∨ answer.statusCode = statusForbidden ∨
      answer.statusCode = statusNotFound

/-- `UpdateJob` asks for a retry exactly after the other outcomes. -/
theorem updateJob_eq_updateFailed_iff {outcome : Outcome} (http : outcome.IsHttp) :
    updateJob outcome = .updateFailed ↔ outcome.definitive = false := by
  cases outcome with
  | clientError | transportError => decide
  | response response =>
    have signless : response.statusCode ≠ clientErrorCode := by
      intro negative
      have nonnegative : 0 ≤ response.statusCode := http
      rw [negative] at nonnegative
      revert nonnegative
      decide
    simp only [updateJob, Response.isAborted, Outcome.definitive, signless, if_false,
      decide_eq_false_iff_not, not_or]
    by_cases aborted : response.remoteState = "canceled" ∨ response.remoteState = "failed"
    · have notLive : ¬(response.remoteState ≠ "canceled" ∧ response.remoteState ≠ "failed") :=
        fun live => aborted.elim live.1 live.2
      simp only [aborted, if_true]
      constructor
      · intro impossible
        cases impossible
      · intro other
        exact (notLive ⟨other.2.1, other.2.2.1⟩).elim
    · rw [not_or] at aborted
      by_cases forbidden : response.statusCode = statusForbidden
      · simp [aborted, forbidden]
      · by_cases accepted : response.statusCode = statusOK
        · simp only [aborted, accepted]
          decide
        · by_cases notFound : response.statusCode = statusNotFound
          · simp only [aborted, notFound]
            decide
          · simp [aborted, forbidden, accepted, notFound]

end Network

namespace JobTrace

open Network

variable {config : Config} {index : Nat} {next : System} {action : Action}
  {requests : List (UpdateJobInfo × Outcome)}

/-- A trace with the requests that `finalStatusUpdate` has made, each with its
outcome. -/
structure Requested where
  system : System
  requests : List (UpdateJobInfo × Outcome)
  deriving DecidableEq

def System.answered (system : System) : Action → Option (UpdateJobInfo × Outcome)
  | .finish index (.outcome outcome) =>
    match system.finishers[index]? with
    | some (.update _ (.inFlight jobInfo)) => some (jobInfo, outcome)
    | _ => none
  | _ => none

/-- One action of the trace; an answered request is recorded. -/
def Requested.step (config : Config) (state : Requested) (action : Action) :
    Option Requested :=
  (JobTrace.step config state.system action).map fun next =>
    ⟨next, state.requests ++ (state.system.answered action).toList⟩

def Requested.start : Requested :=
  ⟨JobTrace.start, []⟩

def Client.jobInfo (config : Config) (client : Client) : UpdateJobInfo :=
  ⟨config.id, client.state, client.failureReason⟩

def Undecided (requests : List (UpdateJobInfo × Outcome)) : Prop :=
  ∀ request ∈ requests, request.2.definitive = false

/-- The last request had a definitive outcome, and no one before it. -/
def Settled (requests : List (UpdateJobInfo × Outcome)) : Prop :=
  ∃ earlier last, requests = earlier ++ [last] ∧ Undecided earlier ∧
    last.2.definitive = true

def Action.IsHttp : Action → Prop
  | .finish _ (.outcome outcome) => outcome.IsHttp
  | _ => True

/-- What the requests say about the position of `finish`: the loop is left exactly
after a definitive outcome, and a request on its way carries the status. -/
def FinishPc.Accounts (jobInfo : UpdateJobInfo) (requests : List (UpdateJobInfo × Outcome)) :
    FinishPc → Prop
  | .update _ (.read force) => force = true ∧ Undecided requests
  | .update _ (.reason state) => state = jobInfo.state ∧ Undecided requests
  | .update _ (.inFlight sent) => sent = jobInfo ∧ Undecided requests
  | .update _ (.store _) => Settled requests
  | .done _ => Settled requests
  | _ => requests = []

/-- The requests of `finalStatusUpdate` carry the status of the trace, and they
account for the position of the call in `finish`. -/
structure Requested.Sound (config : Config) (state : Requested) : Prop where
  ordered : Ordered state.system
  same : ∀ request ∈ state.requests, request.1 = state.system.client.jobInfo config
  before : state.system.finishers = [] → state.requests = []
  accounts : ∀ pc ∈ state.system.finishers,
    pc.Accounts (state.system.client.jobInfo config) state.requests

theorem sound_start : Requested.start.Sound config where
  ordered := ordered_start
  same := by
    intro request member
    cases member
  before := fun _ => rfl
  accounts := by
    intro pc member
    cases member
variable {state : Requested}

theorem Requested.Sound.of_same (sound : state.Sound config) (ordered : Ordered next)
    (unanswered : state.system.answered action = none)
    (finishers : next.finishers = state.system.finishers)
    (jobInfo : next.client.jobInfo config = state.system.client.jobInfo config) :
    Requested.Sound config ⟨next, state.requests ++ (state.system.answered action).toList⟩ := by
  rw [unanswered, toList_none, append_nil]
  constructor
  · exact ordered
  · rw [jobInfo]
    exact sound.same
  · rw [finishers]
    exact sound.before
  · rw [finishers, jobInfo]
    exact sound.accounts

theorem Requested.Sound.of_finisher (sound : state.Sound config) {before after : FinishPc}
    {answered : List (UpdateJobInfo × Outcome)}
    (position : state.system.finishers[index]? = some before) (ordered : Ordered next)
    (finishers : next.finishers = state.system.finishers.set index after)
    (jobInfo : next.client.jobInfo config = state.system.client.jobInfo config)
    (carried : before.Accounts (state.system.client.jobInfo config) state.requests →
      ∀ request ∈ answered, request.1 = state.system.client.jobInfo config)
    (accounts : before.Accounts (state.system.client.jobInfo config) state.requests →
      after.Accounts (state.system.client.jobInfo config) (state.requests ++ answered)) :
    Requested.Sound config ⟨next, state.requests ++ answered⟩ := by
  obtain ⟨rfl, one, -⟩ := sound.ordered.of_position position
  have single : next.finishers = [after] := by
    rw [finishers, one]
    rfl
  have earlier := sound.accounts before (mem_of_getElem? position)
  constructor
  · exact ordered
  · intro request member
    rw [jobInfo]
    rcases mem_append.mp member with old | new
    · exact sound.same request old
    · exact carried earlier request new
  · intro empty
    rw [single] at empty
    cases empty
  · intro pc member
    rw [single, mem_singleton] at member
    rw [member, jobInfo]
    exact accounts earlier

theorem Requested.Sound.of_finisher_unanswered (sound : state.Sound config)
    {before after : FinishPc} (position : state.system.finishers[index]? = some before)
    (unanswered : state.system.answered action = none) (ordered : Ordered next)
    (finishers : next.finishers = state.system.finishers.set index after)
    (jobInfo : next.client.jobInfo config = state.system.client.jobInfo config)
    (accounts : before.Accounts (state.system.client.jobInfo config) state.requests →
      after.Accounts (state.system.client.jobInfo config) state.requests) :
    Requested.Sound config ⟨next, state.requests ++ (state.system.answered action).toList⟩ := by
  rw [unanswered]
  apply sound.of_finisher position ordered finishers jobInfo
  · intro _ request member
    cases member
  · intro earlier
    rw [toList_none, append_nil]
    exact accounts earlier

theorem answered_of_not_inFlight {system : System} {pc : FinishPc}
    (position : system.finishers[index]? = some pc)
    (waiting : ∀ complete jobInfo, pc ≠ .update complete (.inFlight jobInfo))
    (input : Input) : system.answered (.finish index input) = none := by
  cases input with
  | outcome outcome =>
    simp only [System.answered, position]
    split
    · rename_i complete jobInfo same
      exact (waiting complete jobInfo (some.inj same)).elim
    · rfl
  | nothing | timer | refresh => rfl

theorem answered_inFlight {system : System} {complete : Bool} {jobInfo : UpdateJobInfo}
    (position : system.finishers[index]? = some (.update complete (.inFlight jobInfo)))
    (outcome : Outcome) :
    system.answered (.finish index (.outcome outcome)) = some (jobInfo, outcome) := by
  simp only [System.answered, position]

theorem undecided_nil : Undecided [] := by
  intro request member
  cases member

theorem finishPatch_accounts {jobInfo : UpdateJobInfo} (result : PatchResult) :
    (finishPatch result).Accounts jobInfo [] := by
  cases result with
  | next | panics => rfl
  | returns state reached =>
    cases state with
    | updateSucceeded => rfl
    | updateAbort => exact ⟨rfl, undecided_nil⟩
    | updateNotFound => exact ⟨rfl, undecided_nil⟩
    | updateRangeMismatch => rfl
    | updateFailed => rfl

theorem Undecided.append (undecided : Undecided requests) {request : UpdateJobInfo × Outcome}
    (transient : request.2.definitive = false) : Undecided (requests ++ [request]) := by
  intro other member
  rcases mem_append.mp member with earlier | last
  · exact undecided other earlier
  · rw [mem_singleton.mp last]
    exact transient

theorem finishUpdate_accounts {outcome : Outcome} (http : outcome.IsHttp)
    (undecided : Undecided requests) (complete : Bool) (jobInfo : UpdateJobInfo) :
    (finishUpdate complete (.returns (updateJob outcome))).Accounts jobInfo
      (requests ++ [(jobInfo, outcome)]) := by
  by_cases transient : outcome.definitive = false
  · rw [(updateJob_eq_updateFailed_iff http).mpr transient]
    exact ⟨rfl, undecided.append transient⟩
  · have settled : Settled (requests ++ [(jobInfo, outcome)]) :=
      ⟨requests, _, rfl, undecided, by simpa using transient⟩
    have stops : updateJob outcome ≠ .updateFailed := by
      intro failed
      exact transient ((updateJob_eq_updateFailed_iff http).mp failed)
    cases returned : updateJob outcome with
    | updateFailed => exact (stops returned).elim
    | updateSucceeded | updateAbort | updateNotFound | updateRangeMismatch => exact settled

theorem Requested.Sound.updated (sound : state.Sound config) {complete : Bool} {pc : UpdatePc}
    {input : Input}
    {client : Client} {result : UpdateResult} (http : (Action.finish index input).IsHttp)
    (position : state.system.finishers[index]? = some (.update complete pc))
    (sent : UpdateStep config state.system.client pc input client result) (ordered : Ordered next)
    (finishers : next.finishers = state.system.finishers.set index (finishUpdate complete result))
    (jobInfo : next.client.jobInfo config = state.system.client.jobInfo config) :
    Requested.Sound config
      ⟨next, state.requests ++ (state.system.answered (.finish index input)).toList⟩ := by
  cases sent with
  | skipped same =>
    have earlier := sound.accounts _ (mem_of_getElem? position)
    cases earlier.1
  | stateRead needed =>
    apply sound.of_finisher_unanswered position rfl ordered finishers jobInfo
    intro earlier
    exact ⟨rfl, earlier.2⟩
  | reasonRead =>
    apply sound.of_finisher_unanswered position rfl ordered finishers jobInfo
    rintro ⟨rfl, undecided⟩
    exact ⟨rfl, undecided⟩
  | @accepted current outcome returned =>
    rw [answered_inFlight position]
    apply sound.of_finisher position ordered finishers jobInfo
    · rintro ⟨rfl, -⟩ request member
      cases mem_toList.mp member
      rfl
    · rintro ⟨rfl, undecided⟩
      have stops := finishUpdate_accounts http undecided complete
        (state.system.client.jobInfo config)
      rw [returned] at stops
      exact stops
  | @refused current outcome returned =>
    rw [answered_inFlight position]
    apply sound.of_finisher position ordered finishers jobInfo
    · rintro ⟨rfl, -⟩ request member
      cases mem_toList.mp member
      rfl
    · rintro ⟨rfl, undecided⟩
      exact finishUpdate_accounts http undecided complete _
  | stored =>
    apply sound.of_finisher_unanswered position rfl ordered finishers jobInfo
    exact id

theorem Requested.Sound.step {next : Requested} (sound : state.Sound config) (http : action.IsHttp)
    (stepTo : state.step config action = some next) : next.Sound config := by
  obtain ⟨system, moved, rfl⟩ := map_eq_some_iff.mp stepTo
  have ordered := sound.ordered.step moved
  cases transition_of_step moved with
  | grew | cancelFuncSet | failIgnored | timerFired => exact sound.of_same ordered rfl rfl rfl
  | failDecides undecided =>
    have none : state.system.finishers = [] := by
      cases sound.ordered with
      | running undecided none isOpen => exact none
      | finishing pc decided => exact absurd undecided decided
    have unsent := sound.before none
    constructor
    · exact ordered
    · simp [unsent, System.answered]
    · simp
    · simp [none, unsent, System.answered, FinishPc.Accounts]
  | watchPatched _ sent | watchUpdated _ sent =>
    apply sound.of_same ordered rfl rfl
    rw [sent.frame]
    rfl
  | closed position | traceLeft position | handedOver position =>
    exact sound.of_finisher_unanswered position rfl ordered rfl rfl id
  | traceSent position allSent =>
    apply sound.of_finisher_unanswered position rfl ordered rfl rfl
    intro unsent
    rw [show state.requests = [] from unsent]
    exact ⟨rfl, undecided_nil⟩
  | @finishPatched index pc input client result position sent =>
    apply sound.of_finisher_unanswered position
      (answered_of_not_inFlight position nofun input) ordered rfl
    · rw [sent.frame]
      rfl
    · intro unsent
      rw [show state.requests = [] from unsent]
      exact finishPatch_accounts result
  | finishUpdated position sent =>
    apply sound.updated http position sent ordered rfl
    rw [sent.frame]
    rfl

theorem Requested.Sound.of_run {actions : List Action} (http : ∀ action ∈ actions, action.IsHttp)
    (reached : run (Requested.step config) Requested.start actions = some state) :
    state.Sound config := by
  apply run_invariant (Requested.Sound config) _ sound_start _ reached
  · exact fun state action => action.IsHttp
  · intro state action next sound http stepTo
    exact sound.step http stepTo
  · apply meetsAlong_of_forall
    intro action member state
    exact http action member

/-- The actions with which `finalStatusUpdate` alone reaches its next request. -/
def UpdatePc.resending : UpdatePc → List Action
  | .read _ => [.finish 0 (.refresh false), .finish 0 .nothing]
  | .reason _ => [.finish 0 .nothing]
  | _ => []

/-- After an outcome that is not definitive, the same status is on its way again
once `finalStatusUpdate` has made its next steps, which nothing can block. -/
theorem Requested.Sound.resent (sound : state.Sound config)
    {earlier : List (UpdateJobInfo × Outcome)} {last : UpdateJobInfo × Outcome}
    (requests : state.requests = earlier ++ [last])
    (transient : last.2.definitive = false) :
    ∃ complete pc, state.system.finishers = [.update complete pc] ∧
      run (Requested.step config) state pc.resending =
        some ⟨{ state.system with finishers := [.update complete (.inFlight last.1)] },
          state.requests⟩ := by
  have unsettled : ¬Settled state.requests := by
    rw [requests]
    rintro ⟨before, decisive, same, -, definitive⟩
    cases (append_inj' same rfl).2
    rw [definitive] at transient
    cases transient
  have sentSome : state.requests ≠ [] := by
    rw [requests]
    exact concat_ne_nil last earlier
  have current := sound.same last (by rw [requests]; simp)
  rw [current]
  cases sound.ordered with
  | running undecided none isOpen => exact (sentSome (sound.before none)).elim
  | finishing pc decided one closed handover =>
    have accounts := sound.accounts pc (by rw [one]; exact mem_singleton_self pc)
    rw [one]
    cases pc with
    | update complete updatePc =>
      refine ⟨complete, updatePc, rfl, ?_⟩
      cases updatePc with
      | read force =>
        obtain ⟨rfl, -⟩ := accounts
        simp [UpdatePc.resending, run, Requested.step, JobTrace.step, one,
          finish, sendUpdate, finishUpdate, System.answered, Client.jobInfo]
      | reason read =>
        obtain ⟨rfl, -⟩ := accounts
        simp [UpdatePc.resending, run, Requested.step, JobTrace.step, one,
          finish, sendUpdate, finishUpdate, System.answered, Client.jobInfo]
      | inFlight sent =>
        obtain ⟨rfl, -⟩ := accounts
        rw [← one]
        rfl
      | store stored => exact (unsettled accounts).elim
    | done complete => exact (unsettled accounts).elim
    | close => exact (sentSome accounts).elim
    | sendFinished => exact (sentSome accounts).elim
    | anyTraceToSend => exact (sentSome accounts).elim
    | patch patchPc => exact (sentSome accounts).elim
    | panicked => exact (sentSome accounts).elim

/-- Along every run of a trace, whatever the outcomes of the requests are:
`finalStatusUpdate` sends one and the same status, it returns only after a
definitive outcome, and after every other outcome it sends the status again. -/
theorem finalStatusUpdate_retries {state : Requested} {actions : List Action}
    (http : ∀ action ∈ actions, action.IsHttp)
    (reached : run (Requested.step config) Requested.start actions = some state) :
    (∀ request ∈ state.requests, request.1 = state.system.client.jobInfo config) ∧
      (∀ complete, FinishPc.done complete ∈ state.system.finishers →
        Settled state.requests) ∧
      ∀ earlier last, state.requests = earlier ++ [last] → last.2.definitive = false →
        ∃ complete pc, state.system.finishers = [.update complete pc] ∧
          run (Requested.step config) state pc.resending = some ⟨{ state.system with
                finishers := [.update complete (.inFlight last.1)] }, state.requests⟩ := by
  have sound := Requested.Sound.of_run http reached
  constructor
  · exact sound.same
  · constructor
    · intro complete returned
      exact sound.accounts _ returned
    · intro earlier last requests transient
      exact sound.resent requests transient

/-- A failed job whose status is refused with the code 500 and then accepted. -/
def retriedRun : List Action :=
  failureRun ++ [.finish 0 (.outcome (.response ⟨500, "", ""⟩)),
    .finish 0 (.refresh false), .finish 0 .nothing,
    .finish 0 (.outcome (.response ⟨200, "", ""⟩)), .finish 0 .nothing]

def retriedEnd : Requested where
  system :=
    { failureEnd with
      client := { failureEnd.client with sentState := .failed }
      finishers := [.done true] }
  requests := [(⟨1, .failed, .scriptFailure⟩, .response ⟨500, "", ""⟩),
    (⟨1, .failed, .scriptFailure⟩, .response ⟨200, "", ""⟩)]

theorem finalStatusUpdate_retries_once :
    run (Requested.step smallPatches) Requested.start retriedRun =
        some retriedEnd ∧ Settled retriedEnd.requests := by
  have reached : run (Requested.step smallPatches) Requested.start retriedRun =
      some retriedEnd := by decide
  have http : ∀ action ∈ retriedRun, action.IsHttp := by
    simp [retriedRun, failureRun, Action.IsHttp, Outcome.IsHttp]
  have retries := finalStatusUpdate_retries http reached
  exact ⟨reached, retries.2.1 true (by decide)⟩

end JobTrace

end GitlabRunner
