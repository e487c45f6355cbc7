import GitlabRunner.JobTraceOrder

/-!
# The end of a job as the coordinator sees it

`finish` sends the final status only after the whole log.
-/

namespace GitlabRunner.JobTrace

open Network ActionRuns Option

variable {config : Config}

/-- No response ends the job from the outside: neither `UpdateAbort` nor
`UpdateNotFound`. -/
def keepsJob (system : System) (action : Action) : Bool :=
  match action.input with
  | .outcome outcome =>
    match system.patchOf action with
    | some (.inFlight content start) =>
      (patchTrace content start outcome).2 ≠ .updateAbort &&
        (patchTrace content start outcome).2 ≠ .updateNotFound
    | _ => updateJob outcome ≠ .updateAbort && updateJob outcome ≠ .updateNotFound
  | _ => true

/-- When the watch goroutine reads the state for a status update, the job is
still running, or the log is closed and the patch before reached its end. -/
def readsStateInTime (system : System) (action : Action) : Bool :=
  match system.watcher, action with
  | .update reached (.read _), .watch (.refresh _) =>
    system.client.state = .running ||
      system.client.traceClosed && reached = system.client.trace.length
  | _, _ => true

/-- An offset about to be stored after a success is the end of the patch. -/
def PatchPc.Settled : PatchPc → Prop
  | .store sentOffset state reached =>
    state = .updateSucceeded ∧ sentOffset = reached ∨ state = .updateRangeMismatch
  | _ => True

/-- A `sendUpdate` call that has read a decided state. -/
def UpdatePc.decided : UpdatePc → Prop
  | .reason state => state ≠ .running
  | .inFlight jobInfo => jobInfo.state ≠ .running
  | _ => False

def Client.Acknowledged (client : Client) : Prop :=
  client.traceClosed = true ∧ client.sentTrace = client.trace.length

/-- Whoever tells that the job is over does so after the log. -/
structure LogFirst (system : System) : Prop where
  ordered : Ordered system
  settled : ∀ pc ∈ system.sending, pc.Settled
  watching : ∀ reached pc, system.watcher = .update reached pc →
    system.client.sentTrace = reached ∧ (pc.decided → system.client.Acknowledged)
  finishing : ∀ complete pc, .update complete pc ∈ system.finishers →
    system.client.Acknowledged

theorem logFirst_start : LogFirst start where
  ordered := ordered_start
  settled := by simp [start, System.sending, WatchPc.patchPc]
  watching := by simp [start]
  finishing := by simp [start]

theorem offset_of_succeeded {content : List UInt8} {start sentOffset : Int} {outcome : Outcome}
    (returned : patchTrace content start outcome = (sentOffset, .updateSucceeded)) :
    sentOffset = start + content.length := by
  by_cases nonempty : content = []
  · subst nonempty
    cases returned
    simp
  · rcases patchTrace_cases nonempty returned with
      ⟨-, endOffset, -⟩ | ⟨mismatch, -⟩ | ⟨notSucceeded, -⟩
    · exact endOffset
    · cases mismatch
    · exact absurd rfl notSucceeded
variable {client next : Client} {input : Input} {result : PatchResult}

theorem PatchStep.settled_next {pc after : PatchPc}
    (sent : PatchStep config client pc input next result)
    (moved : result.patchPc = some after) : after.Settled := by
  cases sent with
  | upToDate | outOfRange | refused | stored => cases moved
  | snapshot nonneg below =>
    obtain rfl := some.inj moved
    trivial
  | settled returned known =>
    obtain rfl := some.inj moved
    rcases known with rfl | rfl
    · exact .inl ⟨rfl, offset_of_succeeded returned⟩
    · exact .inr rfl
variable {system : System} {action : Action}

theorem LogFirst.settled_step {next : System} (logFirst : LogFirst system)
    (stepTo : JobTrace.step config system action = some next) :
    ∀ pc ∈ next.sending, pc.Settled := by
  intro pc member
  cases SenderStep.of_step logFirst.ordered stepTo with
  | quiet actor sentTrace trace sending =>
    rcases sending pc member with rfl | before
    · trivial
    · exact logFirst.settled pc before
  | patched actor sent before after =>
    rw [after, mem_toList] at member
    exact sent.settled_next member

theorem afterIncrementalUpdate_ne_update (cancelFunc : Bool) (state : UpdateState)
    (reached : Int) (pc : UpdatePc) :
    (afterIncrementalUpdate cancelFunc state).2 ≠ .update reached pc := by
  fun_cases afterIncrementalUpdate cancelFunc state <;> rintro ⟨⟩

variable {after : UpdatePc}

/-- `sendPatch` in the watch goroutine: the status update after it starts at the
offset that was stored. -/
theorem PatchStep.watching {pc : PatchPc} {cancelFunc : Bool} {reached : Int}
    (sent : PatchStep config client pc input next result) (settled : pc.Settled)
    (moved : (watchPatch cancelFunc result).2 = .update reached after) :
    next.sentTrace = reached ∧ after = .read false := by
  cases result with
  | next | panics => cases moved
  | returns state finish =>
    simp only [watchPatch] at moved
    split at moved
    · exact absurd moved (afterIncrementalUpdate_ne_update _ _ _ _)
    · rename_i succeeded
      rw [not_not] at succeeded
      subst succeeded
      cases moved
      cases sent with
      | upToDate allSent => exact ⟨rfl, rfl⟩
      | refused returned unknown => exact absurd (.inl rfl) unknown
      | stored =>
        rcases settled with ⟨-, same⟩ | mismatch
        · exact ⟨same, rfl⟩
        · cases mismatch

variable {pc : UpdatePc}

/-- `sendUpdate` in the watch goroutine: the state it carries was read in time. -/
theorem UpdateStep.watching {result : UpdateResult} {cancelFunc : Bool} {reached reachedNext : Int}
    (sent : UpdateStep config client pc input next result)
    (acknowledged : pc.decided → client.Acknowledged)
    (inTime : ∀ force shouldRefresh, pc = .read force → input = .refresh shouldRefresh →
      client.state ≠ .running → client.Acknowledged)
    (moved : (watchUpdate cancelFunc reached result).2 = .update reachedNext after) :
    reachedNext = reached ∧ (after.decided → client.Acknowledged) := by
  cases sent with
  | skipped | refused | stored => exact absurd moved (afterIncrementalUpdate_ne_update _ _ _ _)
  | stateRead needed =>
    cases moved
    exact ⟨rfl, inTime _ _ rfl rfl⟩
  | reasonRead =>
    cases moved
    exact ⟨rfl, acknowledged⟩
  | accepted returned =>
    cases moved
    exact ⟨rfl, False.elim⟩

variable {complete : Bool}

/-- Without `UpdateAbort` and `UpdateNotFound`, `finalTraceUpdate` does not give up. -/
theorem PatchStep.finishPatch_ne_update {pc : PatchPc}
    (sent : PatchStep config client pc input next result) (settled : pc.Settled)
    (keeps : ∀ content start outcome, pc = .inFlight content start →
      input = .outcome outcome →
      (patchTrace content start outcome).2 ≠ .updateAbort ∧
        (patchTrace content start outcome).2 ≠ .updateNotFound) :
    finishPatch result ≠ .update complete after := by
  cases sent with
  | upToDate | outOfRange | snapshot | settled => simp [finishPatch]
  | @refused content start sentOffset state outcome returned unknown =>
    obtain ⟨notAbort, notNotFound⟩ := keeps content start outcome rfl rfl
    rw [returned] at notAbort notNotFound
    cases state with
    | updateAbort => exact absurd rfl notAbort
    | updateNotFound => exact absurd rfl notNotFound
    | updateSucceeded => simp [finishPatch]
    | updateRangeMismatch => simp [finishPatch]
    | updateFailed => simp [finishPatch]
  | stored =>
    rcases settled with ⟨rfl, -⟩ | rfl
    · simp [finishPatch]
    · simp [finishPatch]

/-- A system whose watch goroutine runs has no call in `finalStatusUpdate`. -/
theorem Ordered.not_updating (ordered : Ordered system) (active : system.watcher ≠ .done) :
    .update complete pc ∉ system.finishers := by
  intro member
  obtain ⟨index, position⟩ := List.mem_iff_getElem?.mp member
  exact active ((ordered.of_position position).2.2.2.2 rfl)

/-- The clauses of `LogFirst` for a log that did not change, with the same offset. -/
theorem Client.Acknowledged.of_same (acknowledged : client.Acknowledged)
    (closed : client.traceClosed = true → next.traceClosed = true)
    (trace : next.trace = client.trace) (sentTrace : next.sentTrace = client.sentTrace) :
    next.Acknowledged := by
  obtain ⟨isClosed, allSent⟩ := acknowledged
  refine ⟨closed isClosed, ?_⟩
  rw [sentTrace, trace, allSent]

theorem LogFirst.watching_step {next : System}
    (logFirst : LogFirst system) (inTime : readsStateInTime system action = true)
    (stepTo : JobTrace.step config system action = some next) {reached : Int}
    (position : next.watcher = .update reached pc) :
    next.client.sentTrace = reached ∧ (pc.decided → next.client.Acknowledged) := by
  cases transition_of_step stepTo with
  | grew isOpen small =>
    obtain ⟨same, acknowledged⟩ := logFirst.watching reached pc position
    refine ⟨same, ?_⟩
    intro decided
    exact absurd (isOpen.symm.trans (acknowledged decided).1) (by decide)
  | cancelFuncSet | failIgnored | traceLeft | traceSent =>
    exact logFirst.watching reached pc position
  | failDecides undecided =>
    obtain ⟨same, acknowledged⟩ := logFirst.watching reached pc position
    refine ⟨(setState_sentTrace _ _ _).trans same, ?_⟩
    intro decided
    exact (acknowledged decided).of_same (fun closed => by simpa using closed)
      (setState_trace _ _ _) (setState_sentTrace _ _ _)
  | timerFired | handedOver => cases position
  | @watchPatched patchPc input client result patching sent =>
    have settled := logFirst.settled patchPc (by simp [System.sending, patching, WatchPc.patchPc])
    obtain ⟨same, rfl⟩ := sent.watching settled position
    exact ⟨same, False.elim⟩
  | @watchUpdated before updatePc input client result updating sent =>
    obtain ⟨same, acknowledged⟩ := logFirst.watching before updatePc updating
    have timely : ∀ force shouldRefresh, updatePc = .read force →
        input = .refresh shouldRefresh → system.client.state ≠ .running →
        system.client.Acknowledged := by
      rintro force shouldRefresh rfl rfl decided
      simp only [readsStateInTime, updating, decided, decide_false, Bool.false_or,
        Bool.and_eq_true, decide_eq_true_eq] at inTime
      exact ⟨inTime.1, same.trans inTime.2⟩
    obtain ⟨rfl, after⟩ := sent.watching acknowledged timely position
    refine ⟨by rw [sent.frame]; exact same, ?_⟩
    intro decided
    rw [sent.frame]
    exact (after decided).of_same id rfl rfl
  | closed finishing =>
    obtain ⟨same, acknowledged⟩ := logFirst.watching reached pc position
    exact ⟨same, fun decided => (acknowledged decided).of_same (fun _ => rfl) rfl rfl⟩
  | finishPatched finishing | finishUpdated finishing =>
    have done := (logFirst.ordered.of_position finishing).2.2.2.2 rfl
    exact absurd (done.symm.trans position) (by simp)

theorem LogFirst.finishing_step {next : System}
    (logFirst : LogFirst system) (keeps : keepsJob system action = true)
    (stepTo : JobTrace.step config system action = some next)
    (member : .update complete pc ∈ next.finishers) : next.client.Acknowledged := by
  have ordered := logFirst.ordered
  cases transition_of_step stepTo with
  | grew isOpen small =>
    have acknowledged := logFirst.finishing complete pc member
    exact absurd (isOpen.symm.trans acknowledged.1) (by decide)
  | cancelFuncSet | failIgnored => exact logFirst.finishing complete pc member
  | failDecides undecided =>
    have before : .update complete pc ∈ system.finishers := by simpa using member
    exact (logFirst.finishing complete pc before).of_same
      (fun closed => by simpa using closed) (setState_trace _ _ _)
      (setState_sentTrace _ _ _)
  | timerFired waiting => exact absurd member (ordered.not_updating (by simp [waiting]))
  | watchPatched position | watchUpdated position =>
    exact absurd member (ordered.not_updating (by simp [position]))
  | closed position | traceLeft position | handedOver position =>
    obtain ⟨rfl, one, -⟩ := ordered.of_position position
    simp [one] at member
  | traceSent position allSent => exact ⟨(ordered.of_position position).2.2.2.1, allSent.symm⟩
  | @finishPatched index patchPc input client result position sent =>
    obtain ⟨rfl, one, -⟩ := ordered.of_position position
    have settled := logFirst.settled patchPc (by simp [System.sending, one, FinishPc.patchPc])
    have kept : ∀ content start outcome, patchPc = .inFlight content start →
        input = .outcome outcome →
        (patchTrace content start outcome).2 ≠ .updateAbort ∧
          (patchTrace content start outcome).2 ≠ .updateNotFound := by
      rintro content start outcome rfl rfl
      simpa [keepsJob, Action.input, System.patchOf, position, FinishPc.patchPc] using keeps
    simp only [one, List.set_cons_zero, List.mem_singleton] at member
    exact absurd member.symm (sent.finishPatch_ne_update settled kept)
  | finishUpdated position sent =>
    have acknowledged := logFirst.finishing _ _ (List.mem_of_getElem? position)
    rw [sent.frame]
    exact acknowledged.of_same id rfl rfl

/-- Every action that reads the state in time and keeps the job keeps the order
of log and status. -/
theorem LogFirst.step {next : System} (logFirst : LogFirst system)
    (keeps : keepsJob system action = true)
    (inTime : readsStateInTime system action = true)
    (stepTo : JobTrace.step config system action = some next) : LogFirst next where
  ordered := logFirst.ordered.step stepTo
  settled := logFirst.settled_step stepTo
  watching _ _ := logFirst.watching_step inTime stepTo
  finishing _ _ := logFirst.finishing_step keeps stepTo

theorem LogFirst.acknowledged (logFirst : LogFirst system)
    {jobInfo : UpdateJobInfo} (member : jobInfo ∈ system.updatesInFlight)
    (isOver : jobInfo.state ≠ .running) : system.client.Acknowledged := by
  obtain ⟨pc, updating, inFlight⟩ := List.mem_filterMap.mp member
  obtain rfl := UpdatePc.eq_inFlight inFlight
  rcases List.mem_append.mp updating with watching | finishing
  · obtain ⟨reached, position⟩ := WatchPc.eq_update (mem_toList.mp watching)
    exact (logFirst.watching reached _ position).2 isOver
  · obtain ⟨finisher, found, position⟩ := List.mem_filterMap.mp finishing
    obtain ⟨complete, rfl⟩ := FinishPc.eq_update position
    exact logFirst.finishing complete _ found

/-- Along every run in which no response is an abort or a missing job and the
watch goroutine reads the state in time, the coordinator is told that the job is
over only after the log is closed and acknowledged. -/
theorem over_after_log {system : System} {actions : List Action}
    (meets : MeetsAlong (step config) (fun state action => keepsJob state action = true ∧
        readsStateInTime state action = true) start actions)
    (reached : run (step config) start actions = some system) :
    ∀ jobInfo ∈ system.updatesInFlight, jobInfo.state ≠ .running →
      system.client.traceClosed = true ∧
        system.client.sentTrace = system.client.trace.length := by
  intro jobInfo member isOver
  have logFirst := run_invariant LogFirst
    (fun _ _ _ logFirst meets stepTo => logFirst.step meets.1 meets.2 stepTo)
    logFirst_start meets reached
  exact logFirst.acknowledged member isOver

def successRun : List Action :=
  [.grow [104], .fail false .noneFailure, .finish 0 .nothing, .handover 0,
    .finish 0 .nothing, .finish 0 .nothing,
    .finish 0 (.outcome (.response ⟨202, "running", "0-1"⟩)), .finish 0 .nothing,
    .finish 0 .nothing, .finish 0 (.refresh false), .finish 0 .nothing]

def successEnd : System where
  client :=
    { start.client with
      trace := [104], traceClosed := true, state := .success, sentTrace := 1 }
  cancelFunc := false
  watcher := .done
  finishers := [.update true (.inFlight ⟨1, .success, .noneFailure⟩)]

theorem over_after_log_success :
    run (step smallPatches) start successRun = some successEnd ∧
      successEnd.client.traceClosed = true ∧
        successEnd.client.sentTrace = successEnd.client.trace.length := by
  have reached : run (step smallPatches) start successRun =
      some successEnd := by decide
  exact ⟨reached, over_after_log (by decide) reached ⟨1, .success, .noneFailure⟩
    (by decide) (by decide)⟩

def earlyStatusRun : List Action :=
  [.grow [104], .watch .timer, .watch .nothing,
    .watch (.outcome (.response ⟨202, "running", "0-1"⟩)), .watch .nothing,
    .fail true .scriptFailure, .watch (.refresh false), .watch .nothing, .grow [105]]

/-- The watch goroutine can tell the coordinator that the job is over while the
log is open and not yet sent. -/
theorem over_before_log :
    ¬∀ (config : Config) (actions : List Action) (system : System),
      MeetsAlong (step config) (fun state action => keepsJob state action = true) start actions →
      run (step config) start actions = some system →
      ∀ jobInfo ∈ system.updatesInFlight, jobInfo.state ≠ .running →
        system.client.traceClosed = true ∧
          system.client.sentTrace = system.client.trace.length := by
  intro afterLog
  have reached : run (step smallPatches) start earlyStatusRun =
      some { client :=
               { start.client with
                 trace := [104, 105]
                 state := .failed
                 failureReason := .scriptFailure
                 sentTrace := 1
                 recorded := [.scriptFailure] }
             cancelFunc := false
             watcher := .update 1 (.inFlight ⟨1, .failed, .scriptFailure⟩)
             finishers := [.close] } := by decide
  have early := afterLog _ _ _ (by decide) reached ⟨1, .failed, .scriptFailure⟩
    (by decide) (by decide)
  exact absurd early.1 (by decide)

end GitlabRunner.JobTrace
