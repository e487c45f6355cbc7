import GitlabRunner.JobTraceOrder

/-!
# The status of a job

The first `Success` or `Fail` call that takes the lock decides the state and the failure
reason.
-/

namespace GitlabRunner.JobTrace

open Network List ActionRuns

variable {config : Config}

abbrev Status := JobState × JobFailureReason

def decision (err : Bool) (failureReason : JobFailureReason) : Status :=
  if err then (.failed, failureReason) else (.success, .noneFailure)

def firstDecision : List Action → Option Status
  | [] => none
  | .fail err failureReason :: _ => some (decision err failureReason)
  | _ :: actions => firstDecision actions

def statusOf : Option Status → Status
  | none => (.running, .noneFailure)
  | some status => status

/-- The calls of `RecordFailure` for a decision. -/
def recordedFor (config : Config) : Option Status → List JobFailureReason
  | some (.failed, failureReason) =>
    if config.failuresCollector then [failureReason] else []
  | _ => []

/-- `Fail` does not set a reason while the watch goroutine stands between its
two reads. -/
def failsOutsideReads (system : System) (action : Action) : Bool :=
  match system.watcher, action with
  | .update _ (.reason .running), .fail true failureReason =>
    system.client.state ≠ .running || failureReason = .noneFailure
  | _, _ => true
variable {system : System} {action : Action}

theorem status_of_step {next : System} (stepTo : JobTrace.step config system action = some next) :
    (next.client.state = system.client.state ∧
      next.client.failureReason = system.client.failureReason ∧
      next.client.recorded = system.client.recorded ∧
      (system.client.state = .running → firstDecision [action] = none)) ∨
    ∃ err failureReason, action = .fail err failureReason ∧
      system.client.state = .running ∧
      next.client = setState config system.client err failureReason := by
  cases transition_of_step stepTo with
  | grew | cancelFuncSet | timerFired | closed | traceLeft | traceSent | handedOver =>
    exact .inl ⟨rfl, rfl, rfl, fun _ => rfl⟩
  | failIgnored decided => exact .inl ⟨rfl, rfl, rfl, fun running => absurd running decided⟩
  | failDecides undecided => exact .inr ⟨_, _, rfl, undecided, rfl⟩
  | watchPatched _ sent | watchUpdated _ sent | finishPatched _ sent | finishUpdated _ sent =>
    rw [sent.frame]
    exact .inl ⟨rfl, rfl, rfl, fun _ => rfl⟩

/-- A trace whose status and recorded failures are those of a decision. -/
structure HasStatus (config : Config) (client : Client) (decided : Option Status) :
    Prop where
  status : (client.state, client.failureReason) = statusOf decided
  recorded : client.recorded = recordedFor config decided

theorem hasStatus_start : HasStatus config start.client none :=
  ⟨rfl, rfl⟩
variable {client : Client}

theorem HasStatus.setState (undecided : HasStatus config client none)
    (err : Bool) (failureReason : JobFailureReason) :
    HasStatus config (JobTrace.setState config client err failureReason)
      (some (decision err failureReason)) := by
  obtain ⟨status, recorded⟩ := undecided
  simp only [statusOf, Prod.mk.injEq] at status
  simp only [recordedFor] at recorded
  cases err with
  | false => exact ⟨by simp [JobTrace.setState, statusOf, decision, status.2], recorded⟩
  | true =>
    refine ⟨rfl, ?_⟩
    cases collector : config.failuresCollector <;>
      simp [JobTrace.setState, recordedFor, decision, recorded, collector]

theorem HasStatus.of_same {next : Client} {decided : Option Status}
    (has : HasStatus config client decided) (state : next.state = client.state)
    (failureReason : next.failureReason = client.failureReason)
    (recorded : next.recorded = client.recorded) : HasStatus config next decided := by
  refine ⟨?_, recorded.trans has.recorded⟩
  rw [state, failureReason]
  exact has.status

theorem HasStatus.step_decided {next : System}
    {decided : Option Status} (has : HasStatus config system.client decided)
    (isOver : system.client.state ≠ .running) (stepTo : step config system action = some next) :
    next.client.state ≠ .running ∧ HasStatus config next.client decided := by
  rcases status_of_step stepTo with
    ⟨state, failureReason, recorded, -⟩ | ⟨err, failureReason, -, running, -⟩
  · exact ⟨by rwa [state], has.of_same state failureReason recorded⟩
  · exact absurd running isOver

theorem HasStatus.run_decided {last : System} {actions : List Action}
    {decided : Option Status} (has : HasStatus config system.client decided)
    (isOver : system.client.state ≠ .running)
    (reached : run (step config) system actions = some last) :
    HasStatus config last.client decided :=
  (run_invariant_of_step
    (fun state => state.client.state ≠ .running ∧ HasStatus config state.client decided)
    (fun _ _ _ holds stepTo => holds.2.step_decided holds.1 stepTo) ⟨isOver, has⟩ reached).2

theorem firstDecision_cons (undecided : firstDecision [action] = none) (actions : List Action) :
    firstDecision (action :: actions) = firstDecision actions := by
  cases action <;> first | rfl | cases undecided

theorem HasStatus.run {last : System} {actions : List Action}
    (undecided : HasStatus config system.client none)
    (reached : run (step config) system actions = some last) :
    HasStatus config last.client (firstDecision actions) := by
  induction actions generalizing system with
  | nil =>
    obtain rfl := Option.some.inj reached
    exact undecided
  | cons action actions ih =>
    obtain ⟨next, stepTo, reachedNext⟩ := run_cons_eq_some.mp reached
    rcases status_of_step stepTo with
      ⟨state, failureReason, recorded, notDecided⟩ |
      ⟨err, failureReason, rfl, -, decides⟩
    · have running : system.client.state = .running :=
        (Prod.mk.inj undecided.status).1
      rw [firstDecision_cons (notDecided running)]
      exact ih (undecided.of_same state failureReason recorded) reachedNext
    · have decided := undecided.setState err failureReason
      rw [← decides] at decided
      refine decided.run_decided ?_ reachedNext
      rw [decides]
      exact setState_ne_running _ _ _

/-- The reads of a `sendUpdate` call: an undecided state without a reason, or the
current status. -/
def UpdatePc.Consistent (client : Client) : UpdatePc → Prop
  | .reason state =>
    state = .running ∧ client.failureReason = .noneFailure ∨ state = client.state
  | .inFlight jobInfo =>
    jobInfo.state = .running ∧ jobInfo.failureReason = .noneFailure ∨
      jobInfo.state = client.state ∧ jobInfo.failureReason = client.failureReason
  | _ => True

/-- Every status update under way is consistent. -/
structure Consistent (system : System) : Prop where
  ordered : Ordered system
  undecided : system.client.state = .running →
    system.client.failureReason = .noneFailure
  updating : ∀ pc ∈ system.updating, pc.Consistent system.client

theorem consistent_start : Consistent start where
  ordered := ordered_start
  undecided _ := rfl
  updating := by simp [start, System.updating, WatchPc.updatePc]

variable {pc : UpdatePc}

theorem updating_of_watcher {cancelFunc : Bool}
    {watcher : WatchPc}
    (member : pc ∈ System.updating { system with
      client := client, cancelFunc := cancelFunc, watcher := watcher }) :
    watcher.updatePc = some pc ∨ pc ∈ system.updating := by
  rcases mem_append.mp member with watching | finishing
  · exact .inl (Option.mem_toList.mp watching)
  · exact .inr (mem_append_right _ finishing)

theorem updating_of_finisher {index : Nat}
    {after : FinishPc}
    (member : pc ∈ System.updating { system with
      client := client, finishers := system.finishers.set index after }) :
    after.updatePc = some pc ∨ pc ∈ system.updating := by
  rcases mem_append.mp member with watching | finishing
  · exact .inr (mem_append_left _ watching)
  · obtain ⟨finisher, found, position⟩ := mem_filterMap.mp finishing
    rcases mem_or_eq_of_mem_set found with before | rfl
    · exact .inr (mem_append_right _ (mem_filterMap.mpr ⟨finisher, before, position⟩))
    · exact .inl position

theorem updating_of_step {next : System} (stepTo : JobTrace.step config system action = some next)
    (member : pc ∈ next.updating) :
    pc ∈ system.updating ∨ (∃ force, pc = .read force) ∨
      ∃ before input, before ∈ system.updating ∧
        UpdateStep config system.client before input next.client (.next pc) := by
  cases transition_of_step stepTo with
  | grew | cancelFuncSet | failIgnored => exact .inl member
  | failDecides undecided => exact .inl (by simpa [System.updating, FinishPc.updatePc] using member)
  | timerFired waiting =>
    rcases updating_of_watcher member with new | before
    · cases new
    · exact .inl before
  | watchPatched position sent =>
    rcases updating_of_watcher member with new | before
    · exact .inr (.inl ⟨false, (watchPatch_next _ _).2.2 _ new⟩)
    · exact .inl before
  | @watchUpdated reached updatePc input client result position sent =>
    rcases updating_of_watcher member with new | before
    · obtain rfl := (watchUpdate_next _ _ _).2.2 _ new
      refine .inr (.inr ⟨updatePc, input, ?_, sent⟩)
      simp [System.updating, position, WatchPc.updatePc]
    · exact .inl before
  | closed | traceLeft =>
    rcases updating_of_finisher member with new | before
    · cases new
    · exact .inl before
  | traceSent position allSent =>
    rcases updating_of_finisher member with new | before
    · exact .inr (.inl ⟨true, (Option.some.inj new).symm⟩)
    · exact .inl before
  | finishPatched position sent =>
    rcases updating_of_finisher member with new | before
    · exact .inr (.inl ⟨true, (finishPatch_next _).2.2.2.2 _ new⟩)
    · exact .inl before
  | @finishUpdated index complete updatePc input client result position sent =>
    rcases updating_of_finisher member with new | before
    · rcases (finishUpdate_next _ _).2.2.2.2 _ new with rfl | rfl
      · refine .inr (.inr ⟨updatePc, input, ?_, sent⟩)
        exact mem_append_right _ (mem_filterMap.mpr ⟨_, mem_of_getElem? position, rfl⟩)
      · exact .inr (.inl ⟨true, rfl⟩)
    · exact .inl before
  | handedOver position receiver =>
    rcases mem_append.mp member with watching | finishing
    · cases watching
    · obtain ⟨finisher, found, position⟩ := mem_filterMap.mp finishing
      rcases mem_or_eq_of_mem_set found with before | rfl
      · exact .inl (mem_append_right _ (mem_filterMap.mpr ⟨finisher, before, position⟩))
      · cases position

theorem UpdatePc.Consistent.of_same {next : Client}
    (consistent : pc.Consistent client) (state : next.state = client.state)
    (failureReason : next.failureReason = client.failureReason) : pc.Consistent next := by
  cases pc <;> simpa [UpdatePc.Consistent, state, failureReason] using consistent

/-- A `sendUpdate` call stays consistent while the status does not change. -/
theorem UpdateStep.consistent {next : Client} {before after : UpdatePc}
    {input : Input} (sent : UpdateStep config client before input next (.next after))
    (consistent : before.Consistent client) : after.Consistent client := by
  cases sent with
  | stateRead needed => exact .inr rfl
  | reasonRead =>
    rcases consistent with ⟨running, none⟩ | current
    · exact .inl ⟨running, none⟩
    · exact .inr ⟨current, rfl⟩
  | accepted returned => trivial

/-- A `Fail` call leaves the reads of the watch goroutine consistent, unless it
sets a reason between them. -/
theorem UpdatePc.Consistent.setState {err : Bool}
    {failureReason : JobFailureReason} (consistent : pc.Consistent client)
    (running : client.state = .running) (none : client.failureReason = .noneFailure)
    (outside : pc = .reason .running → err = true → failureReason = .noneFailure) :
    pc.Consistent (JobTrace.setState config client err failureReason) := by
  cases pc with
  | read | store => trivial
  | reason state =>
    have same : state = .running := by
      rcases consistent with ⟨same, -⟩ | same
      · exact same
      · exact same.trans running
    subst same
    refine .inl ⟨rfl, ?_⟩
    cases err with
    | false => exact none
    | true => exact outside rfl rfl
  | inFlight jobInfo =>
    refine .inl ?_
    rcases consistent with undecided | ⟨state, failureReason⟩
    · exact undecided
    · exact ⟨state.trans running, failureReason.trans none⟩

/-- Every action keeps the status updates consistent, unless it fails the job
between the two reads. -/
theorem Consistent.step {next : System} (consistent : Consistent system)
    (outside : failsOutsideReads system action = true)
    (stepTo : JobTrace.step config system action = some next) : Consistent next := by
  have ordered := consistent.ordered.step stepTo
  rcases status_of_step stepTo with
    ⟨state, failureReason, -, -⟩ | ⟨err, failureReason, rfl, running, decides⟩
  · refine ⟨ordered, ?_, ?_⟩
    · rw [state, failureReason]
      exact consistent.undecided
    · intro pc member
      rcases updating_of_step stepTo member with
        before | ⟨force, rfl⟩ | ⟨before, input, under, sent⟩
      · exact (consistent.updating pc before).of_same state failureReason
      · trivial
      · exact (sent.consistent (consistent.updating before under)).of_same state failureReason
  · have none := consistent.undecided running
    have noFinisher : system.finishers = [] := by
      cases consistent.ordered with
      | running undecided noFinisher isOpen => exact noFinisher
      | finishing pc decided => exact absurd running decided
    refine ⟨ordered, ?_, ?_⟩
    · intro undecided
      rw [decides] at undecided
      exact absurd undecided (setState_ne_running _ _ _)
    · intro pc member
      rw [decides]
      rcases updating_of_step stepTo member with
        before | ⟨force, rfl⟩ | ⟨before, input, under, sent⟩
      · have watching : system.watcher.updatePc = some pc := by
          simpa [System.updating, noFinisher] using before
        refine (consistent.updating pc before).setState running none ?_
        rintro rfl rfl
        obtain ⟨reached, position⟩ := WatchPc.eq_update watching
        simpa [failsOutsideReads, position, running] using outside
      · trivial
      · have unchanged : next.client.state = system.client.state := by rw [sent.frame]
        rw [decides] at unchanged
        exact absurd (unchanged.trans running) (setState_ne_running _ _ _)

/-- Along every run in which no `Fail` call sets a reason between the two reads
of the watch goroutine, the first call decides the status for good, a failure is
recorded once and only then, and every status update carries a running job
without a reason or the decided status. -/
theorem status_consistent {system : System} {actions : List Action}
    (outside : MeetsAlong (step config)
      (fun state action => failsOutsideReads state action = true) start actions)
    (reached : run (step config) start actions = some system) :
    (system.client.state, system.client.failureReason) = statusOf (firstDecision actions) ∧
      system.client.recorded = recordedFor config (firstDecision actions) ∧
      ∀ jobInfo ∈ system.updatesInFlight,
        (jobInfo.state, jobInfo.failureReason) = (.running, .noneFailure) ∨
          some (jobInfo.state, jobInfo.failureReason) = firstDecision actions := by
  have has := hasStatus_start.run reached
  refine ⟨has.status, has.recorded, ?_⟩
  intro jobInfo member
  have consistent := run_invariant Consistent
    (fun _ _ _ consistent outside stepTo => consistent.step outside stepTo)
    consistent_start outside reached
  obtain ⟨pc, updating, inFlight⟩ := mem_filterMap.mp member
  have carried := consistent.updating pc updating
  obtain rfl := UpdatePc.eq_inFlight inFlight
  rcases carried with ⟨running, none⟩ | ⟨state, failureReason⟩
  · exact .inl (by rw [running, none])
  · rw [state, failureReason, has.status]
    cases firstDecision actions with
    | none => exact .inl rfl
    | some status => exact .inr rfl

def failureRun : List Action :=
  [.fail true .scriptFailure, .fail false .noneFailure, .finish 0 .nothing, .handover 0,
    .finish 0 .nothing, .finish 0 (.refresh false), .finish 0 .nothing]

def failureEnd : System where
  client :=
    { start.client with
      traceClosed := true
      state := .failed
      failureReason := .scriptFailure
      recorded := [.scriptFailure] }
  cancelFunc := false
  watcher := .done
  finishers := [.update true (.inFlight ⟨1, .failed, .scriptFailure⟩)]

theorem status_consistent_failure :
    run (step smallPatches) start failureRun = some failureEnd ∧
      (failureEnd.client.state, failureEnd.client.failureReason) = (.failed, .scriptFailure) ∧
      failureEnd.client.recorded = [.scriptFailure] := by
  have reached : run (step smallPatches) start failureRun =
      some failureEnd := by decide
  obtain ⟨status, recorded, -⟩ := status_consistent (by decide) reached
  exact ⟨reached, status, recorded⟩

/-- The job fails between the two reads of the watch goroutine. -/
def tornReadRun : List Action :=
  [.watch .timer, .watch .nothing, .watch (.refresh true), .fail true .scriptFailure,
    .watch .nothing]

/-- The watch goroutine can report a running job with a failure reason. -/
theorem status_torn :
    ¬∀ (config : Config) (actions : List Action) (system : System),
      run (step config) start actions = some system →
      (system.client.state, system.client.failureReason) = statusOf (firstDecision actions) ∧
        system.client.recorded = recordedFor config (firstDecision actions) ∧
        ∀ jobInfo ∈ system.updatesInFlight,
          (jobInfo.state, jobInfo.failureReason) = (.running, .noneFailure) ∨
            some (jobInfo.state, jobInfo.failureReason) = firstDecision actions := by
  intro consistent
  have reached : run (step smallPatches) start tornReadRun =
      some { client :=
               { start.client with
                 state := .failed
                 failureReason := .scriptFailure
                 recorded := [.scriptFailure] }
             cancelFunc := false
             watcher := .update 0 (.inFlight ⟨1, .running, .scriptFailure⟩)
             finishers := [.close] } := by decide
  have torn := (consistent _ _ _ reached).2.2 ⟨1, .running, .scriptFailure⟩ (by decide)
  exact absurd torn (by decide)

/-- At every moment of every run at most one patch or status update is under way, of the watch
goroutine or of a call in `finish`. -/
theorem one_request {system : System} {actions : List Action}
    (reached : run (step config) start actions = some system) :
    system.sending.length + system.updating.length ≤ 1 := by
  have ordered := run_invariant_of_step Ordered
    (fun _ _ _ ordered stepTo => ordered.step stepTo) ordered_start reached
  unfold System.sending System.updating
  cases ordered with
  | running _ none =>
    rw [none]
    cases system.watcher <;> exact Nat.le_of_ble_eq_true rfl
  | finishing pc _ one _ handover =>
    rw [one]
    cases pc with
    | close | sendFinished => cases system.watcher <;> exact Nat.le_of_ble_eq_true rfl
    | _ =>
      rw [handover rfl]
      exact Nat.le_of_ble_eq_true rfl

theorem one_request_failure : failureEnd.sending.length + failureEnd.updating.length ≤ 1 :=
  one_request (by decide : run (step smallPatches) start failureRun = some failureEnd)

end GitlabRunner.JobTrace
