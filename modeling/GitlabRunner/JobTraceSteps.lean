import GitlabRunner.JobTrace

/-!
# The transitions of the trace client

For each call of `JobTrace` and for the whole system, an inductive relation that
lists what one action can do.  The invariants of the trace client are proved by
cases on these relations and never unfold the step functions.
-/

namespace GitlabRunner.JobTrace

open Network Option

section Calls

variable (config : Config) (client : Client)

inductive PatchStep : PatchPc → Input → Client → PatchResult → Prop
  | upToDate (allSent : (client.trace.length : Int) = client.sentTrace) :
      PatchStep .read .nothing client
        (.returns .updateSucceeded client.sentTrace)
  | outOfRange (outside :
      client.sentTrace < 0 ∨ (client.trace.length : Int) < client.sentTrace) :
      PatchStep .read .nothing client .panics
  | snapshot (nonneg : 0 ≤ client.sentTrace)
      (below : client.sentTrace < client.trace.length) :
      PatchStep .read .nothing client
        (.next (.inFlight
          ((client.trace.drop client.sentTrace.toNat).take config.maxTracePatchSize)
          client.sentTrace))
  | settled {content : List UInt8} {sentTrace sentOffset : Int} {state : UpdateState}
      {outcome : Outcome}
      (returned : patchTrace content sentTrace outcome = (sentOffset, state))
      (known : state = .updateSucceeded ∨ state = .updateRangeMismatch) :
      PatchStep (.inFlight content sentTrace) (.outcome outcome) client
        (.next (.store sentOffset state (sentTrace + content.length)))
  | refused {content : List UInt8} {sentTrace sentOffset : Int} {state : UpdateState}
      {outcome : Outcome}
      (returned : patchTrace content sentTrace outcome = (sentOffset, state))
      (unknown : ¬(state = .updateSucceeded ∨ state = .updateRangeMismatch)) :
      PatchStep (.inFlight content sentTrace) (.outcome outcome) client
        (.returns state (sentTrace + content.length))
  | stored {sentOffset : Int} {state : UpdateState} {reached : Int} :
      PatchStep (.store sentOffset state reached) .nothing
        { client with sentTrace := sentOffset } (.returns state reached)

inductive UpdateStep : UpdatePc → Input → Client → UpdateResult → Prop
  | skipped (sent : client.state = client.sentState) :
      UpdateStep (.read false) (.refresh false) client
        (.returns .updateSucceeded)
  | stateRead {force shouldRefresh : Bool}
      (needed : force = true ∨ client.state ≠ client.sentState ∨ shouldRefresh = true) :
      UpdateStep (.read force) (.refresh shouldRefresh) client
        (.next (.reason client.state))
  | reasonRead {state : JobState} :
      UpdateStep (.reason state) .nothing client
        (.next (.inFlight ⟨config.id, state, client.failureReason⟩))
  | accepted {jobInfo : UpdateJobInfo} {outcome : Outcome}
      (returned : updateJob outcome = .updateSucceeded) :
      UpdateStep (.inFlight jobInfo) (.outcome outcome) client
        (.next (.store jobInfo.state))
  | refused {jobInfo : UpdateJobInfo} {outcome : Outcome}
      (returned : updateJob outcome ≠ .updateSucceeded) :
      UpdateStep (.inFlight jobInfo) (.outcome outcome) client
        (.returns (updateJob outcome))
  | stored {state : JobState} :
      UpdateStep (.store state) .nothing
        { client with sentState := state } (.returns .updateSucceeded)

end Calls

section System

variable (config : Config) (system : System)

inductive Transition : Action → System → Prop
  | grew {more : List UInt8} (isOpen : system.client.traceClosed = false)
      (small : system.client.trace.length + more.length < 2 ^ 63) :
      Transition (.grow more)
        { system with
          client := { system.client with trace := system.client.trace ++ more } }
  | cancelFuncSet :
      Transition .setCancelFunc { system with cancelFunc := true }
  | failIgnored {err : Bool} {failureReason : JobFailureReason}
      (decided : system.client.state ≠ .running) :
      Transition (.fail err failureReason) system
  | failDecides {err : Bool} {failureReason : JobFailureReason}
      (undecided : system.client.state = .running) :
      Transition (.fail err failureReason)
        { system with
          client := setState config system.client err failureReason
          finishers := system.finishers ++ [.close] }
  | timerFired (waiting : system.watcher = .select) :
      Transition (.watch .timer) { system with watcher := .patch .read }
  | watchPatched {pc : PatchPc} {input : Input} {client : Client} {result : PatchResult}
      (position : system.watcher = .patch pc)
      (sent : PatchStep config system.client pc input client result) :
      Transition (.watch input)
        { system with
          client := client
          cancelFunc := (watchPatch system.cancelFunc result).1
          watcher := (watchPatch system.cancelFunc result).2 }
  | watchUpdated {reached : Int} {pc : UpdatePc} {input : Input} {client : Client}
      {result : UpdateResult} (position : system.watcher = .update reached pc)
      (sent : UpdateStep config system.client pc input client result) :
      Transition (.watch input)
        { system with
          client := client
          cancelFunc := (watchUpdate system.cancelFunc reached result).1
          watcher := (watchUpdate system.cancelFunc reached result).2 }
  | closed {index : Nat} (position : system.finishers[index]? = some .close) :
      Transition (.finish index .nothing)
        { system with
          client := { system.client with traceClosed := true }
          finishers := system.finishers.set index .sendFinished }
  | traceLeft {index : Nat} (position : system.finishers[index]? = some .anyTraceToSend)
      (left : (system.client.trace.length : Int) ≠ system.client.sentTrace) :
      Transition (.finish index .nothing)
        { system with finishers := system.finishers.set index (.patch .read) }
  | traceSent {index : Nat} (position : system.finishers[index]? = some .anyTraceToSend)
      (allSent : (system.client.trace.length : Int) = system.client.sentTrace) :
      Transition (.finish index .nothing)
        { system with
          finishers := system.finishers.set index (.update true (.read true)) }
  | finishPatched {index : Nat} {pc : PatchPc} {input : Input} {client : Client}
      {result : PatchResult} (position : system.finishers[index]? = some (.patch pc))
      (sent : PatchStep config system.client pc input client result) :
      Transition (.finish index input)
        { system with
          client := client
          finishers := system.finishers.set index (finishPatch result) }
  | finishUpdated {index : Nat} {complete : Bool} {pc : UpdatePc} {input : Input}
      {client : Client} {result : UpdateResult}
      (position : system.finishers[index]? = some (.update complete pc))
      (sent : UpdateStep config system.client pc input client result) :
      Transition (.finish index input)
        { system with
          client := client
          finishers := system.finishers.set index (finishUpdate complete result) }
  | handedOver {index : Nat} (position : system.finishers[index]? = some .sendFinished)
      (receiver : system.watcher.receives = true) :
      Transition (.handover index)
        { system with
          watcher := .done
          finishers := system.finishers.set index .anyTraceToSend }

end System

variable {config : Config} {client next : Client} {input : Input}

theorem patchStep_of_sendPatch {pc : PatchPc} {result : PatchResult}
    (sent : sendPatch config client pc input = some (next, result)) :
    PatchStep config client pc input next result := by
  revert sent
  fun_cases sendPatch config client pc input with
  | case1 allSent =>
    rintro ⟨⟩
    exact .upToDate allSent
  | case2 _ outside =>
    rintro ⟨⟩
    exact .outOfRange outside
  | case3 notSent inside =>
    rintro ⟨⟩
    exact .snapshot (by omega) (by omega)
  | case4 content sentTrace outcome sentOffset state returned reached known =>
    rintro ⟨⟩
    exact .settled returned known
  | case5 content sentTrace outcome sentOffset state returned reached unknown =>
    rintro ⟨⟩
    exact .refused returned unknown
  | case6 =>
    rintro ⟨⟩
    exact .stored
  | case7 => nofun

theorem updateStep_of_sendUpdate {pc : UpdatePc} {result : UpdateResult}
    (sent : sendUpdate config client pc input = some (next, result)) :
    UpdateStep config client pc input next result := by
  revert sent
  fun_cases sendUpdate config client pc input with
  | case1 force shouldRefresh nothingToSend =>
    rintro ⟨⟩
    simp only [Bool.and_eq_true, Bool.not_eq_true', decide_eq_true_eq] at nothingToSend
    obtain ⟨⟨rfl, same⟩, rfl⟩ := nothingToSend
    exact .skipped same
  | case2 force shouldRefresh somethingToSend =>
    rintro ⟨⟩
    apply UpdateStep.stateRead
    by_contra unneeded
    push Not at unneeded
    exact somethingToSend (by simp [unneeded.1, unneeded.2.1, unneeded.2.2])
  | case3 =>
    rintro ⟨⟩
    exact .reasonRead
  | case4 jobInfo outcome status returned =>
    rintro ⟨⟩
    exact .accepted returned
  | case5 jobInfo outcome status returned =>
    rintro ⟨⟩
    exact .refused returned
  | case6 =>
    rintro ⟨⟩
    exact .stored
  | case7 => nofun

variable {system later : System}

theorem transition_of_watch {result : Client × Bool × WatchPc}
    (watched : watch config system.client system.cancelFunc system.watcher input = some result) :
    Transition config system (.watch input)
      { system with client := result.1, cancelFunc := result.2.1, watcher := result.2.2 } := by
  generalize position : system.watcher = watcher at watched
  revert watched
  fun_cases watch config system.client system.cancelFunc watcher input with
  | case1 =>
    rintro ⟨⟩
    exact .timerFired position
  | case2 patchPc =>
    intro watched
    obtain ⟨⟨after, result⟩, sent, rfl⟩ := map_eq_some_iff.mp watched
    exact .watchPatched position (patchStep_of_sendPatch sent)
  | case3 reached updatePc =>
    intro watched
    obtain ⟨⟨after, result⟩, sent, rfl⟩ := map_eq_some_iff.mp watched
    exact .watchUpdated position (updateStep_of_sendUpdate sent)
  | case4 => nofun

theorem transition_of_finish {index : Nat} {pc after : FinishPc}
    (position : system.finishers[index]? = some pc)
    (finished : finish config system.client pc input = some (next, after)) :
    Transition config system (.finish index input)
      { system with client := next, finishers := system.finishers.set index after } := by
  revert finished
  fun_cases finish config system.client pc input with
  | case1 =>
    rintro ⟨⟩
    exact .closed position
  | case2 left =>
    rintro ⟨⟩
    exact .traceLeft position left
  | case3 allSent =>
    rintro ⟨⟩
    exact .traceSent position (not_not.mp allSent)
  | case4 patchPc =>
    intro finished
    obtain ⟨⟨sender, result⟩, sent, ⟨⟩⟩ := map_eq_some_iff.mp finished
    exact .finishPatched position (patchStep_of_sendPatch sent)
  | case5 complete updatePc =>
    intro finished
    obtain ⟨⟨sender, result⟩, sent, ⟨⟩⟩ := map_eq_some_iff.mp finished
    exact .finishUpdated position (updateStep_of_sendUpdate sent)
  | case6 => nofun

theorem transition_of_step {action : Action} (stepTo : step config system action = some later) :
    Transition config system action later := by
  revert stepTo
  fun_cases step config system action with
  | case2 more allowed =>
    rintro ⟨⟩
    rw [not_or, Nat.not_le] at allowed
    exact .grew (by simpa using allowed.1) allowed.2
  | case3 =>
    rintro ⟨⟩
    exact .cancelFuncSet
  | case4 err failureReason decided =>
    rintro ⟨⟩
    exact .failIgnored decided
  | case5 err failureReason undecided =>
    rintro ⟨⟩
    exact .failDecides (not_not.mp undecided)
  | case6 =>
    intro stepTo
    obtain ⟨result, watched, rfl⟩ := map_eq_some_iff.mp stepTo
    exact transition_of_watch watched
  | case7 =>
    intro stepTo
    obtain ⟨pc, position, mapped⟩ := bind_eq_some_iff.mp stepTo
    obtain ⟨⟨client, after⟩, finished, rfl⟩ := map_eq_some_iff.mp mapped
    exact transition_of_finish position finished
  | case8 index together =>
    rintro ⟨⟩
    exact .handedOver together.1 together.2
  | case1 | case9 => nofun

end GitlabRunner.JobTrace
