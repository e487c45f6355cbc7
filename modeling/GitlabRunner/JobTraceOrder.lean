import GitlabRunner.JobTraceSteps

/-!
# The order of the goroutines of a trace

Only the call that decides the state runs `finish`, it closes the log first, and it starts
to send only after the watch goroutine has returned.
-/

namespace GitlabRunner.JobTrace

open List FinishPc

variable {config : Config}

def FinishPc.closed : FinishPc → Bool
  | .close => false
  | _ => true

def FinishPc.handedOver : FinishPc → Bool
  | .close => false
  | .sendFinished => false
  | _ => true

/-- The two phases of a trace: undecided, or decided with one call in `finish`. -/
inductive Ordered (system : System) : Prop
  | running (undecided : system.client.state = .running)
      (none : system.finishers = [])
      (isOpen : system.client.traceClosed = false)
  | finishing (pc : FinishPc) (decided : system.client.state ≠ .running)
      (one : system.finishers = [pc])
      (closed : system.client.traceClosed = pc.closed)
      (handover : pc.handedOver = true → system.watcher = .done)

theorem ordered_start : Ordered start :=
  Ordered.running rfl rfl rfl
variable {client : Client}

theorem PatchStep.frame {next : Client} {pc : PatchPc} {input : Input}
    {result : PatchResult} (sent : PatchStep config client pc input next result) :
    next = { client with sentTrace := next.sentTrace } := by
  cases sent <;> rfl

variable {pc : UpdatePc}

/-- An action of `sendUpdate` changes nothing but the sent state. -/
theorem UpdateStep.frame {next : Client} {input : Input}
    {result : UpdateResult} (sent : UpdateStep config client pc input next result) :
    next = { client with sentState := next.sentState } := by
  cases sent <;> rfl

theorem setState_ne_running (client : Client) (err : Bool) (failureReason : JobFailureReason) :
    (setState config client err failureReason).state ≠ .running := by
  cases err <;> simp [setState]

@[simp]
theorem setState_trace (client : Client) (err : Bool) (failureReason : JobFailureReason) :
    (setState config client err failureReason).trace = client.trace := by
  cases err <;> rfl

@[simp]
theorem setState_traceClosed (client : Client) (err : Bool) (failureReason : JobFailureReason) :
    (setState config client err failureReason).traceClosed = client.traceClosed := by
  cases err <;> rfl

@[simp]
theorem setState_sentTrace (client : Client) (err : Bool) (failureReason : JobFailureReason) :
    (setState config client err failureReason).sentTrace = client.sentTrace := by
  cases err <;> rfl
variable {system : System} {index : Nat}

theorem Ordered.of_position {pc : FinishPc}
    (ordered : Ordered system) (position : system.finishers[index]? = some pc) :
    index = 0 ∧ system.finishers = [pc] ∧ system.client.state ≠ .running ∧
      system.client.traceClosed = pc.closed ∧ (pc.handedOver = true → system.watcher = .done) := by
  cases ordered with
  | running undecided none isOpen => simp [none] at position
  | finishing only decided one closed handover =>
    rw [one, getElem?_singleton] at position
    split at position
    · rename_i first
      cases position
      exact ⟨first, one, decided, closed, handover⟩
    · cases position

theorem Ordered.watching {cancelFunc : Bool}
    {watcher : WatchPc} (ordered : Ordered system) (active : system.watcher ≠ .done)
    (state : client.state = system.client.state)
    (traceClosed : client.traceClosed = system.client.traceClosed) :
    Ordered { system with client := client, cancelFunc := cancelFunc, watcher := watcher } := by
  cases ordered with
  | running undecided none isOpen =>
    exact Ordered.running (state.trans undecided) none (traceClosed.trans isOpen)
  | finishing pc decided one closed handover =>
    refine Ordered.finishing pc (by rwa [state]) one (traceClosed.trans closed) ?_
    intro handedOver
    exact absurd (handover handedOver) active

theorem Ordered.finisher {before after : FinishPc} (ordered : Ordered system)
    (position : system.finishers[index]? = some before) (state : client.state = system.client.state)
    (closed : client.traceClosed = after.closed)
    (handover : after.handedOver = true → before.handedOver = true) :
    Ordered { system with client := client, finishers := system.finishers.set index after } := by
  obtain ⟨rfl, one, decided, -, done⟩ := ordered.of_position position
  refine Ordered.finishing after (by rwa [state]) ?_ closed ?_
  · simp [one]
  · intro handedOver
    exact done (handover handedOver)

def WatchPc.patchPc : WatchPc → Option PatchPc
  | .patch pc => some pc
  | _ => none

def FinishPc.patchPc : FinishPc → Option PatchPc
  | .patch pc => some pc
  | _ => none

/-- The position after an action of `sendPatch` that did not return. -/
def PatchResult.patchPc : PatchResult → Option PatchPc
  | .next pc => some pc
  | _ => none

def System.sending (system : System) : List PatchPc :=
  system.watcher.patchPc.toList ++ system.finishers.filterMap FinishPc.patchPc

def WatchPc.updatePc : WatchPc → Option UpdatePc
  | .update _ pc => some pc
  | _ => none

def FinishPc.updatePc : FinishPc → Option UpdatePc
  | .update _ pc => some pc
  | _ => none

def System.updating (system : System) : List UpdatePc :=
  system.watcher.updatePc.toList ++ system.finishers.filterMap FinishPc.updatePc

def UpdatePc.jobInfo : UpdatePc → Option UpdateJobInfo
  | .inFlight jobInfo => some jobInfo
  | _ => none

def System.updatesInFlight (system : System) : List UpdateJobInfo :=
  system.updating.filterMap UpdatePc.jobInfo

/-- The watch goroutine after an action of `sendPatch`. -/
theorem watchPatch_next (cancelFunc : Bool) (result : PatchResult) :
    let pc := (watchPatch cancelFunc result).2
    pc.patchPc = result.patchPc ∧ (pc = .panicked → result = .panics) ∧
      ∀ update, pc.updatePc = some update → update = .read false := by
  fun_cases watchPatch cancelFunc result with
  | case1 => exact ⟨rfl, nofun, nofun⟩
  | case2 => exact ⟨rfl, fun _ => rfl, nofun⟩
  | case3 state => fun_cases afterIncrementalUpdate cancelFunc state <;> exact ⟨rfl, nofun, nofun⟩
  | case4 => exact ⟨rfl, nofun, fun _ => by rintro ⟨⟩; rfl⟩

theorem watchUpdate_next (cancelFunc : Bool) (reached : Int) (result : UpdateResult) :
    let pc := (watchUpdate cancelFunc reached result).2
    pc.patchPc = none ∧ pc ≠ .panicked ∧
      ∀ update, pc.updatePc = some update → result = .next update := by
  fun_cases watchUpdate cancelFunc reached result with
  | case1 => exact ⟨rfl, nofun, fun _ => by rintro ⟨⟩; rfl⟩
  | case2 state => fun_cases afterIncrementalUpdate cancelFunc state <;> exact ⟨rfl, nofun, nofun⟩

/-- A call in `finish` after an action of `sendPatch`. -/
theorem finishPatch_next (result : PatchResult) :
    let pc := finishPatch result
    pc.closed = true ∧ pc.handedOver = true ∧ pc.patchPc = result.patchPc ∧
      (pc = .panicked → result = .panics) ∧
        ∀ update, pc.updatePc = some update → update = .read true := by
  fun_cases finishPatch result <;> simp [closed, handedOver, patchPc,
    updatePc, PatchResult.patchPc]

theorem finishUpdate_next (complete : Bool) (result : UpdateResult) :
    let pc := finishUpdate complete result
    pc.closed = true ∧ pc.handedOver = true ∧ pc.patchPc = none ∧ pc ≠ .panicked ∧
      ∀ update, pc.updatePc = some update → result = .next update ∨ update = .read true := by
  fun_cases finishUpdate complete result <;> simp [closed, handedOver,
    patchPc, updatePc]

theorem Ordered.step {next : System} {action : Action} (ordered : Ordered system)
    (stepTo : JobTrace.step config system action = some next) : Ordered next := by
  cases transition_of_step stepTo with
  | grew isOpen small =>
    cases ordered with
    | running undecided none _ => exact Ordered.running undecided none isOpen
    | finishing pc decided one closed handover =>
      exact Ordered.finishing pc decided one closed handover
  | cancelFuncSet =>
    cases ordered with
    | running undecided none isOpen => exact Ordered.running undecided none isOpen
    | finishing pc decided one closed handover =>
      exact Ordered.finishing pc decided one closed handover
  | failIgnored decided => exact ordered
  | failDecides undecided =>
    cases ordered with
    | running _ none isOpen =>
      refine Ordered.finishing .close (setState_ne_running _ _ _) ?_ ?_ ?_
      · simp [none]
      · exact (setState_traceClosed _ _ _).trans isOpen
      · intro handedOver
        cases handedOver
    | finishing pc decided => exact absurd undecided decided
  | timerFired waiting => exact ordered.watching (by simp [waiting]) rfl rfl
  | watchPatched position sent | watchUpdated position sent =>
    exact ordered.watching (by simp [position]) (by rw [sent.frame]) (by rw [sent.frame])
  | closed position =>
    exact ordered.finisher position rfl rfl (fun handedOver => by cases handedOver)
  | traceLeft position | traceSent position =>
    exact ordered.finisher position rfl (ordered.of_position position).2.2.2.1 (fun _ => rfl)
  | @finishPatched index pc input client result position sent =>
    have closed := (ordered.of_position position).2.2.2.1
    refine ordered.finisher position (by rw [sent.frame]) ?_ (fun _ => rfl)
    rw [sent.frame, (finishPatch_next result).1]
    exact closed
  | @finishUpdated index complete pc input client result position sent =>
    have closed := (ordered.of_position position).2.2.2.1
    refine ordered.finisher position (by rw [sent.frame]) ?_ (fun _ => rfl)
    rw [sent.frame, (finishUpdate_next complete result).1]
    exact closed
  | handedOver position receiver =>
    obtain ⟨rfl, one, decided, closed, -⟩ := ordered.of_position position
    exact Ordered.finishing .anyTraceToSend decided (by simp [one]) closed (fun _ => rfl)

theorem WatchPc.eq_update {watcher : WatchPc}
    (position : watcher.updatePc = some pc) : ∃ reached, watcher = .update reached pc := by
  cases watcher <;> cases position
  exact ⟨_, rfl⟩

theorem FinishPc.eq_update {finisher : FinishPc}
    (position : finisher.updatePc = some pc) : ∃ complete, finisher = .update complete pc := by
  cases finisher <;> cases position
  exact ⟨_, rfl⟩

theorem UpdatePc.eq_inFlight {jobInfo : UpdateJobInfo}
    (position : pc.jobInfo = some jobInfo) : pc = .inFlight jobInfo := by
  cases pc <;> cases position
  rfl

def System.panicked (system : System) : Prop :=
  system.watcher = .panicked ∨ FinishPc.panicked ∈ system.finishers

theorem FinishPc.patchPc_eq_none {pc : FinishPc} (before : pc.handedOver = false) :
    pc.patchPc = none := by
  cases pc <;> first | rfl | cases before

/-- While the watch goroutine runs, only its own `sendPatch` can be under way. -/
theorem Ordered.sending_watcher (ordered : Ordered system) (active : system.watcher ≠ .done) :
    system.finishers.filterMap patchPc = [] := by
  cases ordered with
  | running undecided none isOpen => simp [none]
  | finishing pc decided one closed handover =>
    have before : pc.handedOver = false := by
      cases handedOver : pc.handedOver with
      | false => rfl
      | true => exact absurd (handover handedOver) active
    simp [one, patchPc_eq_none before]

theorem Ordered.sending_length (ordered : Ordered system) : system.sending.length ≤ 1 := by
  by_cases active : system.watcher = .done
  · cases ordered with
    | running undecided none isOpen => simp [System.sending, none, active, WatchPc.patchPc]
    | finishing pc decided one closed handover =>
      cases position : pc.patchPc <;>
        simp [System.sending, one, active, WatchPc.patchPc, position]
  · rw [System.sending, ordered.sending_watcher active, append_nil]
    cases system.watcher.patchPc <;> simp

def Action.input : Action → Input
  | .watch input => input
  | .finish _ input => input
  | _ => .nothing

def System.patchOf (system : System) : Action → Option PatchPc
  | .watch _ => system.watcher.patchPc
  | .finish index _ => system.finishers[index]?.bind FinishPc.patchPc
  | _ => none

/-- An action as the sender of the log sees it. -/
inductive SenderStep (config : Config) (system : System) (action : Action)
    (next : System) : Prop
  | quiet (actor : system.patchOf action = none)
      (sentTrace : next.client.sentTrace = system.client.sentTrace)
      (trace : system.client.trace <+: next.client.trace)
      (sending : ∀ pc ∈ next.sending, pc = .read ∨ pc ∈ system.sending)
      (panicked : next.panicked → system.panicked)
  | patched {pc : PatchPc} {result : PatchResult}
      (actor : system.patchOf action = some pc)
      (sent : PatchStep config system.client pc action.input next.client result)
      (before : system.sending = [pc])
      (after : next.sending = result.patchPc.toList)
      (panicked : next.panicked → system.panicked ∨ result = .panics)

/-- A call in `finish` that is not in `sendPatch` and moves to `after`, which is
not beyond the first position of `sendPatch`. -/
theorem SenderStep.of_finisher {input : Input} {before after : FinishPc} (ordered : Ordered system)
    (position : system.finishers[index]? = some before) (notSending : before.patchPc = none)
    (sentTrace : client.sentTrace = system.client.sentTrace)
    (trace : client.trace = system.client.trace)
    (starts : ∀ pc, after.patchPc = some pc → pc = .read) (sound : after ≠ .panicked) :
    SenderStep config system (.finish index input)
      { system with client := client, finishers := system.finishers.set index after } := by
  obtain ⟨rfl, one, -⟩ := ordered.of_position position
  refine SenderStep.quiet ?_ sentTrace ?_ ?_ ?_
  · simp [System.patchOf, one, notSending]
  · simp [trace]
  · intro pc member
    simp only [System.sending, one, set_cons_zero, mem_append, Option.mem_toList,
      filterMap_cons, filterMap_nil] at member ⊢
    rcases member with watching | finishing
    · exact .inr (.inl watching)
    · cases moved : after.patchPc with
      | none => simp [moved] at finishing
      | some only =>
        simp only [moved, mem_singleton] at finishing
        exact .inl (finishing.trans (starts only moved))
  · rintro (watcher | finisher)
    · exact .inl watcher
    · simp only [one, set_cons_zero, mem_singleton] at finisher
      exact absurd finisher.symm sound

theorem SenderStep.of_step {next : System} {action : Action} (ordered : Ordered system)
    (stepTo : JobTrace.step config system action = some next) :
    SenderStep config system action next := by
  cases transition_of_step stepTo with
  | grew isOpen small => exact SenderStep.quiet rfl rfl (prefix_append _ _) (fun _ => .inr) id
  | cancelFuncSet | failIgnored => exact SenderStep.quiet rfl rfl (prefix_refl _) (fun _ => .inr) id
  | failDecides undecided =>
    refine SenderStep.quiet rfl (by simp) (by simp) ?_ ?_
    · intro pc member
      exact .inr (by simpa [System.sending, patchPc] using member)
    · intro panicked
      simpa [System.panicked] using panicked
  | timerFired waiting =>
    refine SenderStep.quiet (by simp [System.patchOf, waiting, WatchPc.patchPc]) rfl
      (prefix_refl _) ?_ ?_
    · intro pc member
      simp only [System.sending, WatchPc.patchPc, mem_append] at member ⊢
      rcases member with watching | finishing
      · exact .inl (by simpa using watching)
      · exact .inr (.inr finishing)
    · intro panicked
      exact .inr (by simpa [System.panicked] using panicked)
  | @watchPatched pc input client result position sent =>
    have finishers := ordered.sending_watcher (by simp [position])
    have following := watchPatch_next system.cancelFunc result
    refine SenderStep.patched (by simp [System.patchOf, position, WatchPc.patchPc]) sent ?_ ?_ ?_
    · simp [System.sending, finishers, position, WatchPc.patchPc]
    · simp [System.sending, finishers, following]
    · rintro (watcher | finisher)
      · exact .inr (following.2.1 watcher)
      · exact .inl (.inr finisher)
  | @watchUpdated reached pc input client result position sent =>
    have following := watchUpdate_next system.cancelFunc reached result
    refine SenderStep.quiet (by simp [System.patchOf, position, WatchPc.patchPc]) ?_ ?_ ?_ ?_
    · rw [sent.frame]
    · exact ⟨[], by rw [sent.frame, append_nil]⟩
    · intro pc member
      simp only [System.sending, following, mem_append] at member ⊢
      exact .inr (.inr (by simpa using member))
    · rintro (watcher | finisher)
      · exact absurd watcher following.2.1
      · exact .inr finisher
  | closed position | traceSent position | traceLeft position =>
    exact SenderStep.of_finisher ordered position rfl rfl rfl (by simp [patchPc]) (by simp)
  | @finishPatched index pc input client result position sent =>
    obtain ⟨rfl, one, -, -, handover⟩ := ordered.of_position position
    have done := handover rfl
    have following := finishPatch_next result
    refine SenderStep.patched (by simp [System.patchOf, one, patchPc]) sent ?_ ?_ ?_
    · simp [System.sending, one, done, WatchPc.patchPc, patchPc]
    · cases moved : result.patchPc <;>
        simp [System.sending, one, done, WatchPc.patchPc, following, moved]
    · rintro (watcher | finisher)
      · exact .inl (.inl watcher)
      · simp only [one, set_cons_zero, mem_singleton] at finisher
        exact .inr (following.2.2.2.1 finisher.symm)
  | @finishUpdated index complete pc input client result position sent =>
    have following := finishUpdate_next complete result
    exact SenderStep.of_finisher ordered position rfl (by rw [sent.frame])
      (by rw [sent.frame]) (by simp [following]) following.2.2.2.1
  | handedOver position receiver =>
    obtain ⟨rfl, one, -⟩ := ordered.of_position position
    refine SenderStep.quiet rfl rfl (prefix_refl _) ?_ ?_
    · intro pc member
      simp [System.sending, one, WatchPc.patchPc, patchPc] at member
    · intro panicked
      simp [System.panicked, one] at panicked

end GitlabRunner.JobTrace
