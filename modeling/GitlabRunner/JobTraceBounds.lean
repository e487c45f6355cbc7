import GitlabRunner.JobTraceOrder

/-!
# The offset of the next patch

`sendPatch` slices the log at `sentTrace`, which after a range mismatch is a number that the
coordinator chose.  A number beyond the end of the log makes the next call panic.
-/

namespace GitlabRunner.JobTrace

open Network ActionRuns

variable {config : Config}

/-- If an action ends a `PatchTrace` with a range mismatch, the offset that the
coordinator reports lies within the log. -/
def offsetWithinTrace (system : System) (action : Action) : Bool :=
  match system.patchOf action, action.input with
  | some (.inFlight content start), .outcome outcome =>
    let (sentOffset, state) := patchTrace content start outcome
    state ≠ .updateRangeMismatch || sentOffset ≤ system.client.trace.length
  | _, _ => true

def Client.InBounds (client : Client) (offset : Int) : Prop :=
  0 ≤ offset ∧ offset ≤ client.trace.length

/-- The offsets that a `sendPatch` call carries are within the log. -/
def PatchPc.InBounds (client : Client) : PatchPc → Prop
  | .read => True
  | .inFlight content start =>
    content ≠ [] ∧ client.InBounds start ∧ client.InBounds (start + content.length)
  | .store sentOffset _ _ => client.InBounds sentOffset

/-- No call has panicked, and no call under way can. -/
structure Bounded (system : System) : Prop where
  ordered : Ordered system
  sentTrace : system.client.InBounds system.client.sentTrace
  sending : ∀ pc ∈ system.sending, pc.InBounds system.client
  running : ¬system.panicked

theorem bounded_start : Bounded start where
  ordered := ordered_start
  sentTrace := ⟨Int.le_refl 0, Int.le_refl 0⟩
  sending := by simp [start, System.sending, WatchPc.patchPc]
  running := by simp [start, System.panicked]

theorem Client.InBounds.grow {client next : Client} {offset : Int}
    (inBounds : client.InBounds offset) (trace : client.trace <+: next.trace) :
    next.InBounds offset := by
  have longer := trace.length_le
  obtain ⟨nonneg, below⟩ := inBounds
  exact ⟨nonneg, by omega⟩

theorem PatchPc.InBounds.grow {client next : Client} {pc : PatchPc}
    (inBounds : pc.InBounds client) (trace : client.trace <+: next.trace) : pc.InBounds next := by
  cases pc with
  | read => trivial
  | inFlight content start =>
    obtain ⟨nonempty, first, last⟩ := inBounds
    exact ⟨nonempty, first.grow trace, last.grow trace⟩
  | store sentOffset state reached => exact Client.InBounds.grow inBounds trace

/-- The offset of a settled patch lies within the log if a range mismatch does. -/
theorem inBounds_of_settled {client : Client} {content : List UInt8}
    {start sentOffset : Int} {outcome : Outcome} {state : UpdateState}
    (inBounds : (PatchPc.inFlight content start).InBounds client)
    (returned : patchTrace content start outcome = (sentOffset, state))
    (known : state = .updateSucceeded ∨ state = .updateRangeMismatch)
    (within : state = .updateRangeMismatch → sentOffset ≤ client.trace.length) :
    client.InBounds sentOffset := by
  obtain ⟨nonempty, -, last⟩ := inBounds
  rcases patchTrace_cases nonempty returned with
    ⟨-, endOffset, -⟩ | ⟨mismatch, response, -, -, -, newOffset⟩ | ⟨first, second⟩
  · rw [endOffset]
    exact last
  · refine ⟨?_, within mismatch⟩
    rw [newOffset]
    exact newOffset_nonneg _
  · exact absurd known (not_or.mpr ⟨first, second⟩)

/-- One action of `sendPatch`: it does not panic and keeps its offsets within
the log. -/
theorem PatchStep.inBounds {client next : Client} {pc : PatchPc} {input : Input}
    {result : PatchResult} (sent : PatchStep config client pc input next result)
    (sentTrace : client.InBounds client.sentTrace) (inBounds : pc.InBounds client)
    (within : ∀ content start outcome sentOffset, pc = .inFlight content start →
      input = .outcome outcome →
      patchTrace content start outcome = (sentOffset, .updateRangeMismatch) →
      sentOffset ≤ client.trace.length) :
    result ≠ .panics ∧ next.InBounds next.sentTrace ∧
      ∀ after, result.patchPc = some after → after.InBounds next := by
  cases sent with
  | upToDate | refused => exact ⟨by simp, sentTrace, by simp [PatchResult.patchPc]⟩
  | outOfRange outside =>
    obtain ⟨nonneg, below⟩ := sentTrace
    omega
  | snapshot nonneg below =>
    refine ⟨by simp, sentTrace, ?_⟩
    intro after moved
    obtain rfl := Option.some.inj moved
    have positive := config.maxTracePatchSize_pos
    refine ⟨?_, sentTrace, ?_, ?_⟩
    · rw [← List.length_pos_iff, List.length_take, List.length_drop]
      omega
    · omega
    · rw [List.length_take, List.length_drop]
      omega
  | settled returned known =>
    refine ⟨by simp, sentTrace, ?_⟩
    intro after moved
    obtain rfl := Option.some.inj moved
    refine inBounds_of_settled inBounds returned known ?_
    rintro rfl
    exact within _ _ _ _ rfl rfl returned
  | stored => exact ⟨by simp, inBounds, by simp [PatchResult.patchPc]⟩

/-- An action whose range mismatch is within the log keeps the bounds. -/
theorem Bounded.step {system next : System} {action : Action} (bounded : Bounded system)
    (within : offsetWithinTrace system action = true)
    (stepTo : JobTrace.step config system action = some next) : Bounded next := by
  have ordered := bounded.ordered.step stepTo
  cases SenderStep.of_step bounded.ordered stepTo with
  | quiet actor sentTrace trace sending panicked =>
    refine ⟨ordered, ?_, ?_, fun after => bounded.running (panicked after)⟩
    · rw [sentTrace]
      exact bounded.sentTrace.grow trace
    · intro pc member
      rcases sending pc member with rfl | before
      · trivial
      · exact (bounded.sending pc before).grow trace
  | @patched pc result actor sent before after panicked =>
    have known : ∀ content start outcome sentOffset, pc = .inFlight content start →
        action.input = .outcome outcome →
        patchTrace content start outcome = (sentOffset, .updateRangeMismatch) →
        sentOffset ≤ system.client.trace.length := by
      intro content start outcome sentOffset inFlight input mismatch
      simpa [offsetWithinTrace, actor, inFlight, input, mismatch] using within
    obtain ⟨sound, sentTrace, inBounds⟩ := sent.inBounds bounded.sentTrace
      (bounded.sending pc (by simp [before])) known
    refine ⟨ordered, sentTrace, ?_, ?_⟩
    · intro position member
      rw [after, Option.mem_toList] at member
      exact inBounds position member
    · intro panics
      exact (panicked panics).elim bounded.running sound

/-- Along every run whose range mismatches report offsets within the log, every
call of `sendPatch` slices the log in range. -/
theorem sendPatch_in_range {system : System} {actions : List Action}
    (within : MeetsAlong (step config)
      (fun state action => offsetWithinTrace state action = true) start actions)
    (reached : run (step config) start actions = some system) :
    ¬system.panicked ∧ 0 ≤ system.client.sentTrace ∧
      system.client.sentTrace ≤ system.client.trace.length := by
  have bounded := run_invariant Bounded
    (fun _ _ _ bounded within stepTo => bounded.step within stepTo)
    bounded_start within reached
  exact ⟨bounded.running, bounded.sentTrace⟩

def mismatchRun (remoteRange : String) : List Action :=
  [.grow [104, 105], .watch .timer, .watch .nothing,
    .watch (.outcome (.response ⟨416, "running", remoteRange⟩)), .watch .nothing,
    .watch .timer, .watch .nothing]

def mismatchEnd : System where
  client := { start.client with trace := [104, 105], sentTrace := 1 }
  cancelFunc := false
  watcher := .patch (.inFlight [105] 1)
  finishers := []

theorem sendPatch_in_range_mismatch :
    run (step smallPatches) start (mismatchRun "0-1") = some mismatchEnd ∧
      ¬mismatchEnd.panicked ∧ 0 ≤ mismatchEnd.client.sentTrace ∧
        mismatchEnd.client.sentTrace ≤ mismatchEnd.client.trace.length := by
  have reached : run (step smallPatches) start (mismatchRun "0-1") =
      some mismatchEnd := by decide
  exact ⟨reached, sendPatch_in_range (by decide) reached⟩

/-- A coordinator can crash the trace client: it answers a patch with a range
mismatch beyond the end of the log. -/
theorem sendPatch_panics :
    ¬∀ (config : Config) (actions : List Action) (system : System),
      run (step config) start actions = some system →
        ¬system.panicked ∧ 0 ≤ system.client.sentTrace ∧
          system.client.sentTrace ≤ system.client.trace.length := by
  intro inRange
  have reached : run (step smallPatches) start (mismatchRun "0-100") =
      some { client := { start.client with trace := [104, 105], sentTrace := 100 }
             cancelFunc := false
             watcher := .panicked
             finishers := [] } := by decide
  exact (inRange _ _ _ reached).1 (.inl rfl)

end GitlabRunner.JobTrace
