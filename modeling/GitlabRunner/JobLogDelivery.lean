import GitlabRunner.JobTraceUpload
import GitlabRunner.TraceTranscript

/-!
# The log from the job to the coordinator

`clientJobTrace` of `network/trace.go` writes the output of the job to its trace buffer and sends
what the buffer has published.
-/

namespace GitlabRunner.JobTrace

open List ActionRuns Trace Option

/-- The trace buffer of a job, and its client with the coordinator. -/
structure JobLog where
  buffer : Buffer
  upload : Upload

inductive LogAction where
  | buffer (event : Event)
  | upload (action : UploadAction)

def LogAction.event : LogAction → Option Event
  | .buffer event => some event
  | .upload _ => none

def UploadAction.grows : UploadAction → Bool
  | .trace (.grow _) => true
  | _ => false

/-- The log of the client grows by what the buffer publishes, and `finish` goes on behind
`buffer.Close()` when the buffer has finished. -/
def JobLog.step (config : Config) (log : JobLog) : LogAction → Option JobLog
  | .buffer event =>
    (log.buffer.step event).bind fun buffer =>
      (log.upload.step config (.trace (.grow (buffer.bytes.drop log.buffer.bytes.length)))).map
        (⟨buffer, ·⟩)
  | .upload action =>
    (log.upload.step config action).bind fun upload =>
      if action.grows ∨ upload.system.client.traceClosed ∧ !log.buffer.finished then none
      else some { log with upload := upload }

def JobLog.start (limit : Int) (masked : List (List UInt8)) : JobLog :=
  ⟨.start limit masked, .start⟩

variable {config : Config} {log : JobLog} {actions : List LogAction}

theorem JobLog.buffer_run {last : JobLog}
    (reached : run (JobLog.step config) log actions = some last) :
    log.buffer.run (actions.filterMap LogAction.event) = some last.buffer := by
  induction actions generalizing log with
  | nil =>
    cases reached
    rfl
  | cons action actions ih =>
    obtain ⟨next, stepTo, reachedNext⟩ := run_cons_eq_some.mp reached
    have ran := ih reachedNext
    cases action with
    | buffer event =>
      obtain ⟨buffer, stepped, moves⟩ := bind_eq_some_iff.mp stepTo
      obtain ⟨upload, -, rfl⟩ := map_eq_some_iff.mp moves
      exact run_cons_eq_some.mpr ⟨buffer, stepped, ran⟩
    | upload action =>
      obtain ⟨upload, -, moves⟩ := bind_eq_some_iff.mp stepTo
      cases (ite_none_left_eq_some.mp moves).2
      exact ran

theorem trace_of_step {system next : System} {action : Action}
    (stepTo : JobTrace.step config system action = some next)
    (notGrow : ∀ more, action ≠ .grow more) : next.client.trace = system.client.trace := by
  cases transition_of_step stepTo with
  | grew => exact (notGrow _ rfl).elim
  | failDecides => exact setState_trace _ _ _
  | watchPatched _ sent | watchUpdated _ sent | finishPatched _ sent | finishUpdated _ sent =>
    rw [sent.frame]
  | _ => rfl

/-- The client has the log that the buffer has published. -/
structure Linked (config : Config) (log : JobLog) : Prop where
  exact : Exact config log.upload
  trace : log.upload.system.client.trace = log.buffer.bytes
  closed : log.upload.system.client.traceClosed = true → log.buffer.finished = true

theorem Linked.step {next : JobLog} {action : LogAction} (linked : Linked config log)
    (stepTo : log.step config action = some next) : Linked config next := by
  cases action with
  | buffer event =>
    obtain ⟨buffer, stepped, moves⟩ := bind_eq_some_iff.mp stepTo
    obtain ⟨upload, grown, rfl⟩ := map_eq_some_iff.mp moves
    have exact := linked.exact.step grown
    obtain ⟨system, moved, rfl⟩ := map_eq_some_iff.mp grown
    obtain ⟨isOpen, moves⟩ := ite_none_left_eq_some.mp moved
    cases moves
    refine ⟨exact, ?_, fun closed => absurd (.inl closed) isOpen⟩
    change log.upload.system.client.trace ++ _ = _
    rw [linked.trace]
    exact prefix_iff_eq_append.mp ((Buffer.published_step stepped).map LogByte.byte)
  | upload action =>
    obtain ⟨upload, moved, moves⟩ := bind_eq_some_iff.mp stepTo
    obtain ⟨free, moves⟩ := ite_none_left_eq_some.mp moves
    cases moves
    refine ⟨linked.exact.step moved, ?_, by simpa using mt .inr free⟩
    rw [← linked.trace]
    rcases Upload.step_cases moved with
      ⟨action, rfl, moved, -⟩ | ⟨sender, _, _, _, rfl, -, moved, -⟩
    · apply trace_of_step moved
      rintro more rfl
      exact free (.inl rfl)
    · apply trace_of_step moved
      cases sender <;> exact nofun

def maskedLogRun : List LogAction :=
  [.buffer (.write [120, 97, 98]), .buffer .process, .buffer .process, .buffer .process,
    .upload (.trace (.fail false .noneFailure)), .buffer .close, .buffer .process] ++
  map .upload
    [.trace (.finish 0 .nothing), .trace (.handover 0), .trace (.finish 0 .nothing),
      .trace (.finish 0 .nothing), .exchange (.finisher 0) (.answered "running"),
      .trace (.finish 0 .nothing), .trace (.finish 0 .nothing)]

def widePatches : Config :=
  ⟨1, 9, by decide, true⟩

end GitlabRunner.JobTrace
