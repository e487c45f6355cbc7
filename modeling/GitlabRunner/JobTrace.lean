import GitlabRunner.ActionRuns
import GitlabRunner.CoordinatorResponse

/-!
# The trace client of a job

`network/trace.go` sends the job log and the job status to the coordinator.
-/

namespace GitlabRunner.JobTrace

open Network

inductive JobState where
  | running
  | success
  | failed
  deriving DecidableEq, Repr

/-- `common.JobFailureReason`: the named reasons and any other text. -/
inductive JobFailureReason where
  | noneFailure
  | scriptFailure
  | runnerSystemFailure
  | jobExecutionTimeout
  | other (text : String)
  deriving DecidableEq, Repr

structure UpdateJobInfo where
  id : Int
  state : JobState
  failureReason : JobFailureReason
  deriving DecidableEq, Repr

structure Config where
  id : Int
  maxTracePatchSize : Nat
  maxTracePatchSize_pos : 0 < maxTracePatchSize
  failuresCollector : Bool

/-- The fields of a `clientJobTrace` that its lock protects, and the log.  `trace`
is what `buffer.Bytes()` returns, `traceClosed` says that `buffer.Close()` has
returned, and `recorded` lists the calls of `RecordFailure`. -/
structure Client where
  trace : List UInt8
  traceClosed : Bool
  state : JobState
  failureReason : JobFailureReason
  sentTrace : Int
  sentState : JobState
  recorded : List JobFailureReason
  deriving DecidableEq, Repr

inductive Input where
  | nothing
  | timer
  | refresh (shouldRefresh : Bool)
  | outcome (outcome : Outcome)
  deriving DecidableEq, Repr

/-- Positions inside `sendPatch`: before the snapshot, with the patch on its
way, and before the new offset is stored.  The ghost number `reached` is the end
of the patch. -/
inductive PatchPc where
  | read
  | inFlight (content : List UInt8) (sentTrace : Int)
  | store (sentOffset : Int) (state : UpdateState) (reached : Int)
  deriving DecidableEq, Repr

inductive PatchResult where
  | next (pc : PatchPc)
  | returns (state : UpdateState) (reached : Int)
  | panics
  deriving DecidableEq, Repr

/-- `sendPatch`.  Slicing the trace outside of its bounds panics. -/
def sendPatch (config : Config) (client : Client) :
    PatchPc → Input → Option (Client × PatchResult)
  | .read, .nothing =>
    if (client.trace.length : Int) = client.sentTrace then
      some (client, .returns .updateSucceeded client.sentTrace)
    else if client.sentTrace < 0 ∨ (client.trace.length : Int) < client.sentTrace then
      some (client, .panics) else
      let content :=
        (client.trace.drop client.sentTrace.toNat).take config.maxTracePatchSize
      some (client, .next (.inFlight content client.sentTrace))
  | .inFlight content sentTrace, .outcome outcome =>
    let (sentOffset, state) := patchTrace content sentTrace outcome
    let reached := sentTrace + content.length
    if state = .updateSucceeded ∨ state = .updateRangeMismatch then
      some (client, .next (.store sentOffset state reached))
    else some (client, .returns state reached)
  | .store sentOffset state reached, .nothing =>
    some ({ client with sentTrace := sentOffset }, .returns state reached)
  | _, _ => none

/-- Positions inside `sendUpdate`: before the locked reads, before the unlocked
read of the failure reason, with the update on its way, and before the sent
state is stored. -/
inductive UpdatePc where
  | read (force : Bool)
  | reason (state : JobState)
  | inFlight (jobInfo : UpdateJobInfo)
  | store (state : JobState)
  deriving DecidableEq, Repr

inductive UpdateResult where
  | next (pc : UpdatePc)
  | returns (status : UpdateState)
  deriving DecidableEq, Repr

def sendUpdate (config : Config) (client : Client) :
    UpdatePc → Input → Option (Client × UpdateResult)
  | .read force, .refresh shouldRefresh =>
    if !force && client.state = client.sentState && !shouldRefresh then
      some (client, .returns .updateSucceeded)
    else some (client, .next (.reason client.state))
  | .reason state, .nothing =>
    some (client, .next (.inFlight ⟨config.id, state, client.failureReason⟩))
  | .inFlight jobInfo, .outcome outcome =>
    let status := updateJob outcome
    if status = .updateSucceeded then some (client, .next (.store jobInfo.state))
    else some (client, .returns status)
  | .store state, .nothing =>
    some ({ client with sentState := state }, .returns .updateSucceeded)
  | _, _ => none

/-- Positions of the watch goroutine: in its `select`, in the two halves of
`incrementalUpdate`, waiting for `finished` after an abort, returned, or
panicked.  The number beside the status update is the end of the patch sent
before it. -/
inductive WatchPc where
  | select
  | patch (pc : PatchPc)
  | update (reached : Int) (pc : UpdatePc)
  | awaitFinished
  | done
  | panicked
  deriving DecidableEq, Repr

/-- The watch goroutine after `incrementalUpdate` returned: `abort` calls and
clears the cancel function, if there is one. -/
def afterIncrementalUpdate (cancelFunc : Bool) (state : UpdateState) : Bool × WatchPc :=
  if state = .updateAbort ∧ cancelFunc then (false, .awaitFinished)
  else (cancelFunc, .select)

def watchPatch (cancelFunc : Bool) : PatchResult → Bool × WatchPc
  | .next pc => (cancelFunc, .patch pc)
  | .panics => (cancelFunc, .panicked)
  | .returns state reached =>
    if state ≠ .updateSucceeded then afterIncrementalUpdate cancelFunc state
    else (cancelFunc, .update reached (.read false))

def watchUpdate (cancelFunc : Bool) (reached : Int) : UpdateResult → Bool × WatchPc
  | .next pc => (cancelFunc, .update reached pc)
  | .returns status => afterIncrementalUpdate cancelFunc status

/-- `watch`, apart from receiving from `finished`. -/
def watch (config : Config) (client : Client) (cancelFunc : Bool) :
    WatchPc → Input → Option (Client × Bool × WatchPc)
  | .select, .timer => some (client, cancelFunc, .patch .read)
  | .patch pc, input =>
    (sendPatch config client pc input).map fun (client, result) =>
      (client, watchPatch cancelFunc result)
  | .update reached pc, input =>
    (sendUpdate config client pc input).map fun (client, result) =>
      (client, watchUpdate cancelFunc reached result)
  | _, _ => none

/-- Positions inside `finish`: closing the buffer, sending to `finished`, at the
loop condition of `finalTraceUpdate`, in its `sendPatch`, in the `sendUpdate` of
`finalStatusUpdate`, returned, or panicked.  `complete` is a ghost: it says that
`finalTraceUpdate` returned because nothing was left to send. -/
inductive FinishPc where
  | close
  | sendFinished
  | anyTraceToSend
  | patch (pc : PatchPc)
  | update (complete : Bool) (pc : UpdatePc)
  | done (complete : Bool)
  | panicked
  deriving DecidableEq, Repr

def finishPatch : PatchResult → FinishPc
  | .next pc => .patch pc
  | .panics => .panicked
  | .returns state _ =>
    match state with
    | .updateSucceeded => .anyTraceToSend
    | .updateAbort => .update false (.read true)
    | .updateNotFound => .update false (.read true)
    | .updateRangeMismatch => .anyTraceToSend
    | .updateFailed => .anyTraceToSend

def finishUpdate (complete : Bool) : UpdateResult → FinishPc
  | .next pc => .update complete pc
  | .returns status =>
    match status with
    | .updateFailed => .update complete (.read true)
    | _ => .done complete

/-- `finish`, apart from sending to `finished`. -/
def finish (config : Config) (client : Client) :
    FinishPc → Input → Option (Client × FinishPc)
  | .close, .nothing => some ({ client with traceClosed := true }, .sendFinished)
  | .anyTraceToSend, .nothing =>
    if (client.trace.length : Int) ≠ client.sentTrace then some (client, .patch .read)
    else some (client, .update true (.read true))
  | .patch pc, input =>
    (sendPatch config client pc input).map fun (client, result) =>
      (client, finishPatch result)
  | .update complete pc, input =>
    (sendUpdate config client pc input).map fun (client, result) =>
      (client, finishUpdate complete result)
  | _, _ => none

/-- The locked section of `Fail` for a trace that is still running.  The error
is only tested for `nil`. -/
def setState (config : Config) (client : Client) (err : Bool)
    (failureReason : JobFailureReason) : Client :=
  if err then
    { client with
      state := .failed
      failureReason := failureReason
      recorded :=
        if config.failuresCollector then client.recorded ++ [failureReason]
        else client.recorded }
  else { client with state := .success }

/-- A trace with its goroutines.  `cancelFunc` says that a cancel function is
set.  A `Success` or `Fail` call is an atomic action up to the end of its locked
section; a call that decided the state goes on as an element of `finishers`. -/
structure System where
  client : Client
  cancelFunc : Bool
  watcher : WatchPc
  finishers : List FinishPc
  deriving DecidableEq, Repr

inductive Action where
  | grow (more : List UInt8)
  | setCancelFunc
  | fail (err : Bool) (failureReason : JobFailureReason)
  | watch (input : Input)
  | finish (index : Nat) (input : Input)
  | handover (index : Nat)
  deriving DecidableEq, Repr

/-- The watch goroutine can receive from `finished`. -/
def WatchPc.receives : WatchPc → Bool
  | .select => true
  | .awaitFinished => true
  | _ => false

/-- One action.  The log grows until it is closed and its length stays an `int`;
sending and receiving on `finished` happen together.  A panic ends the process;
the runs here go on with the other goroutines. -/
def step (config : Config) (system : System) : Action → Option System
  | .grow more =>
    if system.client.traceClosed ∨ 2 ^ 63 ≤ system.client.trace.length + more.length then
      none
    else
      some { system with
        client := { system.client with trace := system.client.trace ++ more } }
  | .setCancelFunc => some { system with cancelFunc := true }
  | .fail err failureReason =>
    if system.client.state ≠ .running then some system
    else
      some { system with
        client := setState config system.client err failureReason
        finishers := system.finishers ++ [.close] }
  | .watch input =>
    (watch config system.client system.cancelFunc system.watcher input).map
      fun (client, cancelFunc, pc) =>
        { system with client := client, cancelFunc := cancelFunc, watcher := pc }
  | .finish index input =>
    (system.finishers[index]?).bind fun pc =>
      (finish config system.client pc input).map fun (client, pc) =>
        { system with client := client, finishers := system.finishers.set index pc }
  | .handover index =>
    if system.finishers[index]? = some .sendFinished ∧ system.watcher.receives then
      some { system with
        watcher := .done
        finishers := system.finishers.set index .anyTraceToSend }
    else none

def start : System where
  client :=
    { trace := []
      traceClosed := false
      state := .running
      failureReason := .noneFailure
      sentTrace := 0
      sentState := .running
      recorded := [] }
  cancelFunc := false
  watcher := .select
  finishers := []

def smallPatches : Config where
  id := 1
  maxTracePatchSize := 2
  maxTracePatchSize_pos := by decide
  failuresCollector := true

end GitlabRunner.JobTrace
