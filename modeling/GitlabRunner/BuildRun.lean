import GitlabRunner.ConcurrentPrograms
import GitlabRunner.JobTrace

/-!
# Running a build

`Build.Run` of `common/build.go` creates an executor and prepares it, with a few tries, lets
a goroutine run the stages of the job on it, waits for the goroutine also when the job is
cancelled, times out or is interrupted, and ends with `Finish`, the status of the trace and
`Cleanup`.
-/

namespace GitlabRunner.BuildRun

open Concurrent
open Concurrent.Program (call)
open JobTrace (JobFailureReason)

inductive Stage where
  | prepare
  | getSources
  | restoreCache
  | downloadArtifacts
  | userScript
  | afterScript
  | archiveCache
  | uploadOnSuccessArtifacts
  | uploadOnFailureArtifacts
  deriving DecidableEq, Repr

/-- The texts of the errors: those of the provider, the executor or the shell, and
those that the build makes itself. -/
inductive Cause where
  | returned (text : String)
  | executorNotFound
  | createFailed
  | attemptsOutOfRange (stage : Stage)
  | canceled
  | tookTooLong
  | aborted (signal : String)
  deriving DecidableEq, Repr

/-- An error, which may be a `BuildError` with its failure reason. -/
inductive Error where
  | buildError (inner : Cause) (failureReason : JobFailureReason)
  | other (cause : Cause)
  deriving DecidableEq, Repr

def Error.isBuildError : Error → Bool
  | .buildError _ _ => true
  | .other _ => false

def Error.failureReason : Error → JobFailureReason
  | .buildError _ failureReason =>
    if failureReason = .noneFailure then .scriptFailure else failureReason
  | .other _ => .runnerSystemFailure

inductive ContextError where
  | canceled
  | deadlineExceeded
  deriving DecidableEq, Repr

def handleError : ContextError → Error
  | .canceled => .buildError .canceled .noneFailure
  | .deadlineExceeded => .buildError .tookTooLong .jobExecutionTimeout

/-- The recorded calls.  Executors are numbered in the order of their creation. -/
inductive Event where
  | create (executor : Nat)
  | prepare (executor : Nat) (err : Option Error)
  | runBegin (executor : Nat) (stage : Stage)
  | runEnd (executor : Nat) (stage : Stage) (err : Option Error)
  | finish (executor : Nat) (err : Option Error)
  | success
  | fail (err : Error) (failureReason : JobFailureReason)
  | cleanup (executor : Nat)
  deriving DecidableEq, Repr

/-- The channel `buildFinish` with the goroutine that sends on it. -/
inductive BuildFinish where
  | absent
  | running
  | sent (err : Option Error)
  | received
  deriving DecidableEq, Repr

/-- The state of a build: the recorded calls, the number of created executors, the
channel, and the error that `Run` has returned. -/
structure Build where
  log : List Event
  created : Nat
  buildFinish : BuildFinish
  returned : Option (Option Error)
  deriving DecidableEq, Repr

inductive Selected where
  | done (err : ContextError)
  | interrupted (signal : String)
  | finished (err : Option Error)
  deriving DecidableEq, Repr

/-- The commands of a build.  `script` asks the shell of the executor for the script
of a stage: whether there is one to run. -/
inductive Command : Type → Type where
  | create : Command (Option Nat)
  | prepare (executor : Nat) : Command (Option Error)
  | contextErr : Command (Option ContextError)
  | goExecuteScript (executor : Nat) : Command Unit
  | select : Command Selected
  | receive : Command Unit
  | script (executor : Nat) (stage : Stage) : Command (Except Error Bool)
  | runBegin (executor : Nat) (stage : Stage) : Command Unit
  | runEnd (executor : Nat) (stage : Stage) : Command (Option Error)
  | send (err : Option Error) : Command Unit
  | finish (executor : Nat) (err : Option Error) : Command Unit
  | success : Command Unit
  | fail (err : Error) (failureReason : JobFailureReason) : Command Unit
  | cleanup (executor : Nat) : Command Unit
  | returns (err : Option Error) : Command Unit

/-- What the environment decides: whether an executor is created, the result of a
call, the state of the context, an interrupt, or a script. -/
inductive Input where
  | nothing
  | executor (exists_ : Bool)
  | result (err : Option Error)
  | context (err : Option ContextError)
  | interrupt (signal : String)
  | script (result : Except Error Bool)

inductive Job where
  | executeScript (executor : Nat)
  deriving DecidableEq, Repr

def Build.record (build : Build) (event : Event) : Build :=
  { build with log := build.log ++ [event] }

/-- What the commands do.  A receive waits for the send, and a command with an input
of another kind is not enabled. -/
def execute (_ _ : Nat) : {β : Type} → Command β → Input → Build →
    Option (Build × β × Option Job)
  | _, .create, .executor true, build =>
    some ({ build.record (.create build.created) with created := build.created + 1 },
      some build.created, none)
  | _, .create, .executor false, build => some (build, none, none)
  | _, .prepare executor, .result err, build =>
    some (build.record (.prepare executor err), err, none)
  | _, .contextErr, .context err, build => some (build, err, none)
  | _, .goExecuteScript executor, .nothing, build =>
    some ({ build with buildFinish := .running }, (), some (.executeScript executor))
  | _, .select, .context (some err), build => some (build, .done err, none)
  | _, .select, .interrupt signal, build => some (build, .interrupted signal, none)
  | _, .select, .nothing, build =>
    match build.buildFinish with
    | .sent err => some ({ build with buildFinish := .received }, .finished err, none)
    | _ => none
  | _, .receive, .nothing, build =>
    match build.buildFinish with
    | .sent _ => some ({ build with buildFinish := .received }, (), none)
    | _ => none
  | _, .script _ _, .script result, build => some (build, result, none)
  | _, .runBegin executor stage, .nothing, build =>
    some (build.record (.runBegin executor stage), (), none)
  | _, .runEnd executor stage, .result err, build =>
    some (build.record (.runEnd executor stage err), err, none)
  | _, .send err, .nothing, build =>
    some ({ build with buildFinish := .sent err }, (), none)
  | _, .finish executor err, .nothing, build =>
    some (build.record (.finish executor err), (), none)
  | _, .success, .nothing, build => some (build.record .success, (), none)
  | _, .fail err failureReason, .nothing, build =>
    some (build.record (.fail err failureReason), (), none)
  | _, .cleanup executor, .nothing, build =>
    some (build.record (.cleanup executor), (), none)
  | _, .returns err, .nothing, build =>
    some ({ build with returned := some err }, (), none)
  | _, _, _, _ => none

def executeStage (executor : Nat) (stage : Stage) : Program Command (Option Error) := do
  match ← call (.script executor stage) with
  | .error err => pure (some err)
  | .ok false => pure none
  | .ok true =>
    call (.runBegin executor stage)
    call (.runEnd executor stage)

/-- The loop of `attemptExecuteStage`, with the attempts that are left. -/
def attempt (executor : Nat) (stage : Stage) (err : Option Error) :
    Nat → Program Command (Option Error)
  | 0 => pure err
  | attempts + 1 => do
    match ← executeStage executor stage with
    | none => pure none
    | some err => attempt executor stage (some err) attempts

def attemptExecuteStage (executor : Nat) (stage : Stage) (attempts : Int) :
    Program Command (Option Error) :=
  if attempts < 1 ∨ 10 < attempts then
    pure (some (.other (.attemptsOutOfRange stage)))
  else attempt executor stage none attempts.toNat

/-- The numbers of attempts that the variables of a job ask for. -/
structure Attempts where
  getSources : Int
  restoreCache : Int
  downloadArtifacts : Int
  deriving DecidableEq, Repr

/-- The next step of `executeScript` runs only without an error. -/
def onSuccess (err : Option Error) (next : Program Command (Option Error)) :
    Program Command (Option Error) :=
  if err = none then next else pure err

def executeUploadArtifacts (executor : Nat) (state : Option Error) :
    Program Command (Option Error) :=
  if state = none then executeStage executor .uploadOnSuccessArtifacts
  else executeStage executor .uploadOnFailureArtifacts

def executeScript (attempts : Attempts) (executor : Nat) : Program Command (Option Error) := do
  let err ← executeStage executor .prepare
  let err ← onSuccess err (attemptExecuteStage executor .getSources attempts.getSources)
  let err ← onSuccess err (attemptExecuteStage executor .restoreCache attempts.restoreCache)
  let err ← onSuccess err
    (attemptExecuteStage executor .downloadArtifacts attempts.downloadArtifacts)
  let err ← onSuccess err do
    let err ← executeStage executor .userScript
    let _ ← executeStage executor .afterScript
    pure err
  let err ← onSuccess err (executeStage executor .archiveCache)
  let uploadError ← executeUploadArtifacts executor err
  if err = none then pure uploadError else pure err

def body (attempts : Attempts) : Job → Program Command Unit
  | .executeScript executor => do
    let err ← executeScript attempts executor
    call (.send err)

/-- `run`: every exit but the result of the goroutine still waits for it. -/
def run (executor : Nat) : Program Command (Option Error) := do
  call (.goExecuteScript executor)
  match ← call .select with
  | .done err =>
    call .receive
    pure (some (handleError err))
  | .interrupted signal =>
    call .receive
    pure (some (.other (.aborted signal)))
  | .finished err => pure err

def preparationRetries : Nat := 3

/-- `retryCreateExecutor`, with the tries that are left and the error of the last
one. -/
def retryCreateExecutor (err : Option Error) : Nat → Program Command (Option Nat × Option Error)
  | 0 => pure (none, err)
  | tries + 1 => do
    match ← call .create with
    | none => pure (none, some (.other .createFailed))
    | some executor =>
      match ← call (.prepare executor) with
      | none => pure (some executor, none)
      | some err =>
        call (.cleanup executor)
        if err.isBuildError then pure (none, some err)
        else
          match ← call .contextErr with
          | some ended => pure (none, some (handleError ended))
          | none => retryCreateExecutor (some err) tries

def setTraceStatus : Option Error → Program Command Unit
  | none => call .success
  | some err => call (.fail err err.failureReason)

def onExecutor (executor : Option Nat) (next : Nat → Program Command Unit) :
    Program Command Unit :=
  match executor with
  | none => pure ()
  | some executor => next executor

/-- `Run`, whose deferred function sets the status and cleans up.  `found` says
whether the provider of the runner's executor is registered.  The wait for a
terminal before `Finish` calls neither the executor nor the trace. -/
def runBuild (found : Bool) : Program Command Unit := do
  if found then
    let (executor, err) ← retryCreateExecutor none preparationRetries
    let err ← match executor, err with
      | some executor, none => run executor
      | _, err => pure err
    onExecutor executor fun executor => call (.finish executor err)
    setTraceStatus err
    onExecutor executor fun executor => call (.cleanup executor)
    call (.returns err)
  else
    setTraceStatus (some (.other .executorNotFound))
    call (.returns (some (.other .executorNotFound)))

def semantics (attempts : Attempts) : Semantics Build Command Input Job where
  execute := execute
  body := body attempts

def start (found : Bool) : Pool Build Command where
  state := ⟨[], 0, .absent, none⟩
  threads := [runBuild found]

end GitlabRunner.BuildRun
