import GitlabRunner.ConcurrentPrograms

/-!
# Processing a runner

`processRunner` of `commands/multi.go` acquires the resources of a runner, requests a job,
runs its build and gives the resources back.
-/

namespace GitlabRunner.Runner

open Concurrent

/-- What `processRunner` calls.  `acquire` has no result for an error; the answers
say whether a slot was free, a session could be created, a job was received, a
build could be made and a build succeeded. -/
structure Runtime (Command : Type → Type) (Data : Type) where
  acquire : Program Command (Option Data)
  release : Data → Program Command Unit
  acquireBuild : Program Command Bool
  releaseBuild : Program Command Unit
  createSession : Program Command Bool
  acquireRequest : Program Command Bool
  releaseRequest : Program Command Unit
  requestJob : Program Command Bool
  newBuild : Program Command Bool
  run : Data → Program Command Bool

inductive ProcessError where
  | failedToUpdateExecutor
  | runnerLimitMet
  | failedToCreateSession
  | failedToCreateBuild
  | buildFailed
  deriving DecidableEq, Repr

variable {Command : Type → Type} {Data : Type}

def acquireRunnerResources (runtime : Runtime Command Data) :
    Program Command (Except ProcessError Data) := do
  match ← runtime.acquire with
  | none => pure (.error .failedToUpdateExecutor)
  | some executorData =>
    if ← runtime.acquireBuild then pure (.ok executorData)
    else
      runtime.release executorData
      pure (.error .runnerLimitMet)

def releaseFn (runtime : Runtime Command Data) (executorData : Data) :
    Program Command Unit := do
  runtime.releaseBuild
  runtime.release executorData

def requestJob (runtime : Runtime Command Data) : Program Command Bool := do
  if ← runtime.acquireRequest then
    let received ← runtime.requestJob
    runtime.releaseRequest
    pure received
  else pure false

def processJob (runtime : Runtime Command Data) (executorData : Data) :
    Program Command (Except ProcessError Unit) := do
  if ← runtime.createSession then
    if ← requestJob runtime then
      if ← runtime.newBuild then
        if ← runtime.run executorData then pure (.ok ()) else pure (.error .buildFailed)
      else pure (.error .failedToCreateBuild)
    else pure (.ok ())
  else pure (.error .failedToCreateSession)

/-- `processRunner` for a runner whose executor is registered. -/
def processRunner (runtime : Runtime Command Data) :
    Program Command (Except ProcessError Unit) := do
  match ← acquireRunnerResources runtime with
  | .error failed => pure (.error failed)
  | .ok executorData =>
    let result ← processJob runtime executorData
    releaseFn runtime executorData
    pure result

variable {State Input Job : Type} {semantics : Semantics State Command Input Job}

/-- What the parts of `processRunner` keep: a call is `Free` of resources, has
`Acquired` the executor data, has `Started` a build, is `Requesting` a job, or is
`Finished`. -/
structure Runtime.Keeps (runtime : Runtime Command Data) (discipline : Discipline semantics)
    (thread : Nat) (Free Finished : State → Prop)
    (Acquired Started Requesting : Data → State → Prop) : Prop where
  acquire : discipline.Triple thread Free runtime.acquire
    fun result later => result.elim (Finished later) (Acquired · later)
  release : ∀ executorData, discipline.Triple thread (Acquired executorData)
    (runtime.release executorData) fun _ => Finished
  acquireBuild : ∀ executorData, discipline.Triple thread (Acquired executorData)
    runtime.acquireBuild
    fun started => if started then Started executorData else Acquired executorData
  releaseBuild : ∀ executorData, discipline.Triple thread (Started executorData)
    runtime.releaseBuild fun _ => Acquired executorData
  createSession : ∀ executorData, discipline.Triple thread (Started executorData)
    runtime.createSession fun _ => Started executorData
  acquireRequest : ∀ executorData, discipline.Triple thread (Started executorData)
    runtime.acquireRequest
    fun requesting => if requesting then Requesting executorData else Started executorData
  requestJob : ∀ executorData, discipline.Triple thread (Requesting executorData)
    runtime.requestJob fun _ => Requesting executorData
  releaseRequest : ∀ executorData, discipline.Triple thread (Requesting executorData)
    runtime.releaseRequest fun _ => Started executorData
  newBuild : ∀ executorData, discipline.Triple thread (Started executorData)
    runtime.newBuild fun _ => Started executorData
  run : ∀ executorData, discipline.Triple thread (Started executorData)
    (runtime.run executorData) fun _ => Started executorData

section Triples

variable {runtime : Runtime Command Data} {discipline : Discipline semantics} {thread : Nat}
  {Free Finished : State → Prop} {Acquired Started Requesting : Data → State → Prop}
  (keeps : runtime.Keeps discipline thread Free Finished Acquired Started Requesting)

include keeps

theorem Runtime.Keeps.acquireRunnerResources :
    discipline.Triple thread Free (acquireRunnerResources runtime) fun result later =>
      match result with
      | .error _ => Finished later | .ok executorData => Started executorData later := by
  refine keeps.acquire.bind fun result => ?_
  cases result with
  | none => exact fun _ finished => finished
  | some executorData =>
    refine (keeps.acquireBuild executorData).bind fun started => ?_
    cases started with
    | true => exact fun _ started => started
    | false => exact (keeps.release executorData).bind fun _ _ finished => finished

theorem Runtime.Keeps.request (executorData : Data) :
    discipline.Triple thread (Started executorData) (Runner.requestJob runtime)
      fun _ => Started executorData := by
  refine (keeps.acquireRequest executorData).bind fun requesting => ?_
  cases requesting with
  | false => exact fun _ started => started
  | true =>
    refine (keeps.requestJob executorData).bind fun received => ?_
    exact (keeps.releaseRequest executorData).bind fun _ _ started => started

theorem Runtime.Keeps.processJob (executorData : Data) :
    discipline.Triple thread (Started executorData) (processJob runtime executorData)
      fun _ => Started executorData := by
  refine (keeps.createSession executorData).bind fun session => ?_
  split
  · refine (keeps.request executorData).bind fun received => ?_
    split
    · refine (keeps.newBuild executorData).bind fun made => ?_
      split
      · refine (keeps.run executorData).bind fun succeeded => ?_
        split <;> exact fun _ started => started
      · exact fun _ started => started
    · exact fun _ started => started
  · exact fun _ started => started

theorem Runtime.Keeps.processRunner :
    discipline.Triple thread Free (processRunner runtime) fun _ => Finished := by
  refine keeps.acquireRunnerResources.bind fun result => ?_
  cases result with
  | error failed => exact fun _ finished => finished
  | ok executorData =>
    refine (keeps.processJob executorData).bind fun result => ?_
    have released : discipline.Triple thread (Started executorData)
        (releaseFn runtime executorData) fun _ => Finished :=
      (keeps.releaseBuild executorData).bind fun _ => keeps.release executorData
    exact released.bind fun _ _ finished => finished

end Triples

end GitlabRunner.Runner
