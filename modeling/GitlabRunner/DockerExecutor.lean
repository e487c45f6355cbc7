import GitlabRunner.ConcurrentPrograms
import GitlabRunner.SlashPaths

/-!
# The docker executor

`executors/docker`: the containers that `Prepare` and `Run` create and that `Cleanup`
removes.  Containers are created for services, for the health checks of services, for the
stages of a build, and as volumes.
-/

namespace GitlabRunner.Docker

open Concurrent
open Concurrent.Program (call)
open SlashPaths

abbrev Id := List UInt8

inductive Place where
  | service
  | healthCheck
  | build
  | temporaryVolume
  | cacheVolume
  deriving DecidableEq, Repr

/-- The context of a request: that of the build, or the one that `Cleanup` makes. -/
inductive Ctx where
  | build
  | cleanup
  deriving DecidableEq, Repr

inductive Target where
  | named
  | container (id : Id)
  deriving DecidableEq, Repr

/-- The answers of the Docker API that matter for containers.  `failed` says that there
was an error, `live` that the context of the request was not cancelled. -/
inductive Event where
  | created (place : Place) (id : Id) (failed : Bool)
  | started (place : Place) (id : Id) (failed : Bool)
  | waited (place : Place) (id : Id) (failed : Bool)
  | removed (target : Target) (live : Bool)
  deriving DecidableEq, Repr

/-- The container that has to be removed because of an answer.  The container of a cache
volume is kept unless it could not be created, started or initialised. -/
def Event.owes : Event → Option Id
  | .created place id failed =>
    if id = [] ∨ place = .cacheVolume ∧ failed = false then none else some id
  | .started place id failed => if place = .cacheVolume ∧ failed = true then some id else none
  | .waited place id failed => if place = .cacheVolume ∧ failed = true then some id else none
  | .removed _ _ => none

inductive Record where
  | temporary
  | builds
  | services
  | cacheContainerIDs
  | tmpContainerIDs
  | failedContainerIDs
  deriving DecidableEq, Repr

/-- The wait groups: of the health checks, of `Cleanup`, and of the clean-up of volumes. -/
inductive Group where
  | services
  | temporary
  | caches
  deriving DecidableEq, Repr

/-- A goroutine that a wait group waits for, and the container that it is for. -/
structure Member where
  group : Group
  thread : Nat
  id : Id
  deriving DecidableEq, Repr

/-- The executor, its volumes manager, the contexts, the goroutines that are waited for,
the channel of the clean-up of volumes, and the records. -/
structure Executor where
  temporary : List Id
  builds : List Id
  services : List Id
  cacheContainerIDs : List Id
  tmpContainerIDs : List Id
  failedContainerIDs : List Id
  managedVolumes : List (List UInt8)
  volumesManager : Bool
  cancelled : Bool
  expired : Bool
  running : List Member
  cleaning : Bool
  cleaned : Bool
  holding : List (Nat × Id)
  log : List Event
  deriving DecidableEq, Repr

/-- Steps that create and remove no container and may fail. -/
inductive Step where
  | connect
  | bindDevices
  | helperImage
  | servicesDefinitions
  | serviceImage
  | buildImage
  | nanoCPUs
  | absolutePath
  | inspect
  | network
  | healthCheck
  | logs
  | links
  | watchContainer
  | sshCommand
  deriving DecidableEq, Repr

/-- What `FindOrCleanExisting` finds: nothing, a container without the volume, or a valid
one. -/
inductive Found where
  | nothing
  | broken
  | valid (id : Id)
  deriving DecidableEq, Repr

inductive Command : Type → Type where
  | fails (step : Step) : Command Bool
  | hasVolumesManager : Command Bool
  | setVolumesManager : Command Unit
  | addManagedVolume (path : List UInt8) : Command Bool
  | inspectCache : Command Found
  | containerCreate (place : Place) : Command (Id × Bool)
  | containerStart (place : Place) (id : Id) : Command Bool
  | waitForContainer (place : Place) (id : Id) : Command Bool
  | containerRemove (ctx : Ctx) (target : Target) : Command Unit
  | append (record : Record) (id : Id) : Command Unit
  | read (record : Record) : Command (List Id)
  | go (group : Group) (id : Id) : Command Unit
  | done (group : Group) (id : Id) : Command Unit
  | wait (group : Group) : Command Unit
  | withTimeout : Command Unit
  | goCleanup (ids : List Id) : Command Unit
  | sendDone : Command Unit
  | receiveDone : Command Unit
  | cancel : Command Unit
  | expire : Command Unit

/-- What the environment decides: whether a step or request fails, the answer to a create
request, or what is found. -/
inductive Input where
  | nothing
  | failed (value : Bool)
  | created (id : Id) (failed : Bool)
  | found (value : Found)
  deriving DecidableEq, Repr

inductive Job where
  | healthCheck (service : Id)
  | remove (group : Group) (id : Id)
  | cleanup (ids : List Id)
  | deadline
  deriving DecidableEq, Repr

def Executor.get (executor : Executor) : Record → List Id
  | .temporary => executor.temporary
  | .builds => executor.builds
  | .services => executor.services
  | .cacheContainerIDs => executor.cacheContainerIDs
  | .tmpContainerIDs => executor.tmpContainerIDs
  | .failedContainerIDs => executor.failedContainerIDs

def Executor.release (executor : Executor) (thread : Nat) (id : Id) : Executor :=
  { executor with holding := executor.holding.filter fun held => held ≠ (thread, id) }

/-- The id is put into a record.  `Cleanup` reads three of them. -/
def Executor.append (executor : Executor) (thread : Nat) (id : Id) : Record → Executor
  | .temporary =>
    { executor.release thread id with temporary := executor.temporary ++ [id] }
  | .builds => { executor with builds := executor.builds ++ [id] }
  | .services => { executor with services := executor.services ++ [id] }
  | .cacheContainerIDs =>
    { executor with cacheContainerIDs := executor.cacheContainerIDs ++ [id] }
  | .tmpContainerIDs =>
    { executor.release thread id with tmpContainerIDs := executor.tmpContainerIDs ++ [id] }
  | .failedContainerIDs =>
    { executor.release thread id with
      failedContainerIDs := executor.failedContainerIDs ++ [id] }

/-- An answer is logged, and the goroutine holds the id that it owes. -/
def Executor.answer (executor : Executor) (thread : Nat) (event : Event) : Executor :=
  { executor with
    log := executor.log ++ [event]
    holding := executor.holding ++ event.owes.toList.map fun id => (thread, id) }

def Executor.live (executor : Executor) : Ctx → Bool
  | .build => !executor.cancelled
  | .cleanup => !executor.expired

def Executor.remove (executor : Executor) (thread : Nat) (ctx : Ctx) (target : Target) :
    Executor :=
  let logged := executor.answer thread (.removed target (executor.live ctx))
  match target with
  | .named => logged
  | .container id => if executor.live ctx then logged.release thread id else logged

def Group.job (group : Group) (id : Id) : Job :=
  match group with
  | .services => .healthCheck id
  | .temporary => .remove .temporary id
  | .caches => .remove .caches id

/-- What the commands do.  A wait goes on when no goroutine of the group is left, and a
receive when the channel has a value. -/
def execute (self threads : Nat) : {β : Type} → Command β → Input → Executor →
    Option (Executor × β × Option Job)
  | _, .fails _, .failed value, executor => some (executor, value, none)
  | _, .hasVolumesManager, .nothing, executor =>
    some (executor, executor.volumesManager, none)
  | _, .setVolumesManager, .nothing, executor =>
    some ({ executor with volumesManager := true }, (), none)
  | _, .addManagedVolume path, .nothing, executor =>
    if executor.managedVolumes.contains path then some (executor, true, none)
    else
      some ({ executor with managedVolumes := path :: executor.managedVolumes }, false, none)
  | _, .inspectCache, .found value, executor => some (executor, value, none)
  | _, .containerCreate place, .created id failed, executor =>
    some (executor.answer self (.created place id failed), (id, failed), none)
  | _, .containerStart place id, .failed value, executor =>
    some (executor.answer self (.started place id value), value, none)
  | _, .waitForContainer place id, .failed value, executor =>
    some (executor.answer self (.waited place id value), value, none)
  | _, .containerRemove ctx target, .nothing, executor =>
    some (executor.remove self ctx target, (), none)
  | _, .append record id, .nothing, executor =>
    some (executor.append self id record, (), none)
  | _, .read record, .nothing, executor => some (executor, executor.get record, none)
  | _, .go group id, .nothing, executor =>
    some ({ executor with running := executor.running ++ [⟨group, threads, id⟩] }, (),
      some (group.job id))
  | _, .done group id, .nothing, executor =>
    some ({ executor with
      running := executor.running.filter fun member => member ≠ ⟨group, self, id⟩ }, (), none)
  | _, .wait group, .nothing, executor =>
    if ∀ member ∈ executor.running, member.group ≠ group then some (executor, (), none)
    else none
  | _, .withTimeout, .nothing, executor => some (executor, (), some .deadline)
  | _, .goCleanup ids, .nothing, executor =>
    some ({ executor with cleaning := true }, (), some (.cleanup ids))
  | _, .sendDone, .nothing, executor => some ({ executor with cleaned := true }, (), none)
  | _, .receiveDone, .nothing, executor =>
    if executor.cleaned = true then some (executor, (), none) else none
  | _, .cancel, .nothing, executor => some ({ executor with cancelled := true }, (), none)
  | _, .expire, .nothing, executor => some ({ executor with expired := true }, (), none)
  | _, _, _, _ => none

inductive Error where
  | returned
  | invalidServiceName
  | volumesManagerUndefined
  | cacheVolumesDisabled
  | volumeAlreadyDefined (containerPath : List UInt8)
  | unsupportedVolume (volume : List UInt8)
  deriving DecidableEq, Repr

/-- A parsed volume: from the host, a cache, or with another number of parts. -/
inductive Volume where
  | host (destination : List UInt8)
  | cache (destination : List UInt8)
  | other
  deriving DecidableEq, Repr

structure ServiceDefinition where
  service : List UInt8
  linkNames : List (List UInt8)
  aliasName : List UInt8
  deriving DecidableEq, Repr

/-- The configuration of a build: its volumes, the parser for them, the settings of the
volumes manager, the directory of the jobs, the services and the feature flag. -/
structure Config where
  volumes : List (List UInt8)
  parseVolume : List UInt8 → Option Volume
  cacheDir : List UInt8
  baseContainerPath : List UInt8
  disableCache : Bool
  jobsDir : List UInt8
  gitFetch : Bool
  servicesDefinitions : List ServiceDefinition
  waitForServicesTimeout : Int
  legacyVolumesMountingOrder : Bool

def removeContainer (ctx : Ctx) (target : Target) : Program Command Unit := do
  let _ ← call (.fails .network)
  call (.containerRemove ctx target)

def createService (definition : ServiceDefinition) : Program Command (Except Error Id) := do
  if definition.service = [] then pure (.error .invalidServiceName)
  else if ← call .hasVolumesManager then
    if ← call (.fails .serviceImage) then pure (.error .returned)
    else
      removeContainer .build .named
      let (id, failed) ← call (.containerCreate .service)
      if failed then pure (.error .returned)
      else if ← call (.containerStart .service id) then
        call (.append .temporary id)
        pure (.error .returned)
      else pure (.ok id)
  else pure (.error .volumesManagerUndefined)

/-- The loop of `createFromServiceDefinition` over the link names.  `links` are the names
that are taken, `container` is the container once it was created. -/
def createLinks (definition : ServiceDefinition) (container : Option Id) :
    List (List UInt8) → List (List UInt8) → Program Command (Except Error (List (List UInt8)))
  | [], links => pure (.ok links)
  | linkName :: linkNames, links =>
    if links.contains linkName then createLinks definition container linkNames links
    else
      match container with
      | some id => createLinks definition (some id) linkNames (linkName :: links)
      | none => do
        match ← createService definition with
        | .error err => pure (.error err)
        | .ok id =>
          call (.append .services id)
          call (.append .temporary id)
          createLinks definition (some id) linkNames (linkName :: links)

def createFromServiceDefinition (definition : ServiceDefinition)
    (links : List (List UInt8)) : Program Command (Except Error (List (List UInt8))) :=
  createLinks definition none
    (if definition.aliasName ≠ [] then definition.linkNames ++ [definition.aliasName]
      else definition.linkNames) links

def createEach : List ServiceDefinition → List (List UInt8) → Program Command (Option Error)
  | [], _ => pure none
  | definition :: definitions, links => do
    match ← createFromServiceDefinition definition links with
    | .error err => pure (some err)
    | .ok links => createEach definitions links

/-- The health check in its container: it cannot be started, or it returns, fails or takes
too long. -/
def checkHealth (id : Id) : Program Command Unit := do
  if ← call (.containerStart .healthCheck id) then pure ()
  else
    let _ ← call (.fails .healthCheck)
    pure ()

/-- `runServiceHealthCheckContainer`: the deferred removal uses the context of the build. -/
def runServiceHealthCheckContainer : Program Command Unit := do
  if ← call (.fails .helperImage) then pure ()
  else
    let (id, failed) ← call (.containerCreate .healthCheck)
    if failed then pure ()
    else
      checkHealth id
      removeContainer .build (.container id)

def waitForServiceContainer (service : Id) : Program Command Unit := do
  runServiceHealthCheckContainer
  let _ ← call (.fails .logs)
  call (.done .services service)

def goEach (group : Group) : List Id → Program Command Unit
  | [] => pure ()
  | id :: ids => do
    call (.go group id)
    goEach group ids

def defaultWaitForServicesTimeout : Int := 30

def waitForServices (config : Config) : Program Command Unit := do
  let timeout := if config.waitForServicesTimeout = 0 then defaultWaitForServicesTimeout
    else config.waitForServicesTimeout
  let services ← call (.read .services)
  if 0 < timeout ∧ services ≠ [] then
    goEach .services services
    call (.wait .services)
  else pure ()

def createServices (config : Config) : Program Command (Option Error) := do
  if ← call (.fails .servicesDefinitions) then pure (some .returned)
  else
    match ← createEach config.servicesDefinitions [] with
    | some err => pure (some err)
    | none =>
      waitForServices config
      let _ ← call (.fails .links)
      pure none

def appendGiven (record : Record) (id : Id) : Program Command Unit :=
  if id ≠ [] then call (.append record id) else pure ()

def createContainer : Program Command (Except Error Id) := do
  if ← call .hasVolumesManager then
    if ← call (.fails .buildImage) then pure (.error .returned)
    else if ← call (.fails .nanoCPUs) then pure (.error .returned)
    else
      removeContainer .build .named
      let (id, failed) ← call (.containerCreate .build)
      if failed then
        appendGiven .temporary id
        pure (.error .returned)
      else if ← call (.fails .inspect) then
        call (.append .temporary id)
        pure (.error .returned)
      else
        call (.append .builds id)
        call (.append .temporary id)
        pure (.ok id)
  else pure (.error .volumesManagerUndefined)

/-- `createCacheContainer`.  The place says which kind of volume the caller wants. -/
def createCacheContainer (place : Place) : Program Command (Except Error Id) := do
  let (id, failed) ← call (.containerCreate place)
  if failed then
    appendGiven .failedContainerIDs id
    pure (.error .returned)
  else pure (.ok id)

def startCacheContainer (place : Place) (id : Id) : Program Command (Option Error) := do
  if ← call (.containerStart place id) then
    call (.append .failedContainerIDs id)
    pure (some .returned)
  else if ← call (.waitForContainer place id) then
    call (.append .failedContainerIDs id)
    pure (some .returned)
  else pure none

def createCache (place : Place) : Program Command (Except Error Id) := do
  match ← createCacheContainer place with
  | .error err => pure (.error err)
  | .ok id =>
    match ← startCacheContainer place id with
    | some err => pure (.error err)
    | none => pure (.ok id)

def findOrCleanExisting : Program Command Id := do
  match ← call .inspectCache with
  | .nothing => pure []
  | .broken =>
    removeContainer .build .named
    pure []
  | .valid id => pure id

def getAbsoluteContainerPath (config : Config) (dir : List UInt8) : List UInt8 :=
  if rooted dir then dir else join [config.baseContainerPath, dir]

def createContainerBasedCacheVolume (config : Config) (place : Place)
    (containerPath : List UInt8) : Program Command (Except Error Id) := do
  let containerPath := getAbsoluteContainerPath config containerPath
  if ← call (.addManagedVolume containerPath) then
    pure (.error (.volumeAlreadyDefined containerPath))
  else
    let found ← findOrCleanExisting
    if found = [] then
      match ← createCache place with
      | .error err => pure (.error err)
      | .ok id =>
        call (.append .cacheContainerIDs id)
        pure (.ok id)
    else
      call (.append .cacheContainerIDs found)
      pure (.ok found)

def createHostBasedCacheVolume (config : Config) (containerPath : List UInt8) :
    Program Command (Option Error) := do
  let containerPath := getAbsoluteContainerPath config containerPath
  if ← call (.addManagedVolume containerPath) then
    pure (some (.volumeAlreadyDefined containerPath))
  else if ← call (.fails .absolutePath) then pure (some .returned)
  else pure none

def addCacheVolume (config : Config) (destination : List UInt8) :
    Program Command (Option Error) :=
  if config.disableCache then pure (some .cacheVolumesDisabled)
  else if config.cacheDir ≠ [] then createHostBasedCacheVolume config destination
  else do
    match ← createContainerBasedCacheVolume config .cacheVolume destination with
    | .error err => pure (some err)
    | .ok _ => pure none

def addHostVolume (config : Config) (destination : List UInt8) :
    Program Command (Option Error) := do
  let containerPath := getAbsoluteContainerPath config destination
  if ← call (.addManagedVolume containerPath) then
    pure (some (.volumeAlreadyDefined containerPath))
  else pure none

def createVolume (config : Config) (volume : List UInt8) : Program Command (Option Error) :=
  if volume = [] then pure none
  else
    match config.parseVolume volume with
    | none => pure (some .returned)
    | some (.host destination) => addHostVolume config destination
    | some (.cache destination) => addCacheVolume config destination
    | some .other => pure (some (.unsupportedVolume volume))

def createTemporary (config : Config) (containerPath : List UInt8) :
    Program Command (Option Error) := do
  match ← createContainerBasedCacheVolume config .temporaryVolume containerPath with
  | .error err => pure (some err)
  | .ok id =>
    call (.append .tmpContainerIDs id)
    pure none

def createEachVolume (config : Config) : List (List UInt8) → Program Command (Option Error)
  | [] => pure none
  | volume :: volumes => do
    match ← createVolume config volume with
    | none => createEachVolume config volumes
    | some .cacheVolumesDisabled => createEachVolume config volumes
    | some err => pure (some err)

def createVolumes (config : Config) : Program Command (Option Error) := do
  if ← call .hasVolumesManager then createEachVolume config config.volumes
  else pure (some .volumesManagerUndefined)

/-- A volume for the jobs that is defined already is no error. -/
def unlessDefined : Option Error → Option Error
  | some (.volumeAlreadyDefined _) => none
  | err => err

def createBuildVolume (config : Config) : Program Command (Option Error) := do
  if ← call .hasVolumesManager then
    if config.gitFetch then
      match ← createVolume config config.jobsDir with
      | none => pure none
      | some .cacheVolumesDisabled =>
        let err ← createTemporary config config.jobsDir
        pure (unlessDefined err)
      | some err => pure (unlessDefined (some err))
    else
      let err ← createTemporary config config.jobsDir
      pure (unlessDefined err)
  else pure (some .volumesManagerUndefined)

def bindDevices : Program Command (Option Error) := do
  if ← call (.fails .bindDevices) then pure (some .returned) else pure none

def createVolumesManager : Program Command (Option Error) := do
  if ← call (.fails .helperImage) then pure (some .returned)
  else
    call .setVolumesManager
    pure none

/-- The setups of `createDependencies` one after the other, until one fails. -/
def setupEach : List (Program Command (Option Error)) → Program Command (Option Error)
  | [] => pure none
  | setup :: setups => do
    match ← setup with
    | none => setupEach setups
    | some err => pure (some err)

def createDependencies (config : Config) : Program Command (Option Error) :=
  if config.legacyVolumesMountingOrder then
    setupEach [bindDevices, createVolumesManager, createBuildVolume config,
      createServices config, createVolumes config]
  else
    setupEach [bindDevices, createVolumesManager, createVolumes config,
      createBuildVolume config, createServices config]

def prepare (config : Config) : Program Command (Option Error) := do
  if ← call (.fails .connect) then pure (some .returned) else createDependencies config

/-- The calls of `Run`: of the command executor, which creates a container for a
predefined script and for the first other script, and of the executor for ssh. -/
inductive Kind where
  | command (scripts : List Bool)
  | ssh (scripts : Nat)
  deriving DecidableEq, Repr

/-- `Run` of the command executor for scripts of the build and predefined ones.  The
container of the build is used again. -/
def runEach (buildContainer : Option Id) : List Bool → Program Command Unit
  | [] => pure ()
  | predefined :: scripts => do
    if predefined then
      if ← call (.fails .helperImage) then runEach buildContainer scripts
      else
        match ← createContainer with
        | .error _ => runEach buildContainer scripts
        | .ok _ =>
          let _ ← call (.fails .watchContainer)
          runEach buildContainer scripts
    else
      match buildContainer with
      | some id =>
        let _ ← call (.fails .watchContainer)
        runEach (some id) scripts
      | none =>
        match ← createContainer with
        | .error _ => runEach none scripts
        | .ok id =>
          let _ ← call (.fails .watchContainer)
          runEach (some id) scripts

def runSsh : Nat → Program Command Unit
  | 0 => pure ()
  | scripts + 1 => do
    let _ ← call (.fails .sshCommand)
    runSsh scripts

/-- The rest of `Prepare` and the `Run` calls of an executor that is prepared.  After an
error of `Prepare` there are none. -/
def runAll : Kind → Program Command Unit
  | .command scripts => do
    if ← call (.fails .helperImage) then pure ()
    else if ← call (.fails .buildImage) then pure ()
    else runEach none scripts
  | .ssh scripts => do
    match ← createContainer with
    | .error _ => pure ()
    | .ok id =>
      if ← call (.containerStart .build id) then pure ()
      else if ← call (.fails .inspect) then pure ()
      else if ← call (.fails .sshCommand) then pure ()
      else runSsh scripts

def cleanupVolumes : Program Command Unit := do
  if ← call .hasVolumesManager then
    let failed ← call (.read .failedContainerIDs)
    let temporary ← call (.read .tmpContainerIDs)
    call (.goCleanup (failed ++ temporary))
    call .receiveDone
  else pure ()

def cleanup : Program Command Unit := do
  call .withTimeout
  let temporary ← call (.read .temporary)
  goEach .temporary temporary
  cleanupVolumes
  call (.wait .temporary)

def prepareAndRun (config : Config) (kind : Kind) : Program Command Unit := do
  match ← prepare config with
  | none => runAll kind
  | some _ => pure ()

def lifetime (config : Config) (kind : Kind) : Program Command Unit := do
  prepareAndRun config kind
  cleanup

def body : Job → Program Command Unit
  | .healthCheck service => waitForServiceContainer service
  | .remove group id => do
    removeContainer .cleanup (.container id)
    call (.done group id)
  | .cleanup ids => do
    goEach .caches ids
    call (.wait .caches)
    call .sendDone
  | .deadline => call .expire

def semantics : Semantics Executor Command Input Job where
  execute := execute
  body := body

def created : Executor where
  temporary := []
  builds := []
  services := []
  cacheContainerIDs := []
  tmpContainerIDs := []
  failedContainerIDs := []
  managedVolumes := []
  volumesManager := false
  cancelled := false
  expired := false
  running := []
  cleaning := false
  cleaned := false
  holding := []
  log := []

def start (config : Config) (kind : Kind) : Pool Executor Command where
  state := created
  threads := [lifetime config kind, call .cancel]

end GitlabRunner.Docker
