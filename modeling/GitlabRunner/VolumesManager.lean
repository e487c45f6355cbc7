import GitlabRunner.ActionRuns
import GitlabRunner.SlashPaths

/-!
# The volumes manager on a Docker host

`manager` and `cacheContainerManager` of `executors/docker/internal/volumes` give a job its
volumes: host directories, directories below the cache directory, and containers that hold
one path.
-/

namespace GitlabRunner.Volumes

open ByteText SlashPaths

def colon : UInt8 := byte ':'

structure Volume where
  source : List UInt8
  destination : List UInt8
  mode : List UInt8
  deriving DecidableEq, Repr

def Volume.definition (volume : Volume) : List UInt8 :=
  [colon].intercalate
    ((if volume.source ≠ [] then [volume.source] else []) ++ [volume.destination] ++
      if volume.mode ≠ [] then [volume.mode] else [])

def Volume.len (volume : Volume) : Nat :=
  (if volume.source ≠ [] then 1 else 0) + if volume.destination ≠ [] then 1 else 0

/-- The errors of the parser and of the manager.  All errors of Docker are one. -/
inductive Error where
  | invalidVolumeSpec (spec : List UInt8)
  | unsupportedVolume (volume : List UInt8)
  | cacheVolumesDisabled
  | volumeAlreadyDefined (containerPath : List UInt8)
  | absolutePath
  | docker
  deriving DecidableEq, Repr

def isNameChar (char : UInt8) : Bool :=
  !((ascii "\\/:*?\"<>|\r\n").contains char)

/-- The characters between the slashes of `linuxDir`. -/
def isDirChar (char : UInt8) : Bool :=
  isNameChar char && char ≠ byte ' '

/-- What follows the first slash of `linuxDir`: nonempty elements, each with at most one
slash behind it. -/
def isDirRest : Bool → List UInt8 → Bool
  | _, [] => true
  | afterSlash, char :: rest =>
    if char = slash then !afterSlash && isDirRest true rest
    else isDirChar char && isDirRest false rest

def isLinuxDir : List UInt8 → Bool
  | [] => false
  | char :: rest => char = slash && isDirRest true rest

def isLinuxVolumeName (text : List UInt8) : Bool :=
  text ≠ [] && text.all isNameChar

def isLinuxSource (text : List UInt8) : Bool :=
  isLinuxDir text || isLinuxVolumeName text

/-- The alternatives of `linuxMode`, in either case. -/
def isLinuxMode (text : List UInt8) : Bool :=
  ["ro", "rO", "Ro", "RO", "rw", "rW", "Rw", "RW", "z", "Z"].any fun mode => ascii mode = text

/-- `ParseVolume` of the Linux parser.  No part of the pattern matches a colon, so the
colons of a specification are those between its parts. -/
def parseVolume (spec : List UInt8) : Except Error Volume :=
  match spec.splitOn colon with
  | [destination] =>
    if isLinuxDir destination then .ok ⟨[], destination, []⟩
    else .error (.invalidVolumeSpec spec)
  | [first, second] =>
    if isLinuxSource first && isLinuxDir second then .ok ⟨first, second, []⟩
    else if isLinuxDir first && isLinuxMode second then .ok ⟨[], first, second⟩
    else .error (.invalidVolumeSpec spec)
  | [source, destination, mode] =>
    if isLinuxSource source && isLinuxDir destination && isLinuxMode mode then
      .ok ⟨source, destination, mode⟩
    else .error (.invalidVolumeSpec spec)
  | _ => .error (.invalidVolumeSpec spec)

structure ManagerConfig where
  cacheDir : List UInt8
  baseContainerPath : List UInt8
  uniqueName : List UInt8
  disableCache : Bool
  deriving DecidableEq, Repr

structure CacheContainer where
  id : Nat
  path : List UInt8
  deriving DecidableEq, Repr

structure Manager where
  config : ManagerConfig
  volumeBindings : List Volume
  cacheContainers : List CacheContainer
  tmpContainerIDs : List Nat
  managedVolumes : List (List UInt8)
  failedContainerIDs : List Nat
  deriving DecidableEq, Repr

def newManager (config : ManagerConfig) : Manager where
  config := config
  volumeBindings := []
  cacheContainers := []
  tmpContainerIDs := []
  managedVolumes := []
  failedContainerIDs := []

def Manager.binds (manager : Manager) : List (List UInt8) :=
  manager.volumeBindings.map Volume.definition

def Manager.containerIDs (manager : Manager) : List Nat :=
  manager.cacheContainers.map CacheContainer.id

/-- A container of the host, with the paths of its volumes. -/
structure Container where
  id : Nat
  name : List UInt8
  volumes : List (List UInt8)
  deriving DecidableEq, Repr

structure Host where
  containers : List Container
  next : Nat
  deriving DecidableEq, Repr

def Host.find (host : Host) (name : List UInt8) : Option Container :=
  host.containers.find? fun container => container.name = name

def Host.remove (host : Host) (id : Nat) : Host :=
  { host with containers := host.containers.filter fun container => container.id ≠ id }

/-- What becomes of a request for a container whose name is free.  A failed request may
have made the container, and may say so. -/
inductive Creation where
  | works
  | fails
  | failsWithID
  | failsAfterwards
  deriving DecidableEq, Repr

/-- What the system answers to a call of the manager.  `removes` says that a broken
container goes away. -/
structure Answers where
  inspectFails : Bool
  removes : Bool
  creation : Creation
  startFails : Bool
  waitFails : Bool
  workingDirectory : Option (List UInt8)
  deriving DecidableEq, Repr

/-- What happens to a container, and in which job: it is made, used by `Create` or by
`CreateTemporary`, or `Cleanup` asks Docker to remove it. -/
inductive Event where
  | made (job id : Nat)
  | persistent (job id : Nat)
  | temporary (job id : Nat)
  | cleaned (job id : Nat)
  deriving DecidableEq, Repr

structure World where
  host : Host
  job : Nat
  manager : Manager
  log : List Event
  deriving DecidableEq, Repr

namespace World

def getAbsoluteContainerPath (config : ManagerConfig) (dir : List UInt8) : List UInt8 :=
  if rooted dir then dir else join [config.baseContainerPath, dir]

def manage (world : World) (containerPath : List UInt8) : World :=
  { world with manager.managedVolumes := containerPath :: world.manager.managedVolumes }

def addManagedVolume (world : World) (containerPath : List UInt8) : Except Error World :=
  if world.manager.managedVolumes.contains containerPath then
    .error (.volumeAlreadyDefined containerPath)
  else .ok (world.manage containerPath)

def appendVolumeBind (world : World) (volume : Volume) : World :=
  { world with manager.volumeBindings := world.manager.volumeBindings ++ [volume] }

def appendFailed (world : World) (id : Nat) : World :=
  { world with manager.failedContainerIDs := world.manager.failedContainerIDs ++ [id] }

def findOrCleanExisting (answers : Answers) (containerName containerPath : List UInt8)
    (world : World) : Option Nat × World :=
  if answers.inspectFails then (none, world)
  else
    match world.host.find containerName with
    | none => (none, world)
    | some inspected =>
      if inspected.volumes.contains containerPath then (some inspected.id, world)
      else if answers.removes then
        (none, { world with host := world.host.remove inspected.id })
      else (none, world)

def make (containerName containerPath : List UInt8) (world : World) : World :=
  { world with
    host := {
      containers := ⟨world.host.next, containerName, [containerPath]⟩ :: world.host.containers
      next := world.host.next + 1 }
    log := world.log ++ [.made world.job world.host.next] }

/-- `createCacheContainer`.  A name that is taken is a conflict. -/
def createCacheContainer (answers : Answers) (containerName containerPath : List UInt8)
    (world : World) : Except Error Nat × World :=
  if (world.host.find containerName).isSome then (.error .docker, world)
  else
    match answers.creation with
    | .works => (.ok world.host.next, world.make containerName containerPath)
    | .fails => (.error .docker, world)
    | .failsWithID =>
      (.error .docker,
        (world.make containerName containerPath).appendFailed world.host.next)
    | .failsAfterwards => (.error .docker, world.make containerName containerPath)

def startCacheContainer (answers : Answers) (containerID : Nat) (world : World) :
    Option Error × World :=
  if answers.startFails then (some .docker, world.appendFailed containerID)
  else if answers.waitFails then (some .docker, world.appendFailed containerID)
  else (none, world)

def createCache (answers : Answers) (containerName containerPath : List UInt8)
    (world : World) : Except Error Nat × World :=
  match world.createCacheContainer answers containerName containerPath with
  | (.error err, world) => (.error err, world)
  | (.ok containerID, world) =>
    match world.startCacheContainer answers containerID with
    | (some err, world) => (.error err, world)
    | (none, world) => (.ok containerID, world)

def containerName (hash : List UInt8 → List UInt8) (config : ManagerConfig)
    (containerPath : List UInt8) : List UInt8 :=
  config.uniqueName ++ ascii "-cache-" ++ hash containerPath

def appendCacheContainer (world : World) (containerID : Nat) (containerPath : List UInt8) :
    World :=
  { world with
    manager.cacheContainers := world.manager.cacheContainers ++ [⟨containerID, containerPath⟩] }

def findOrCreate (answers : Answers) (containerName containerPath : List UInt8)
    (world : World) : Except Error Nat × World :=
  match world.findOrCleanExisting answers containerName containerPath with
  | (some containerID, world) =>
    (.ok containerID, world.appendCacheContainer containerID containerPath)
  | (none, world) =>
    match world.createCache answers containerName containerPath with
    | (.error err, world) => (.error err, world)
    | (.ok containerID, world) =>
      (.ok containerID, world.appendCacheContainer containerID containerPath)

section Calls

variable (hash : List UInt8 → List UInt8) (answers : Answers)

def createContainerBasedCacheVolume (containerPath : List UInt8) (world : World) :
    Except Error Nat × World :=
  let containerPath := getAbsoluteContainerPath world.manager.config containerPath
  match world.addManagedVolume containerPath with
  | .error err => (.error err, world)
  | .ok world =>
    world.findOrCreate answers (containerName hash world.manager.config containerPath)
      containerPath

def absolute (path : List UInt8) : Option (List UInt8) :=
  if rooted path then some (clean path)
  else answers.workingDirectory.map fun directory => join [directory, path]

def createHostBasedCacheVolume (containerPath : List UInt8) (world : World) :
    Option Error × World :=
  let containerPath := getAbsoluteContainerPath world.manager.config containerPath
  match world.addManagedVolume containerPath with
  | .error err => (some err, world)
  | .ok world =>
    let config := world.manager.config
    match absolute answers (join [config.cacheDir, config.uniqueName, hash containerPath]) with
    | none => (some .absolutePath, world)
    | some hostPath => (none, world.appendVolumeBind ⟨hostPath, containerPath, []⟩)

def addHostVolume (volume : Volume) (world : World) : Option Error × World :=
  let volume := { volume with
    destination := getAbsoluteContainerPath world.manager.config volume.destination }
  match world.addManagedVolume volume.destination with
  | .error err => (some err, world)
  | .ok world => (none, world.appendVolumeBind volume)

def addCacheVolume (volume : Volume) (world : World) : Option Error × World :=
  if world.manager.config.disableCache then (some .cacheVolumesDisabled, world)
  else if world.manager.config.cacheDir ≠ [] then
    world.createHostBasedCacheVolume hash answers volume.destination
  else
    match world.createContainerBasedCacheVolume hash answers volume.destination with
    | (.error err, world) => (some err, world)
    | (.ok containerID, world) =>
      (none, { world with log := world.log ++ [.persistent world.job containerID] })

def create (spec : List UInt8) (world : World) : Option Error × World :=
  if spec = [] then (none, world)
  else
    match parseVolume spec with
    | .error err => (some err, world)
    | .ok volume =>
      match volume.len with
      | 2 => world.addHostVolume volume
      | 1 => world.addCacheVolume hash answers volume
      | _ => (some (.unsupportedVolume spec), world)

def createTemporary (containerPath : List UInt8) (world : World) : Option Error × World :=
  match world.createContainerBasedCacheVolume hash answers containerPath with
  | (.error err, world) => (some err, world)
  | (.ok containerID, world) =>
    (none, { world with
      manager.tmpContainerIDs := world.manager.tmpContainerIDs ++ [containerID]
      log := world.log ++ [.temporary world.job containerID] })

end Calls

def removeContainer (world : World) (removal : Nat × Bool) : World :=
  { world with
    host := if removal.2 then world.host.remove removal.1 else world.host
    log := world.log ++ [.cleaned world.job removal.1] }

/-- `Cleanup`.  The removals run side by side, in any order. -/
def cleanup (removes : Nat → Bool) (world : World) : World :=
  ((world.manager.failedContainerIDs ++ world.manager.tmpContainerIDs).map fun id =>
    (id, removes id)).foldl removeContainer world

def start (config : ManagerConfig) (world : World) : World :=
  { world with job := world.job + 1, manager := newManager config }

end World

section Relations

variable (hash : List UInt8 → List UInt8) (name path : List UInt8) (world : World)
  (disabled temporary : Bool)

/-- What `createCache` comes to.  A container that was made may be left on the host, noted
as failed or not. -/
inductive CacheCreated : Except Error Nat × World → Prop where
  | refused : CacheCreated (.error .docker, world)
  | left : CacheCreated (.error .docker, world.make name path)
  | failed : CacheCreated
      (.error .docker, (world.make name path).appendFailed world.host.next)
  | works : CacheCreated (.ok world.host.next, world.make name path)

structure Host.Within (host whole : Host) : Prop where
  next : host.next = whole.next
  containers : host.containers ⊆ whole.containers

inductive Searched : Option Nat × World → Prop where
  | found {container : Container} (member : container ∈ world.host.containers)
    (named : container.name = name) (holds : path ∈ container.volumes) :
    Searched (some container.id, world)
  | missing {host : Host} (within : host.Within world.host) :
    Searched (none, { world with host := host })

/-- What `findOrCreate` comes to: a container of the host with the name and the path, or
what `createCache` comes to on a host that may lack a broken one. -/
inductive Provided : Except Error Nat × World → Prop where
  | found {container : Container} (member : container ∈ world.host.containers)
    (named : container.name = name) (holds : path ∈ container.volumes) :
    Provided (.ok container.id, world.appendCacheContainer container.id path)
  | failed {host : Host} {after : World} (within : host.Within world.host)
    (created : CacheCreated name path { world with host := host } (.error .docker, after)) :
    Provided (.error .docker, after)
  | made {host : Host} (within : host.Within world.host) :
    Provided (.ok host.next,
      ({ world with host := host }.make name path).appendCacheContainer host.next path)

def World.use (id : Nat) : World :=
  if temporary then
    { world with
      manager.tmpContainerIDs := world.manager.tmpContainerIDs ++ [id]
      log := world.log ++ [.temporary world.job id] }
  else { world with log := world.log ++ [.persistent world.job id] }

/-- What a call for a volume at a path comes to. -/
inductive Volumed : Option Error × World → Prop where
  | disabled (off : disabled = true) : Volumed (some .cacheVolumesDisabled, world)
  | defined (on : disabled = false) (managed : path ∈ world.manager.managedVolumes) :
    Volumed (some (.volumeAlreadyDefined path), world)
  | unresolved (unmanaged : path ∉ world.manager.managedVolumes) :
    Volumed (some .absolutePath, world.manage path)
  | bound {volume : Volume} (unmanaged : path ∉ world.manager.managedVolumes)
    (destination : volume.destination = path) :
    Volumed (none, (world.manage path).appendVolumeBind volume)
  | failed {after : World} (unmanaged : path ∉ world.manager.managedVolumes)
    (provided : Provided (World.containerName hash world.manager.config path) path
      (world.manage path) (.error .docker, after)) :
    Volumed (some .docker, after)
  | provided {id : Nat} {after : World} (unmanaged : path ∉ world.manager.managedVolumes)
    (provided : Provided (World.containerName hash world.manager.config path) path
      (world.manage path) (.ok id, after)) :
    Volumed (none, after.use temporary id)

end Relations

section Outcomes

variable {hash : List UInt8 → List UInt8} {answers : Answers} {name path : List UInt8}
  {world : World}

theorem addManagedVolume_eq_error (isManaged : path ∈ world.manager.managedVolumes) :
    world.addManagedVolume path = .error (.volumeAlreadyDefined path) :=
  if_pos (List.contains_iff_mem.mpr isManaged)

theorem addManagedVolume_eq_ok (unmanaged : path ∉ world.manager.managedVolumes) :
    world.addManagedVolume path = .ok (world.manage path) :=
  if_neg (mt List.contains_iff_mem.mp unmanaged)

open World

theorem cacheCreated : CacheCreated name path world (world.createCache answers name path) := by
  unfold createCache createCacheContainer
  by_cases taken : (world.host.find name).isSome = true
  · rw [if_pos taken]
    exact .refused
  · rw [if_neg taken]
    cases answers.creation with
    | fails => exact .refused
    | failsWithID => exact .failed
    | failsAfterwards => exact .left
    | works =>
      unfold startCacheContainer
      cases answers.startFails with
      | true => exact .failed
      | false =>
        cases answers.waitFails with
        | true => exact .failed
        | false => exact .works

theorem searched : Searched name path world (world.findOrCleanExisting answers name path) := by
  fun_cases findOrCleanExisting with
  | case1 | case2 | case5 => exact .missing ⟨rfl, List.Subset.refl _⟩
  | case3 _ container inspected holds =>
    have named := List.find?_some inspected
    exact .found (List.mem_of_find?_eq_some inspected) (by simpa using named)
      (List.contains_iff_mem.mp holds)
  | case4 => exact .missing ⟨rfl, List.filter_sublist.subset⟩

theorem provided : Provided name path world (world.findOrCreate answers name path) := by
  have looked := @searched answers name path world
  unfold findOrCreate
  generalize world.findOrCleanExisting answers name path = result at looked ⊢
  cases looked with
  | found member named holds => exact .found member named holds
  | @missing host within =>
    have created := @cacheCreated answers name path { world with host := host }
    dsimp only
    generalize createCache answers name path _ = result at created ⊢
    cases created with
    | refused => exact .failed within .refused
    | left => exact .failed within .left
    | failed => exact .failed within .failed
    | works => exact .made within

variable {disabled temporary : Bool} {destination : List UInt8}

theorem volumed_container (on : disabled = false)
    (absolute : getAbsoluteContainerPath world.manager.config destination = path) :
    match world.createContainerBasedCacheVolume hash answers destination with
    | (.error err, after) => Volumed hash path world disabled temporary (some err, after)
    | (.ok id, after) =>
      Volumed hash path world disabled temporary (none, after.use temporary id) := by
  subst absolute
  unfold createContainerBasedCacheVolume
  dsimp only
  by_cases managed : getAbsoluteContainerPath world.manager.config destination ∈
      world.manager.managedVolumes
  · rw [addManagedVolume_eq_error managed]
    exact .defined on managed
  · rw [addManagedVolume_eq_ok managed]
    dsimp only
    split
    · rename_i err after failed
      have given := failed ▸ provided
      cases given with
      | failed within created => exact .failed managed (.failed within created)
    · rename_i id after works
      exact .provided managed (works ▸ provided)

theorem volumed_createTemporary :
    Volumed hash (getAbsoluteContainerPath world.manager.config destination) world
      false true (world.createTemporary hash answers destination) := by
  have based := @volumed_container hash answers _ world false true destination rfl rfl
  unfold createTemporary
  split
  · rename_i err after failed
    rwa [failed] at based
  · rename_i id after works
    rwa [works] at based

theorem volumed_addHostVolume (volume : Volume) :
    Volumed hash (getAbsoluteContainerPath world.manager.config volume.destination) world
      false false (world.addHostVolume volume) := by
  unfold addHostVolume
  dsimp only
  by_cases managed : getAbsoluteContainerPath world.manager.config volume.destination ∈
      world.manager.managedVolumes
  · rw [addManagedVolume_eq_error managed]
    exact .defined rfl managed
  · rw [addManagedVolume_eq_ok managed]
    exact .bound managed rfl

theorem volumed_addCacheVolume (volume : Volume) :
    Volumed hash (getAbsoluteContainerPath world.manager.config volume.destination) world
      world.manager.config.disableCache false (world.addCacheVolume hash answers volume) := by
  unfold addCacheVolume
  split
  · rename_i off
    exact .disabled off
  · rename_i on
    rw [Bool.not_eq_true] at on
    split
    · unfold createHostBasedCacheVolume
      dsimp only
      by_cases managed : getAbsoluteContainerPath world.manager.config volume.destination ∈
          world.manager.managedVolumes
      · rw [addManagedVolume_eq_error managed]
        exact .defined on managed
      · rw [addManagedVolume_eq_ok managed]
        dsimp only
        split
        · exact .unresolved managed
        · exact .bound managed rfl
    · have based := @volumed_container hash answers _ world _ false volume.destination on rfl
      split
      · rename_i err after failed
        rwa [failed] at based
      · rename_i id after works
        rwa [works] at based

end Outcomes

/-- The steps of a host on which one job runs after the other. -/
inductive Action where
  | start (config : ManagerConfig)
  | create (spec : List UInt8) (answers : Answers)
  | createTemporary (containerPath : List UInt8) (answers : Answers)
  | cleanup (removes : Nat → Bool)

def step (hash : List UInt8 → List UInt8) (world : World) : Action → Option World
  | .start config => some (world.start config)
  | .create spec answers => some (world.create hash answers spec).2
  | .createTemporary containerPath answers =>
    some (world.createTemporary hash answers containerPath).2
  | .cleanup removes => some (world.cleanup removes)

def World.initial (host : Host) (config : ManagerConfig) : World where
  host := host
  job := 0
  manager := newManager config
  log := []

def smoothly : Answers where
  inspectFails := false
  removes := true
  creation := .works
  startFails := false
  waitFails := false
  workingDirectory := some (ascii "/")

def projectConfig : ManagerConfig where
  cacheDir := []
  baseContainerPath := ascii "/builds"
  uniqueName := ascii "runner-01234567-project-1-concurrent-0"
  disableCache := false

def emptyHost : Host := ⟨[], 0⟩

end GitlabRunner.Volumes
