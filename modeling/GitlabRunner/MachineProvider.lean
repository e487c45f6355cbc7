import GitlabRunner.ConcurrentPrograms

/-!
# The docker-machine provider

`executors/docker/machine/provider.go` keeps a record of every machine and creates, lends
and removes machines.
-/

namespace GitlabRunner.Machine

open Concurrent Option

inductive MachineState where
  | idle
  | acquired
  | creating
  | used
  | removing
  deriving DecidableEq, Repr

inductive RemoveReason where
  | failedToCreate
  | unavailable
  | tooManyBuilds
  | tooManyMachines
  | tooManyIdleMachines
  | releasedTooManyBuilds
  deriving DecidableEq, Repr

def RemoveReason.text : RemoveReason → String
  | .failedToCreate => "Failed to create"
  | .unavailable => "machine is unavailable"
  | .tooManyBuilds => "Too many builds"
  | .tooManyMachines => "Too many machines"
  | .tooManyIdleMachines => "Too many idle machines"
  | .releasedTooManyBuilds => "Too many builds"

/-- `machineDetails`.  The last three fields are ghosts: the goroutines in charge
of the machine (a build that took it, the goroutine that creates it or the one
that removes it), the builds it was given to, and whether its removal was
requested. -/
structure Details where
  name : String
  usedCount : Int
  state : MachineState
  reason : String
  retryCount : Int
  listed : Bool
  owners : List Nat
  takers : List Nat
  requested : Bool
  deriving DecidableEq, Repr

/-- A `*machineDetails`: the record and its name, which never changes. -/
structure Pointer where
  record : Nat
  name : String
  deriving DecidableEq, Repr

structure Provider where
  machines : List Details
  acquireLock : Option Nat
  deriving DecidableEq, Repr

def Provider.find (provider : Provider) (name : String) : Option Nat :=
  provider.machines.findIdx? fun details => details.listed && details.name = name

def Provider.add (provider : Provider) (details : Details) : Provider :=
  { provider with machines := provider.machines ++ [details] }

def Provider.modify (provider : Provider) (record : Nat) (change : Details → Details) :
    Provider :=
  { provider with machines := provider.machines.modify record change }

def Details.new (name : String) : Details where
  name := name
  usedCount := 1
  state := .idle
  reason := ""
  retryCount := 0
  listed := true
  owners := []
  takers := []
  requested := false

def Provider.lookup (provider : Provider) (name : String) : Provider × Nat :=
  match provider.find name with
  | some record => (provider, record)
  | none => (provider.add (.new name), provider.machines.length)

def Details.isUsed (details : Details) : Bool :=
  details.state ≠ .idle

def Details.take (thread : Nat) (details : Details) : Details :=
  { details with
    state := .acquired
    owners := details.owners ++ [thread]
    takers := details.takers ++ [thread] }

/-- A thread writes the state.  Writing `idle` gives the machine up, writing
`acquired` or `used` is done for the build. -/
def Details.write (thread : Nat) (state : MachineState) (details : Details) : Details :=
  { details with
    state := state
    owners := if state = .idle then details.owners.erase thread else details.owners
    takers :=
      if state = .acquired ∨ state = .used then details.takers ++ [thread]
      else details.takers }

/-- A thread hands a machine over to a goroutine that it starts. -/
def Details.handOver (thread started : Nat) (details : Details) : Details :=
  { details with owners := details.owners.erase thread ++ [started] }

def Details.remove (thread started : Nat) (reason : RemoveReason) (details : Details) :
    Details :=
  { details.handOver thread started with
    reason := reason.text
    state := .removing
    retryCount := 0
    requested := true }

/-- The `docker-machine` commands that succeed or fail. -/
inductive DockerCall where
  | canConnect
  | credentials
  | create
  | provision
  | exist
  | stop
  | remove
  deriving DecidableEq, Repr

inductive BuildEvent where
  | acquireBuild
  | createSession
  | acquireRequest
  | requestJob
  | newBuild
  | createExecutor
  | prepare
  | cleanup
  | buildError
  | contextEnded
  | run
  deriving DecidableEq, Repr

inductive Command : Type → Type where
  | machineDetails (name : String) (acquire : Bool) : Command (Option Pointer)
  | newMachine (state : MachineState) : Command Pointer
  | readState (details : Pointer) : Command MachineState
  | readUsedCount (details : Pointer) : Command Int
  | readRetryCount (details : Pointer) : Command Int
  | writeState (details : Pointer) (state : MachineState) : Command Unit
  | resetCounts (details : Pointer) : Command Unit
  | addRetry (details : Pointer) : Command Unit
  | addUse (details : Pointer) : Command Unit
  | remove (name : String) (reason : RemoveReason) : Command Bool
  | deleteDetails (details : Pointer) : Command Unit
  | startCreation (details : Pointer) : Command Unit
  | retryRemoval (details : Pointer) : Command Unit
  | list : Command (Option (List String))
  | docker (call : DockerCall) (name : String) : Command Bool
  | isOffPeak : Command Bool
  | idleTooLong (details : Pointer) : Command Bool
  | lockAcquire : Command Unit
  | unlockAcquire : Command Unit
  | build (event : BuildEvent) : Command Bool

inductive Input where
  | nothing
  | answer (holds : Bool)
  | name (name : String)
  | names (machines : Option (List String))
  deriving DecidableEq, Repr

/-- The goroutines that the provider starts: the creation of an idle machine and
the removal of a machine. -/
inductive Job where
  | creation (details : Pointer)
  | removal (details : Pointer)
  deriving DecidableEq, Repr

/-- What the commands do.  A new machine name contains the time and four random
bytes, so `newMachine` only gets names without a record. -/
def execute (self fresh : Nat) : {β : Type} → Command β → Input → Provider →
    Option (Provider × β × Option Job)
  | _, .machineDetails name acquire, .nothing, provider =>
    let (provider, record) := provider.lookup name
    if acquire then
      if provider.machines[record]?.any Details.isUsed then some (provider, none, none)
      else some (provider.modify record (.take self), some ⟨record, name⟩, none)
    else some (provider, some ⟨record, name⟩, none)
  | _, .newMachine _, .name name, provider =>
    if (provider.find name).isSome then none
    else
      some (provider.add { Details.new name with state := .acquired, owners := [self] },
        ⟨provider.machines.length, name⟩, none)
  | _, .readState details, .nothing, provider =>
    provider.machines[details.record]?.map fun found => (provider, found.state, none)
  | _, .readUsedCount details, .nothing, provider =>
    provider.machines[details.record]?.map fun found => (provider, found.usedCount, none)
  | _, .readRetryCount details, .nothing, provider =>
    provider.machines[details.record]?.map fun found => (provider, found.retryCount, none)
  | _, .writeState details state, .nothing, provider =>
    some (provider.modify details.record (.write self state), (), none)
  | _, .resetCounts details, .nothing, provider =>
    some (provider.modify details.record
      fun found => { found with usedCount := 0, retryCount := 0 }, (), none)
  | _, .addRetry details, .nothing, provider =>
    some (provider.modify details.record
      fun found => { found with retryCount := found.retryCount + 1 }, (), none)
  | _, .addUse details, .nothing, provider =>
    some (provider.modify details.record
      fun found => { found with usedCount := found.usedCount + 1 }, (), none)
  | _, .remove name reason, .nothing, provider =>
    match provider.find name with
    | none => some (provider, false, none)
    | some record =>
      some (provider.modify record (.remove self fresh reason), true,
        some (.removal ⟨record, name⟩))
  | _, .deleteDetails details, .nothing, provider =>
    match provider.find details.name with
    | none => some (provider, (), none)
    | some record =>
      some (provider.modify record
        fun found => { found with listed := false, owners := found.owners.erase self },
        (), none)
  | _, .startCreation details, .nothing, provider =>
    some (provider.modify details.record (.handOver self fresh), (),
      some (.creation details))
  | _, .retryRemoval details, .nothing, provider =>
    some (provider.modify details.record (.handOver self fresh), (),
      some (.removal details))
  | _, .list, .names machines, provider => some (provider, machines, none)
  | _, .docker _ _, .answer holds, provider => some (provider, holds, none)
  | _, .isOffPeak, .answer holds, provider => some (provider, holds, none)
  | _, .idleTooLong _, .answer holds, provider => some (provider, holds, none)
  | _, .lockAcquire, .nothing, provider =>
    if provider.acquireLock.isSome then none
    else some ({ provider with acquireLock := some self }, (), none)
  | _, .unlockAcquire, .nothing, provider =>
    some ({ provider with acquireLock := none }, (), none)
  | _, .build _, .answer holds, provider => some (provider, holds, none)
  | _, _, _, _ => none

/-- The part of a `RunnerConfig` that the provider reads.  A missing `Machine`
variable {response : β}

section is an empty machine name.  `matchesFilter` is the test of
`matchesMachineFilter` with the runner's own filter. -/
structure RunnerConfig where
  limit : Int
  machineName : String
  maxBuilds : Int
  idleCount : Int
  offPeakIdleCount : Int
  matchesFilter : String → Bool

/-- `machinesData`, without the name of the runner. -/
structure MachinesData where
  acquired : Int
  creating : Int
  idle : Int
  used : Int
  removing : Int
  stuckOnRemoving : Int
  deriving DecidableEq, Repr

namespace MachinesData

def empty : MachinesData :=
  ⟨0, 0, 0, 0, 0, 0⟩

def available (data : MachinesData) : Int :=
  data.acquired + data.creating + data.idle

def total (data : MachinesData) : Int :=
  data.acquired + data.creating + data.idle + data.used + data.removing +
    data.stuckOnRemoving

end MachinesData

def removeRetryTries : Int := 3

open Program (call)

/-- `MachinesData.Add`.  `isStuckOnRemove` reads the state once more. -/
def addDetails (data : MachinesData) (details : Pointer) : Program Command MachinesData := do
  match ← call (.readState details) with
  | .idle => pure { data with idle := data.idle + 1 }
  | .creating => pure { data with creating := data.creating + 1 }
  | .acquired => pure { data with acquired := data.acquired + 1 }
  | .used => pure { data with used := data.used + 1 }
  | .removing =>
    let state ← call (.readState details)
    let retryCount ← call (.readRetryCount details)
    if state = .removing ∧ retryCount ≥ removeRetryTries then
      pure { data with stuckOnRemoving := data.stuckOnRemoving + 1 }
    else pure { data with removing := data.removing + 1 }

def getIdleCount (config : RunnerConfig) : Program Command Int := do
  if ← call .isOffPeak then pure config.offPeakIdleCount else pure config.idleCount

/-- The part of `create` before its goroutine starts. -/
def create (state : MachineState) : Program Command Pointer := do
  let details ← call (.newMachine state)
  call (.writeState details .creating)
  call (.resetCounts details)
  pure details

def provision (details : Pointer) : Nat → Bool → Program Command Bool
  | 0, created => pure created
  | _ + 1, true => pure true
  | tries + 1, false => do
    call (.addRetry details)
    let provisioned ← call (.docker .provision details.name)
    provision details tries provisioned

/-- The goroutine of `create`: whether the machine was created. -/
def createMachine (details : Pointer) (state : MachineState) : Program Command Bool := do
  let created ← call (.docker .create details.name)
  if ← provision details 3 created then
    call (.writeState details state)
    pure true
  else
    let _ ← call (.remove details.name .failedToCreate)
    pure false

def removeMachine (details : Pointer) : Program Command Bool := do
  if ← call (.docker .exist details.name) then
    let _ ← call (.docker .stop details.name)
    if ← call (.docker .remove details.name) then pure true
    else
      call (.addRetry details)
      pure false
  else pure true

/-- One round of the loop of `finalizeRemoval`; the next round is a new job. -/
def finalizeRemoval (details : Pointer) : Program Command Unit := do
  if ← removeMachine details then call (.deleteDetails details)
  else call (.retryRemoval details)

def body : Job → Program Command Unit
  | .creation details => do
    let _ ← createMachine details .idle
  | .removal details => finalizeRemoval details

/-- The loop of `findFreeMachine`, over the names from the last to the first. -/
def findFreeMachine : List String → Program Command (Option Pointer)
  | [] => pure none
  | name :: names => do
    match ← call (.machineDetails name true) with
    | none => findFreeMachine names
    | some details =>
      if ← call (.docker .canConnect name) then pure (some details)
      else
        let _ ← call (.remove name .unavailable)
        findFreeMachine names

def loadMachines (config : RunnerConfig) : Program Command (Option (List String)) := do
  match ← call .list with
  | none => pure none
  | some machines => pure (some (machines.filter config.matchesFilter))

/-- `useMachine`, with no result for an error.  The caller waits for the goroutine
of `create`, so its commands are performed in place. -/
def useMachine (config : RunnerConfig) : Program Command (Option Pointer) := do
  match ← loadMachines config with
  | none => pure none
  | some machines =>
    match ← findFreeMachine machines.reverse with
    | some details => pure (some details)
    | none =>
      let details ← create .acquired
      if ← createMachine details .acquired then pure (some details) else pure none

def retryUseMachine (config : RunnerConfig) : Nat → Program Command (Option Pointer)
  | 0 => pure none
  | tries + 1 => do
    match ← useMachine config with
    | some details => pure (some details)
    | none => retryUseMachine config tries

/-- `updateMachine`: why an idle machine has to go. -/
def updateMachine (config : RunnerConfig) (data : MachinesData) (details : Pointer) :
    Program Command (Option RemoveReason) := do
  if (← call (.readState details)) ≠ .idle then pure none
  else if ← tooManyBuilds then pure (some .tooManyBuilds)
  else if data.total ≥ config.limit ∧ config.limit > 0 then pure (some .tooManyMachines)
  else if ← call (.idleTooLong details) then
    if data.idle ≥ (← getIdleCount config) then pure (some .tooManyIdleMachines)
    else pure none
  else pure none
where
  tooManyBuilds : Program Command Bool := do
    if config.maxBuilds > 0 then
      pure (decide ((← call (.readUsedCount details)) ≥ config.maxBuilds))
    else pure false

/-- The loop of `updateMachines`, with the data and the valid machines so far. -/
def updateMachines (config : RunnerConfig) :
    List String → MachinesData → List String → Program Command (MachinesData × List String)
  | [], data, validMachines => pure (data, validMachines)
  | name :: machines, data, validMachines => do
    match ← call (.machineDetails name false) with
    | none => updateMachines config machines data validMachines
    | some details =>
      match ← updateMachine config data details with
      | none =>
        let data ← addDetails data details
        updateMachines config machines data (validMachines ++ [name])
      | some reason =>
        let _ ← call (.remove name reason)
        let data ← addDetails data details
        updateMachines config machines data validMachines

/-- The loop of `createMachines` with the rounds that are left.  Each round adds
an available machine, so there are no more rounds than machines missing. -/
def createMachines (config : RunnerConfig) :
    Nat → MachinesData → Program Command MachinesData
  | 0, data => pure data
  | rounds + 1, data => do
    if data.available ≥ (← getIdleCount config) then pure data
    else if data.total ≥ config.limit ∧ config.limit > 0 then pure data
    else
      let details ← create .idle
      call (.startCreation details)
      createMachines config rounds { data with creating := data.creating + 1 }

def missingMachines (config : RunnerConfig) (data : MachinesData) : Nat :=
  (max config.idleCount config.offPeakIdleCount - data.available).toNat

/-- The section of `Acquire` under its lock. -/
def acquireLocked (config : RunnerConfig) : Program Command (Option (Option Pointer)) := do
  match ← loadMachines config with
  | none => pure none
  | some machines =>
    let (data, validMachines) ← updateMachines config machines .empty []
    let data ← createMachines config (missingMachines config data) data
    match ← findFreeMachine validMachines.reverse with
    | some details => pure (some (some details))
    | none =>
      if (← getIdleCount config) ≠ 0 ∧ data.idle = 0 then pure none
      else pure (some none)

/-- `Acquire`: no result for an error, and otherwise the machine, if there is one. -/
def acquire (config : RunnerConfig) : Program Command (Option (Option Pointer)) := do
  if config.machineName = "" then pure none
  else
    call .lockAcquire
    let result ← acquireLocked config
    call .unlockAcquire
    pure result

def release (config : RunnerConfig) : Option Pointer → Program Command Unit
  | none => pure ()
  | some details => do
    if ← removed details then pure () else call (.writeState details .idle)
where
  removed (details : Pointer) : Program Command Bool := do
    if config.maxBuilds > 0 then
      if (← call (.readUsedCount details)) ≥ config.maxBuilds then
        call (.remove details.name .releasedTooManyBuilds)
      else pure false
    else pure false

/-- The machine of `Use` that was acquired before and can be reached. -/
def usable : Option Pointer → Program Command (Option Pointer)
  | none => pure none
  | some details => do
    if (← call (.readState details)) = .acquired then
      if ← call (.docker .canConnect details.name) then pure (some details) else pure none
    else pure none

/-- `Use` after a machine has been found; `newData` is the machine if it is a new
one. -/
def useDetails (config : RunnerConfig) (details : Pointer) (newData : Option Pointer) :
    Program Command (Option (Option Pointer)) := do
  if ← call (.docker .credentials details.name) then
    call (.writeState details .used)
    call (.addUse details)
    pure (some newData)
  else
    release config newData
    pure none

/-- `Use`: no result for an error, and otherwise the new machine, if it is one. -/
def use (config : RunnerConfig) (data : Option Pointer) :
    Program Command (Option (Option Pointer)) := do
  match ← usable data with
  | some details => useDetails config details none
  | none =>
    match ← retryUseMachine config 3 with
    | none => pure none
    | some details => useDetails config details (some details)

def semantics : Semantics Provider Command Input Job where
  execute := execute
  body := body

def Provider.start : Provider where
  machines := []
  acquireLock := none

/-- A call of a build to the provider.  `use` and `release` name one of the
machines that the build holds. -/
inductive Call where
  | acquire
  | use (data : Option Nat)
  | release (data : Nat)
  deriving DecidableEq, Repr

def build (config : RunnerConfig) : List Call → List Pointer → Program Command Unit
  | [], _ => pure ()
  | .acquire :: calls, held => do
    let result ← acquire config
    build config calls (result.join.toList ++ held)
  | .use data :: calls, held => do
    let result ← use config (data.bind fun index => held[index]?)
    build config calls (result.join.toList ++ held)
  | .release data :: calls, held => do
    release config held[data]?
    build config calls (held.eraseIdx data)

def startBuilds (builds : List (RunnerConfig × List Call)) : Pool Provider Command where
  state := Provider.start
  threads := builds.map fun (config, calls) => build config calls []

section Records

variable {provider : Provider} {name : String} {record : Nat} {details : Details}
  {change : Details → Details}

theorem Provider.find_eq_some (found : provider.find name = some record) :
    ∃ details, provider.machines[record]? = some details ∧ details.listed = true ∧
      details.name = name := by
  obtain ⟨bound, holds, -⟩ := List.findIdx?_eq_some_iff_getElem.mp found
  simp only [Bool.and_eq_true, decide_eq_true_eq] at holds
  exact ⟨provider.machines[record], List.getElem?_eq_getElem bound, holds⟩

theorem Provider.find_eq_none (absent : provider.find name = none)
    (found : provider.machines[record]? = some details) (listed : details.listed = true) :
    details.name ≠ name := by
  intro same
  have holds := List.findIdx?_eq_none_iff.mp absent details (List.mem_of_getElem? found)
  simp [listed, same] at holds

theorem Provider.getElem?_modify (provider : Provider) (record index : Nat)
    (change : Details → Details) :
    (provider.modify record change).machines[index]? =
      if record = index then provider.machines[index]?.map change
      else provider.machines[index]? := by
  rw [modify, List.getElem?_modify]
  split <;> simp

theorem Provider.modify_eq_some {index : Nat}
    (found : (provider.modify record change).machines[index]? = some details) :
    ∃ old, provider.machines[index]? = some old ∧
      (record = index ∧ details = change old ∨ record ≠ index ∧ details = old) := by
  rw [getElem?_modify] at found
  split at found
  · rename_i same
    obtain ⟨old, position, changed⟩ := map_eq_some_iff.mp found
    exact ⟨old, position, .inl ⟨same, changed.symm⟩⟩
  · rename_i other
    exact ⟨details, found, .inr ⟨other, rfl⟩⟩

theorem Provider.add_eq_some {new : Details} {index : Nat}
    (found : (provider.add new).machines[index]? = some details) :
    provider.machines[index]? = some details ∨
      index = provider.machines.length ∧ details = new := by
  rcases Nat.lt_or_ge index provider.machines.length with old | beyond
  · rw [add, List.getElem?_append_left old] at found
    exact .inl found
  · rw [add, List.getElem?_append_right beyond, List.getElem?_singleton] at found
    split at found
    · exact .inr ⟨by omega, (some.inj found).symm⟩
    · cases found

def Provider.Unique (provider : Provider) : Prop :=
  ∀ (first second : Nat) (left right : Details),
    provider.machines[first]? = some left → provider.machines[second]? = some right →
    left.listed = true → right.listed = true → left.name = right.name → first = second

theorem Provider.Unique.find (unique : provider.Unique)
    (found : provider.machines[record]? = some details) (listed : details.listed = true) :
    provider.find details.name = some record := by
  cases entry : provider.find details.name with
  | none => exact absurd rfl (find_eq_none entry found listed)
  | some other =>
    obtain ⟨second, foundSecond, listedSecond, name⟩ := find_eq_some entry
    rw [unique other record second details foundSecond found listedSecond listed name]

theorem Provider.Unique.modify (unique : provider.Unique)
    (kept : ∀ old, provider.machines[record]? = some old →
      (change old).name = old.name ∧ ((change old).listed = true → old.listed = true)) :
    (provider.modify record change).Unique := by
  have before : ∀ (index : Nat) (after : Details),
      (provider.modify record change).machines[index]? = some after →
      ∃ old : Details, provider.machines[index]? = some old ∧
        after.name = old.name ∧ (after.listed = true → old.listed = true) := by
    intro index after found
    obtain ⟨old, position, ⟨rfl, rfl⟩ | ⟨-, rfl⟩⟩ := modify_eq_some found
    · exact ⟨old, position, kept old position⟩
    · exact ⟨after, position, rfl, id⟩
  intro first second left right foundLeft foundRight listedLeft listedRight same
  obtain ⟨oldLeft, positionLeft, nameLeft, keepsLeft⟩ := before first left foundLeft
  obtain ⟨oldRight, positionRight, nameRight, keepsRight⟩ := before second right foundRight
  exact unique first second oldLeft oldRight positionLeft positionRight
    (keepsLeft listedLeft) (keepsRight listedRight) (by rw [← nameLeft, ← nameRight, same])

theorem Provider.Unique.add (unique : provider.Unique)
    (absent : provider.find details.name = none) : (provider.add details).Unique := by
  intro first second left right foundLeft foundRight listedLeft listedRight same
  rcases add_eq_some foundLeft with oldLeft | ⟨atEnd, rfl⟩ <;>
    rcases add_eq_some foundRight with oldRight | ⟨atEndRight, rfl⟩
  · exact unique first second left right oldLeft oldRight listedLeft listedRight same
  · exact absurd same (find_eq_none absent oldLeft listedLeft)
  · exact absurd same.symm (find_eq_none absent oldRight listedRight)
  · rw [atEnd, atEndRight]

end Records

section Execute

variable {self fresh : Nat} {β : Type} {input : Input} {provider after : Provider}
  {job : Option Job}

def Command.observes : {β : Type} → Command β → Bool
  | _, .readState _ => true
  | _, .readUsedCount _ => true
  | _, .readRetryCount _ => true
  | _, .list => true
  | _, .docker _ _ => true
  | _, .isOffPeak => true
  | _, .idleTooLong _ => true
  | _, .lockAcquire => true
  | _, .unlockAcquire => true
  | _, .build _ => true
  | _, _ => false
variable {command : Command β}

theorem execute_observes (observes : command.observes = true)
    (executed : execute self fresh command input provider = some (after, response, job)) :
    after.machines = provider.machines ∧ job = none := by
  cases command <;> try cases observes
  all_goals cases input <;> simp only [execute, reduceCtorEq] at executed
  case lockAcquire.refl.nothing =>
    split at executed
    · cases executed
    · cases executed
      exact ⟨rfl, rfl⟩
  all_goals
    simp only [map_eq_some_iff, some.injEq, Prod.mk.injEq] at executed
    grind

/-- The locked section of `machineDetails`: it makes a missing record and, if
asked to, takes a record that is idle. -/
theorem execute_machineDetails {name : String} {acquire : Bool} {response : Option Pointer}
    (executed : execute self fresh (.machineDetails name acquire) input provider =
      some (after, response, job)) :
    job = none ∧ ∃ found record, provider.lookup name = (found, record) ∧
      (acquire = true ∧ response = none ∧ after = found ∧
          found.machines[record]?.any Details.isUsed = true ∨
        acquire = true ∧ response = some ⟨record, name⟩ ∧
          after = found.modify record (.take self) ∧
          found.machines[record]?.any Details.isUsed = false ∨
        acquire = false ∧ response = some ⟨record, name⟩ ∧ after = found) := by
  cases input <;> first | cases executed | skip
  rcases looked : provider.lookup name with ⟨found, record⟩
  simp only [execute, looked] at executed
  split at executed
  · rename_i asked
    split at executed
    · rename_i used
      cases executed
      exact ⟨rfl, _, _, rfl, .inl ⟨asked, rfl, rfl, used⟩⟩
    · rename_i free
      cases executed
      exact ⟨rfl, _, _, rfl, .inr (.inl ⟨asked, rfl, rfl, by simpa using free⟩)⟩
  · rename_i notAsked
    cases executed
    exact ⟨rfl, _, _, rfl, .inr (.inr ⟨by simpa using notAsked, rfl, rfl⟩)⟩

theorem execute_newMachine {state : MachineState} {response : Pointer}
    (executed : execute self fresh (.newMachine state) input provider =
      some (after, response, job)) :
    job = none ∧ ∃ name, provider.find name = none ∧
      response = ⟨provider.machines.length, name⟩ ∧
      after = provider.add { Details.new name with state := .acquired, owners := [self] } := by
  cases input <;> first | cases executed | skip
  rename_i name
  simp only [execute] at executed
  split at executed
  · cases executed
  · rename_i absent
    cases executed
    exact ⟨rfl, name, by simpa using absent, rfl, rfl⟩

theorem execute_remove {name : String} {reason : RemoveReason} {response : Bool}
    (executed : execute self fresh (.remove name reason) input provider =
      some (after, response, job)) :
    (provider.find name = none ∧ after = provider ∧ response = false ∧ job = none) ∨
      ∃ record, provider.find name = some record ∧
        after = provider.modify record (.remove self fresh reason) ∧ response = true ∧
        job = some (.removal ⟨record, name⟩) := by
  cases input <;> first | cases executed | skip
  simp only [execute] at executed
  split at executed
  · rename_i absent
    cases executed
    exact .inl ⟨absent, rfl, rfl, rfl⟩
  · rename_i record found
    cases executed
    exact .inr ⟨record, found, rfl, rfl, rfl⟩

theorem execute_deleteDetails {details : Pointer} {response : Unit}
    (executed : execute self fresh (.deleteDetails details) input provider =
      some (after, response, job)) :
    job = none ∧ (provider.find details.name = none ∧ after = provider ∨
      ∃ record, provider.find details.name = some record ∧
        after = provider.modify record
          fun found => { found with listed := false, owners := found.owners.erase self }) := by
  cases input <;> first | cases executed | skip
  simp only [execute] at executed
  split at executed
  · rename_i absent
    cases executed
    exact ⟨rfl, .inl ⟨absent, rfl⟩⟩
  · rename_i record found
    cases executed
    exact ⟨rfl, .inr ⟨record, found, rfl⟩⟩

/-- The commands that change the record of a machine and do nothing else, with the change
and the goroutine that takes the machine over. -/
def Command.change (self fresh : Nat) :
    {β : Type} → Command β → Option (Pointer × (Details → Details) × Option Job)
  | _, .writeState details state => some (details, .write self state, none)
  | _, .resetCounts details =>
    some (details, fun found => { found with usedCount := 0, retryCount := 0 }, none)
  | _, .addRetry details =>
    some (details, fun found => { found with retryCount := found.retryCount + 1 }, none)
  | _, .addUse details =>
    some (details, fun found => { found with usedCount := found.usedCount + 1 }, none)
  | _, .startCreation details =>
    some (details, .handOver self fresh, some (.creation details))
  | _, .retryRemoval details =>
    some (details, .handOver self fresh, some (.removal details))
  | _, _ => none

theorem execute_change {pointer : Pointer} {change : Details → Details} {started : Option Job}
    (changes : command.change self fresh = some (pointer, change, started))
    (executed : execute self fresh command input provider = some (after, response, job)) :
    after = provider.modify pointer.record change ∧ job = started := by
  cases command <;> cases changes
  all_goals
    cases input <;> cases executed
    exact ⟨rfl, rfl⟩

def Command.quiet : {β : Type} → Command β → Bool
  | _, .machineDetails _ _ => false
  | _, .newMachine _ => false
  | _, .writeState _ state => state = .idle
  | _, _ => true

theorem Command.quiet_of_observes (observes : command.observes = true) : command.quiet = true := by
  cases command <;> first | rfl | cases observes

/-- A quiet command changes one record at most; it keeps the name and the takers,
lists no machine again, and brings no machine into use. -/
theorem execute_changes (quiet : command.quiet = true)
    (executed : execute self fresh command input provider = some (after, response, job)) :
    after.machines = provider.machines ∨ ∃ record change,
      after = provider.modify record change ∧ ∀ details : Details,
        (change details).name = details.name ∧
        ((change details).listed = true → details.listed = true) ∧
        (change details).takers = details.takers ∧
        ((change details).state = details.state ∨ (change details).state = .idle ∨
          (change details).state = .removing) := by
  by_cases observes : command.observes = true
  · exact .inl (execute_observes observes executed).1
  · cases command with
    | machineDetails | newMachine => cases quiet
    | writeState pointer state =>
      cases of_decide_eq_true quiet
      obtain ⟨rfl, -⟩ := execute_change rfl executed
      exact .inr ⟨_, _, rfl, fun _ => ⟨rfl, id, by simp [Details.write], .inr (.inl rfl)⟩⟩
    | resetCounts | addRetry | addUse | startCreation | retryRemoval =>
      obtain ⟨rfl, -⟩ := execute_change rfl executed
      exact .inr ⟨_, _, rfl, fun _ => ⟨rfl, id, rfl, .inl rfl⟩⟩
    | remove name reason =>
      rcases execute_remove executed with ⟨-, rfl, -⟩ | ⟨record, -, rfl, -⟩
      · exact .inl rfl
      · exact .inr ⟨_, _, rfl, fun _ => ⟨rfl, id, rfl, .inr (.inr rfl)⟩⟩
    | deleteDetails pointer =>
      obtain ⟨-, ⟨-, rfl⟩ | ⟨record, -, rfl⟩⟩ := execute_deleteDetails executed
      · exact .inl rfl
      · exact .inr ⟨_, _, rfl, fun _ => ⟨rfl, (nomatch ·), rfl, .inl rfl⟩⟩
    | _ => exact absurd rfl observes

def Command.locks : {β : Type} → Command β → Bool
  | _, .lockAcquire => true
  | _, .unlockAcquire => true
  | _, _ => false

theorem execute_acquireLock (other : command.locks = false)
    (executed : execute self fresh command input provider = some (after, response, job)) :
    after.acquireLock = provider.acquireLock := by
  cases command <;> cases input <;>
    simp only [execute, reduceCtorEq, Command.locks] at executed other <;>
    grind [Provider.modify, Provider.add, Provider.lookup]

end Execute

section Every

/-- The commands that add no machine, take none and do not touch the lock of
`Acquire`. -/
def Command.modest : {β : Type} → Command β → Bool
  | _, .machineDetails _ _ => false
  | _, .newMachine _ => false
  | _, .writeState _ state => state = .idle
  | _, command => !command.locks

def Command.reads : {β : Type} → Command β → Bool
  | _, command => command.observes && !command.locks

variable (config : RunnerConfig)

theorem getIdleCount_reads : (getIdleCount config).Every Command.reads := by
  refine .after rfl ?_
  intro offPeak
  split <;> trivial

theorem addDetails_reads (data : MachinesData) (details : Pointer) :
    (addDetails data details).Every Command.reads := by
  refine .after rfl ?_
  intro state
  cases state with
  | removing =>
    refine .after rfl fun state => .after rfl ?_
    intro retryCount
    split <;> trivial
  | _ => trivial

theorem updateMachine_reads (data : MachinesData)
    (details : Pointer) : (updateMachine config data details).Every Command.reads := by
  have tooManyBuilds : (updateMachine.tooManyBuilds config details).Every Command.reads := by
    unfold updateMachine.tooManyBuilds
    split
    · exact .after rfl fun _ => .pure _
    · trivial
  refine .after rfl ?_
  intro state
  split
  · trivial
  · refine tooManyBuilds.bind ?_
    intro many
    split
    · trivial
    · split
      · trivial
      · refine .after rfl ?_
        intro idle
        split
        · refine (getIdleCount_reads config).bind ?_
          intro idleCount
          split <;> trivial
        · trivial

theorem usable_reads (data : Option Pointer) : (usable data).Every Command.reads := by
  cases data with
  | none => trivial
  | some details =>
    refine .after rfl ?_
    intro state
    split
    · refine .after rfl ?_
      intro connected
      split <;> trivial
    · trivial

theorem loadMachines_reads : (loadMachines config).Every Command.reads := by
  refine .after rfl ?_
  intro machines
  cases machines <;> trivial

theorem provision_modest (details : Pointer) (tries : Nat) (created : Bool) :
    (provision details tries created).Every Command.modest := by
  induction tries generalizing created with
  | zero => trivial
  | succ tries ih =>
    cases created with
    | true => trivial
    | false => exact .after rfl fun _ => .after rfl fun provisioned => ih provisioned

theorem finalizeRemoval_every {property : {β : Type} → Command β → Bool} (details : Pointer)
    (docker : ∀ request, property (.docker request details.name) = true)
    (addRetry : property (.addRetry details) = true)
    (deleteDetails : property (.deleteDetails details) = true)
    (retryRemoval : property (.retryRemoval details) = true) :
    (finalizeRemoval details).Every property := by
  have removeMachine : (removeMachine details).Every property := by
    refine .after (docker _) ?_
    intro found
    split
    · refine .after (docker _) fun _ => .after (docker _) ?_
      intro removed
      split
      · trivial
      · exact .after addRetry fun _ => .pure _
    · trivial
  refine removeMachine.bind ?_
  intro gone
  split
  · exact .call deleteDetails
  · exact .call retryRemoval

theorem body_modest (job : Job) : (body job).Every Command.modest := by
  cases job with
  | creation details =>
    refine Program.Every.bind (.after rfl fun created =>
      (provision_modest details 3 created).bind ?_) fun _ => .pure _
    intro provisioned
    split <;> exact .after rfl fun _ => .pure _
  | removal details => exact finalizeRemoval_every details (fun _ => rfl) rfl rfl rfl

theorem release_modest (data : Option Pointer) : (release config data).Every Command.modest := by
  cases data with
  | none => trivial
  | some details =>
    have removed : (release.removed config details).Every Command.modest := by
      unfold release.removed
      split
      · refine .after rfl ?_
        intro usedCount
        split
        · exact .call rfl
        · trivial
      · trivial
    refine removed.bind ?_
    intro gone
    split
    · trivial
    · exact .call rfl

end Every

end GitlabRunner.Machine
