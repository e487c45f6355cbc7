import GitlabRunner.ActionRuns
import GitlabRunner.ByteText
import GitlabRunner.FanOut

/-!
# The kubernetes executor

`executors/kubernetes/executor_kubernetes.go`: the calls of `Run` on one prepared executor
and its `Cleanup`, with every outcome of the requests to the API server.
-/

namespace GitlabRunner.Kubernetes

open ByteText FanOut

inductive Kind where
  | secret
  | pod
  | service
  deriving DecidableEq, Repr

structure ObjectMeta where
  nameSpace : List UInt8
  name : List UInt8
  deriving DecidableEq, Repr

structure Object where
  kind : Kind
  identity : ObjectMeta
  deriving DecidableEq, Repr

structure Credentials where
  type : List UInt8
  url : List UInt8
  username : List UInt8
  password : List UInt8
  deriving DecidableEq, Repr

/-- What the executor is prepared with: the credentials of the build, the namespace, and
the names in the proxy pool. -/
structure Config where
  credentials : List Credentials
  nameSpace : List UInt8
  proxyPool : List (List UInt8)
  deriving DecidableEq, Repr

/-- The outcome of a create request: a new object with the name that the server has
generated, or an error beside an object with some name. -/
inductive Outcome where
  | created (name : List UInt8)
  | failed (name : List UInt8)
  deriving DecidableEq, Repr

def Outcome.name : Outcome → List UInt8
  | .created name => name
  | .failed name => name

/-- Where the executor is: between two calls, in a stage of `Run`, or in a stage of
`Cleanup`. -/
inductive Phase where
  | idle
  | setupCredentials
  | setupBuildPod
  | makePodProxyServices (services : List ObjectMeta)
  | runInContainer
  | deletePod
  | deleteCredentials
  | deleteServices
  | cleaned
  deriving DecidableEq, Repr

structure State where
  phase : Phase
  pod : Option ObjectMeta
  credentials : Option ObjectMeta
  services : List ObjectMeta
  creators : List (Worker (List UInt8) Outcome)
  deleters : List (Worker ObjectMeta Bool)
  created : List Object
  deleted : List Object
  deriving DecidableEq, Repr

def prepared : State where
  phase := .idle
  pod := none
  credentials := none
  services := []
  creators := []
  deleters := []
  created := []
  deleted := []

def Outcome.objects (kind : Kind) (nameSpace : List UInt8) : Outcome → List Object
  | .created name => [⟨kind, ⟨nameSpace, name⟩⟩]
  | .failed _ => []

/-- The entries of the secret: the credentials for registries, the last one for each URL. -/
def authConfigs (credentials : List Credentials) :
    List (List UInt8 × List UInt8 × List UInt8) :=
  credentials.foldl (fun configs entry =>
    if entry.type ≠ ascii "registry" then configs
    else configs.filter (fun config => config.1 ≠ entry.url) ++
      [(entry.url, entry.username, entry.password)]) []

/-- `setupCredentials`, with the outcome of its request if there is one.  The field gets
the returned object also beside an error. -/
def setupCredentials (config : Config) (outcome : Outcome) (state : State) : State :=
  if authConfigs config.credentials = [] then { state with phase := .setupBuildPod }
  else
    { state with
      phase :=
        match outcome with
        | .created _ => .setupBuildPod
        | .failed _ => .idle
      credentials := some ⟨config.nameSpace, outcome.name⟩
      created := state.created ++ outcome.objects .secret config.nameSpace }

/-- `setupBuildPod` up to the loop of `makePodProxyServices`. -/
def setupBuildPod (config : Config) (outcome : Outcome) (state : State) : State :=
  match outcome with
  | .failed _ => { state with phase := .idle }
  | .created name =>
    { state with
      phase := .makePodProxyServices []
      pod := some ⟨config.nameSpace, name⟩
      creators := start config.proxyPool
      created := state.created ++ outcome.objects .pod config.nameSpace }

def createKubernetesService (pod : ObjectMeta) (index : Nat) (outcome : Outcome)
    (state : State) : Option State :=
  (finish state.creators index outcome).map fun (_, creators) =>
    { state with
      creators := creators
      created := state.created ++ outcome.objects .service pod.nameSpace }

def receiveService (pod : ObjectMeta) (index : Nat) (services : List ObjectMeta)
    (state : State) : Option State :=
  (receive state.creators index).map fun ((_, outcome), creators) =>
    match outcome with
    | .created name =>
      { state with
        phase := .makePodProxyServices (services ++ [⟨pod.nameSpace, name⟩])
        creators := creators }
    | .failed _ => { state with phase := .idle, services := [], creators := creators }

def deleteKubernetesService (config : Config) (index : Nat) (fails : Bool) (state : State) :
    Option State :=
  (finish state.deleters index fails).map fun (service, deleters) =>
    { state with
      deleters := deleters
      deleted := state.deleted ++ [⟨.service, ⟨config.nameSpace, service.name⟩⟩] }

/-- What happens next: a call of `Run` or `Cleanup`, the answer to a request, a response
on a channel, the end of a channel, or the end of the command in the container. -/
inductive Action where
  | run
  | credentials (outcome : Outcome)
  | pod (outcome : Outcome)
  | service (index : Nat) (outcome : Outcome)
  | receive (index : Nat)
  | collected
  | finished
  | cleanup
  | deletePod
  | deleteCredentials
  | deleteService (index : Nat) (fails : Bool)
  | receiveDeleted (index : Nat)
  | deletedAll
  deriving DecidableEq, Repr

def step (config : Config) (state : State) : Action → Option State
  | .run =>
    if state.phase = .idle then
      some { state with
        phase := if state.pod = none then .setupCredentials else .runInContainer }
    else none
  | .credentials outcome =>
    if state.phase = .setupCredentials then some (setupCredentials config outcome state)
    else none
  | .pod outcome =>
    if state.phase = .setupBuildPod then some (setupBuildPod config outcome state) else none
  | .service index outcome =>
    state.pod.bind fun pod => createKubernetesService pod index outcome state
  | .receive index =>
    match state.phase with
    | .makePodProxyServices services =>
      state.pod.bind fun pod => receiveService pod index services state
    | _ => none
  | .collected =>
    match state.phase with
    | .makePodProxyServices services =>
      if AllSent state.creators then
        some { state with phase := .runInContainer, services := services }
      else none
    | _ => none
  | .finished =>
    if state.phase = .runInContainer then some { state with phase := .idle } else none
  | .cleanup =>
    if state.phase = .idle then some { state with phase := .deletePod } else none
  | .deletePod =>
    if state.phase = .deletePod then
      some { state with
        phase := .deleteCredentials
        deleted := state.deleted ++ state.pod.toList.map (Object.mk .pod) }
    else none
  | .deleteCredentials =>
    if state.phase = .deleteCredentials then
      some { state with
        phase := .deleteServices
        deleters := start state.services
        deleted := state.deleted ++ state.credentials.toList.map fun credentials =>
          ⟨.secret, ⟨config.nameSpace, credentials.name⟩⟩ }
    else none
  | .deleteService index fails => deleteKubernetesService config index fails state
  | .receiveDeleted index =>
    if state.phase = .deleteServices then
      (receive state.deleters index).map fun (_, deleters) =>
        { state with deleters := deleters }
    else none
  | .deletedAll =>
    if state.phase = .deleteServices ∧ AllSent state.deleters then
      some { state with phase := .cleaned }
    else none

def run (config : Config) : State → List Action → Option State :=
  ActionRuns.run (step config)

end GitlabRunner.Kubernetes
