import GitlabRunner.KubernetesExecutor

/-!
# What the kubernetes executor leaves behind

`Cleanup` deletes what the fields of the executor hold at that time.  The pod is always
among it.  A secret is lost when a later `Run` creates another one, because the creation of
the pod has failed in between.
-/

namespace GitlabRunner.Kubernetes

open ByteText FanOut List ActionRuns Option

section Transitions

variable (config : Config) (state : State)

inductive Transition : Action → State → Prop where
  | run (idle : state.phase = .idle) :
    Transition .run
      { state with phase := if state.pod = none then .setupCredentials else .runInContainer }
  | noCredentials {outcome : Outcome} (here : state.phase = .setupCredentials)
    (empty : authConfigs config.credentials = []) :
    Transition (.credentials outcome) { state with phase := .setupBuildPod }
  | secretCreated {name : List UInt8} (here : state.phase = .setupCredentials)
    (registries : authConfigs config.credentials ≠ []) :
    Transition (.credentials (.created name))
      { state with
        phase := .setupBuildPod
        credentials := some ⟨config.nameSpace, name⟩
        created := state.created ++ [⟨.secret, ⟨config.nameSpace, name⟩⟩] }
  | secretFailed {name : List UInt8} (here : state.phase = .setupCredentials)
    (registries : authConfigs config.credentials ≠ []) :
    Transition (.credentials (.failed name))
      { state with
        phase := .idle
        credentials := some ⟨config.nameSpace, name⟩ }
  | podCreated {name : List UInt8} (here : state.phase = .setupBuildPod) :
    Transition (.pod (.created name))
      { state with
        phase := .makePodProxyServices []
        pod := some ⟨config.nameSpace, name⟩
        creators := start config.proxyPool
        created := state.created ++ [⟨.pod, ⟨config.nameSpace, name⟩⟩] }
  | podFailed {name : List UInt8} (here : state.phase = .setupBuildPod) :
    Transition (.pod (.failed name)) { state with phase := .idle }
  | service {pod : ObjectMeta} {index : Nat} {outcome : Outcome}
    {task : List UInt8} {creators : List (Worker (List UInt8) Outcome)}
    (found : state.pod = some pod)
    (moves : Moves state.creators creators (.working task) (.sending task outcome)) :
    Transition (.service index outcome)
      { state with
        creators := creators
        created := state.created ++ outcome.objects .service pod.nameSpace }
  | received {pod : ObjectMeta} {index : Nat} {services : List ObjectMeta}
    {task name : List UInt8} {creators : List (Worker (List UInt8) Outcome)}
    (here : state.phase = .makePodProxyServices services) (found : state.pod = some pod)
    (moves : Moves state.creators creators (.sending task (.created name))
      (.sent task (.created name))) :
    Transition (.receive index)
      { state with
        phase := .makePodProxyServices (services ++ [⟨pod.nameSpace, name⟩])
        creators := creators }
  | receivedError {index : Nat} {services : List ObjectMeta} {task name : List UInt8}
    {creators : List (Worker (List UInt8) Outcome)}
    (here : state.phase = .makePodProxyServices services)
    (moves : Moves state.creators creators (.sending task (.failed name))
      (.sent task (.failed name))) :
    Transition (.receive index)
      { state with phase := .idle, services := [], creators := creators }
  | collected {services : List ObjectMeta}
    (here : state.phase = .makePodProxyServices services) (allSent : AllSent state.creators) :
    Transition .collected
      { state with phase := .runInContainer, services := services }
  | finished (here : state.phase = .runInContainer) :
    Transition .finished { state with phase := .idle }
  | cleanup (idle : state.phase = .idle) :
    Transition .cleanup { state with phase := .deletePod }
  | deletePod (here : state.phase = .deletePod) :
    Transition .deletePod
      { state with
        phase := .deleteCredentials
        deleted := state.deleted ++ state.pod.toList.map (Object.mk .pod) }
  | deleteCredentials (here : state.phase = .deleteCredentials) :
    Transition .deleteCredentials
      { state with
        phase := .deleteServices
        deleters := start state.services
        deleted := state.deleted ++ state.credentials.toList.map fun credentials =>
          ⟨.secret, ⟨config.nameSpace, credentials.name⟩⟩ }
  | deleteService {index : Nat} {fails : Bool} {service : ObjectMeta}
    {deleters : List (Worker ObjectMeta Bool)}
    (moves : Moves state.deleters deleters (.working service) (.sending service fails)) :
    Transition (.deleteService index fails)
      { state with
        deleters := deleters
        deleted := state.deleted ++ [⟨.service, ⟨config.nameSpace, service.name⟩⟩] }
  | receiveDeleted {index : Nat} {fails : Bool} {service : ObjectMeta}
    {deleters : List (Worker ObjectMeta Bool)} (here : state.phase = .deleteServices)
    (moves : Moves state.deleters deleters (.sending service fails) (.sent service fails)) :
    Transition (.receiveDeleted index) { state with deleters := deleters }
  | deletedAll (here : state.phase = .deleteServices) (allSent : AllSent state.deleters) :
    Transition .deletedAll { state with phase := .cleaned }

end Transitions

variable {config : Config} {state next : State} {action : Action} {outcome : Outcome}

theorem transition_of_credentials (here : state.phase = .setupCredentials) :
    Transition config state (.credentials outcome) (setupCredentials config outcome state) := by
  unfold setupCredentials
  by_cases empty : authConfigs config.credentials = []
  · rw [if_pos empty]
    exact .noCredentials here empty
  · rw [if_neg empty]
    cases outcome with
    | created name => exact .secretCreated here empty
    | failed name =>
      simp only [Outcome.objects, append_nil]
      exact .secretFailed here empty

variable {pod : ObjectMeta} {services : List ObjectMeta}

theorem transition_of_receive {index : Nat}
    (here : state.phase = .makePodProxyServices services) (found : state.pod = some pod)
    (received : receiveService pod index services state = some next) :
    Transition config state (.receive index) next := by
  obtain ⟨⟨⟨task, outcome⟩, creators⟩, taken, rfl⟩ := map_eq_some_iff.mp received
  cases outcome with
  | created name => exact .received here found (receive_some taken)
  | failed name => exact .receivedError here (receive_some taken)

theorem transition_of_step (stepTo : step config state action = some next) :
    Transition config state action next := by
  revert stepTo
  fun_cases step config state action with
  | case1 idle =>
    rintro ⟨⟩
    exact .run idle
  | case3 outcome here =>
    rintro ⟨⟩
    exact transition_of_credentials here
  | case5 outcome here =>
    rintro ⟨⟩
    cases outcome with
    | created name => exact .podCreated here
    | failed name => exact .podFailed here
  | case7 index outcome =>
    intro stepTo
    obtain ⟨pod, found, created⟩ := bind_eq_some_iff.mp stepTo
    obtain ⟨⟨task, creators⟩, taken, rfl⟩ := map_eq_some_iff.mp created
    exact .service found (finish_some taken)
  | case8 index services here =>
    intro stepTo
    obtain ⟨pod, found, received⟩ := bind_eq_some_iff.mp stepTo
    exact transition_of_receive here found received
  | case10 services here allSent =>
    rintro ⟨⟩
    exact .collected here allSent
  | case13 here =>
    rintro ⟨⟩
    exact .finished here
  | case15 idle =>
    rintro ⟨⟩
    exact .cleanup idle
  | case17 here =>
    rintro ⟨⟩
    exact .deletePod here
  | case19 here =>
    rintro ⟨⟩
    exact .deleteCredentials here
  | case21 index fails =>
    intro stepTo
    obtain ⟨⟨service, deleters⟩, taken, rfl⟩ := map_eq_some_iff.mp stepTo
    exact .deleteService (finish_some taken)
  | case22 index here =>
    intro stepTo
    obtain ⟨⟨⟨service, fails⟩, deleters⟩, taken, rfl⟩ := map_eq_some_iff.mp stepTo
    exact .receiveDeleted here (receive_some taken)
  | case24 here =>
    rintro ⟨⟩
    exact .deletedAll here.1 here.2
  | _ => nofun

def Phase.setsUp : Phase → Bool
  | .setupCredentials | .setupBuildPod => true
  | _ => false

def Phase.afterPod : Phase → Bool
  | .deleteCredentials | .deleteServices | .cleaned => true
  | _ => false

def Phase.afterCredentials : Phase → Bool
  | .deleteServices | .cleaned => true
  | _ => false

/-- The pod that was created is the one the executor holds, and is deleted. -/
structure PodHeld (config : Config) (state : State) : Prop where
  nameSpace : ∀ pod, state.pod = some pod → pod.nameSpace = config.nameSpace
  held : ∀ identity, ⟨.pod, identity⟩ ∈ state.created → state.pod = some identity
  absent : state.phase.setsUp = true → state.pod = none
  deleted : state.phase.afterPod = true → ∀ pod, state.pod = some pod →
    ⟨.pod, pod⟩ ∈ state.deleted

theorem mem_objects {kind other : Kind} {nameSpace : List UInt8}
    {identity : ObjectMeta} (member : ⟨other, identity⟩ ∈ outcome.objects kind nameSpace) :
    other = kind ∧ ∃ name, outcome = .created name ∧ identity = ⟨nameSpace, name⟩ := by
  cases outcome with
  | created name =>
    cases mem_singleton.mp member
    exact ⟨rfl, name, rfl, rfl⟩
  | failed name => cases member

theorem PodHeld.step (held : PodHeld config state)
    (transition : Transition config state action next) : PodHeld config next := by
  cases transition with
  | run idle =>
    split
    · exact ⟨held.nameSpace, held.held, fun _ => ‹_›, nofun⟩
    · exact ⟨held.nameSpace, held.held, nofun, nofun⟩
  | noCredentials here empty =>
    exact ⟨held.nameSpace, held.held, fun _ => held.absent (by rw [here]; rfl), nofun⟩
  | secretCreated here registries =>
    exact ⟨held.nameSpace, fun identity member => held.held identity (by simpa using member),
      fun _ => held.absent (by rw [here]; rfl), nofun⟩
  | secretFailed | podFailed | collected | finished | cleanup | received | receivedError =>
    exact ⟨held.nameSpace, held.held, nofun, nofun⟩
  | podCreated here =>
    have absent := held.absent (by rw [here]; rfl)
    refine ⟨?_, ?_, nofun, nofun⟩
    · rintro pod ⟨⟩
      rfl
    · intro identity member
      rcases mem_append.mp member with earlier | last
      · cases absent.symm.trans (held.held identity earlier)
      · cases mem_singleton.mp last
        rfl
  | service found moves =>
    refine ⟨held.nameSpace, ?_, held.absent, held.deleted⟩
    intro identity member
    rcases mem_append.mp member with earlier | last
    · exact held.held identity earlier
    · cases (mem_objects last).1
  | deletePod here =>
    refine ⟨held.nameSpace, held.held, nofun, ?_⟩
    intro _ pod found
    apply mem_append_right
    change state.pod = some pod at found
    rw [found]
    exact mem_cons_self
  | deleteCredentials here =>
    exact ⟨held.nameSpace, held.held, nofun, fun _ pod found =>
      mem_append_left _ (held.deleted (by rw [here]; rfl) pod found)⟩
  | deleteService moves =>
    exact ⟨held.nameSpace, held.held, held.absent, fun after pod found =>
      mem_append_left _ (held.deleted after pod found)⟩
  | receiveDeleted here moves => exact ⟨held.nameSpace, held.held, held.absent, held.deleted⟩
  | deletedAll here allSent =>
    exact ⟨held.nameSpace, held.held, nofun, fun _ => held.deleted (by rw [here]; rfl)⟩

/-- The condition on a step: no secret is created or asked for after one was created, and
the creation of a service fails only if it is the only one. -/
def Orderly (config : Config) (state : State) : Action → Prop
  | .credentials _ => authConfigs config.credentials ≠ [] →
      ∀ object ∈ state.created, object.kind ≠ .secret
  | .service _ (.failed _) => config.proxyPool.length = 1
  | _ => True

instance (config : Config) (state : State) (action : Action) :
    Decidable (Orderly config state action) :=
  match action with
  | .credentials _ => inferInstanceAs (Decidable (authConfigs config.credentials ≠ [] →
      ∀ object ∈ state.created, object.kind ≠ .secret))
  | .service _ (.failed _) => inferInstanceAs (Decidable (config.proxyPool.length = 1))
  | .service _ (.created _) => instDecidableTrue
  | .run | .pod _ | .receive _ | .collected | .finished | .cleanup | .deletePod
  | .deleteCredentials | .deleteService _ _ | .receiveDeleted _ | .deletedAll =>
    instDecidableTrue

/-- The secret that was created is the one the executor holds, and is deleted. -/
structure SecretHeld (config : Config) (state : State) : Prop where
  held : ∀ identity, ⟨.secret, identity⟩ ∈ state.created →
    identity.nameSpace = config.nameSpace ∧ state.credentials = some identity
  deleted : state.phase.afterCredentials = true → ∀ credentials,
    state.credentials = some credentials →
    ⟨.secret, ⟨config.nameSpace, credentials.name⟩⟩ ∈ state.deleted

theorem SecretHeld.step (held : SecretHeld config state) (orderly : Orderly config state action)
    (transition : Transition config state action next) : SecretHeld config next := by
  cases transition with
  | run idle => split <;> exact ⟨held.held, nofun⟩
  | noCredentials | podFailed | collected | finished | cleanup | received | receivedError =>
    exact ⟨held.held, nofun⟩
  | secretCreated here registries =>
    refine ⟨?_, nofun⟩
    intro identity member
    rcases mem_append.mp member with earlier | last
    · exact (orderly registries _ earlier rfl).elim
    · cases mem_singleton.mp last
      exact ⟨rfl, rfl⟩
  | secretFailed here registries =>
    exact ⟨fun identity member => (orderly registries _ member rfl).elim, nofun⟩
  | podCreated here =>
    exact ⟨fun identity member => held.held identity (by simpa using member), nofun⟩
  | service found moves =>
    refine ⟨?_, held.deleted⟩
    intro identity member
    rcases mem_append.mp member with earlier | last
    · exact held.held identity earlier
    · cases (mem_objects last).1
  | deletePod here => exact ⟨held.held, nofun⟩
  | deleteCredentials here =>
    refine ⟨held.held, ?_⟩
    intro _ credentials found
    apply mem_append_right
    change state.credentials = some credentials at found
    rw [found]
    exact mem_cons_self
  | deleteService moves =>
    exact ⟨held.held, fun after credentials found =>
      mem_append_left _ (held.deleted after credentials found)⟩
  | receiveDeleted here moves => exact ⟨held.held, held.deleted⟩
  | deletedAll here allSent => exact ⟨held.held, fun _ => held.deleted (by rw [here]; rfl)⟩

def Phase.collects : Phase → Bool
  | .makePodProxyServices _ => true
  | _ => false

/-- The services that were created are the results of the goroutines.  Those received are
collected, and held when all goroutines have ended. -/
structure ServicesHeld (config : Config) (state : State) : Prop where
  size : state.creators = [] ∨ state.creators.length = config.proxyPool.length
  absent : state.pod = none → state.creators = []
  recorded : ∀ identity, ⟨.service, identity⟩ ∈ state.created →
    ∃ name, identity = ⟨config.nameSpace, name⟩ ∧ Has state.creators (.created name)
  alone : ∀ name, Has state.creators (.failed name) → state.creators.length = 1
  collected : ∀ services, state.phase = .makePodProxyServices services →
    ∀ task name, .sent task (.created name) ∈ state.creators →
      ⟨config.nameSpace, name⟩ ∈ services
  settled : state.phase.collects = false → AllSent state.creators ∧
    ∀ task name, .sent task (.created name) ∈ state.creators →
      ⟨config.nameSpace, name⟩ ∈ state.services

variable {creators : List (Worker (List UInt8) Outcome)}

section

variable (held : ServicesHeld config state)

include held

theorem ServicesHeld.length_of_moves
    {old new : Worker (List UInt8) Outcome} (moves : Moves state.creators creators old new) :
    creators.length = config.proxyPool.length := by
  rcases held.size with empty | size
  · have leaves := moves.leaves
    rw [empty] at leaves
    cases leaves
  · exact moves.length.trans size

theorem ServicesHeld.pod_of_moves {old new : Worker (List UInt8) Outcome}
    (moves : Moves state.creators creators old new) : state.pod ≠ none := by
  intro absent
  have leaves := moves.leaves
  rw [held.absent absent] at leaves
  cases leaves

theorem ServicesHeld.service
    (podHeld : PodHeld config state) {index : Nat}
    {task : List UInt8}
    (orderly : Orderly config state (.service index outcome)) (found : state.pod = some pod)
    (moves : Moves state.creators creators (.working task) (.sending task outcome)) :
    ServicesHeld config
      { state with
        creators := creators
        created := state.created ++ outcome.objects .service pod.nameSpace } := by
  have size := held.length_of_moves moves
  constructor
  · exact .inr size
  · exact fun absent => (held.pod_of_moves moves absent).elim
  · intro identity member
    rcases mem_append.mp member with earlier | last
    · obtain ⟨name, same, has⟩ := held.recorded identity earlier
      exact ⟨name, same, moves.finish_has has⟩
    · obtain ⟨-, name, rfl, rfl⟩ := mem_objects last
      refine ⟨name, ?_, task, .inl moves.enters⟩
      rw [podHeld.nameSpace pod found]
  · intro name has
    rcases moves.has_of_finish has with rfl | earlier
    · exact size.trans orderly
    · exact moves.length.trans (held.alone name earlier)
  · intro services here source name isSent
    rcases moves.later _ isSent with same | earlier
    · cases same
    · exact held.collected services here source name earlier
  · intro outside
    exact ((held.settled outside).1.not_working moves.leaves).elim

theorem ServicesHeld.received
    (podHeld : PodHeld config state)
    {task name : List UInt8}
    (here : state.phase = .makePodProxyServices services) (found : state.pod = some pod)
    (moves : Moves state.creators creators (.sending task (.created name))
      (.sent task (.created name))) :
    ServicesHeld config
      { state with
        phase := .makePodProxyServices (services ++ [⟨pod.nameSpace, name⟩])
        creators := creators } := by
  constructor
  · exact .inr (held.length_of_moves moves)
  · exact fun absent => (held.pod_of_moves moves absent).elim
  · intro identity member
    obtain ⟨other, same, has⟩ := held.recorded identity member
    exact ⟨other, same, moves.has_iff.mpr has⟩
  · intro other has
    exact moves.length.trans (held.alone other (moves.has_iff.mp has))
  · intro longer same source other isSent
    cases same
    rcases moves.later _ isSent with same | earlier
    · cases same
      rw [podHeld.nameSpace pod found]
      exact mem_append_right _ mem_cons_self
    · exact mem_append_left _ (held.collected services here source other earlier)
  · exact nofun

/-- The first error ends the collection.  It is the only response. -/
theorem ServicesHeld.receivedError {task name : List UInt8}
    (moves : Moves state.creators creators (.sending task (.failed name))
      (.sent task (.failed name))) :
    ServicesHeld config { state with phase := .idle, services := [], creators := creators } := by
  have alone : creators.length = 1 :=
    moves.length.trans (held.alone name ⟨task, .inl moves.leaves⟩)
  obtain ⟨only, isOnly⟩ := length_eq_one_iff.mp alone
  constructor
  · exact .inr (held.length_of_moves moves)
  · exact fun absent => (held.pod_of_moves moves absent).elim
  · intro identity member
    obtain ⟨other, same, has⟩ := held.recorded identity member
    exact ⟨other, same, moves.has_iff.mpr has⟩
  · exact fun _ _ => alone
  · exact nofun
  · intro _
    have enters := moves.enters
    rw [isOnly, mem_singleton] at enters
    rw [isOnly, ← enters]
    refine ⟨?_, ?_⟩
    · intro worker member
      rw [mem_singleton.mp member]
      rfl
    · intro source other member
      cases mem_singleton.mp member

theorem ServicesHeld.step (podHeld : PodHeld config state) (orderly : Orderly config state action)
    (transition : Transition config state action next) : ServicesHeld config next := by
  cases transition with
  | run idle =>
    split <;> exact ⟨held.size, held.absent, held.recorded, held.alone, nofun,
      fun _ => held.settled (by rw [idle]; rfl)⟩
  | noCredentials here | secretFailed here | podFailed here | finished here | cleanup here
  | deletePod here | deleteCredentials here | deletedAll here =>
    exact ⟨held.size, held.absent, held.recorded, held.alone, nofun,
      fun _ => held.settled (by rw [here]; rfl)⟩
  | secretCreated here registries =>
    exact ⟨held.size, held.absent, fun identity member => held.recorded identity
      (by simpa using member), held.alone, nofun, fun _ => held.settled (by rw [here]; rfl)⟩
  | podCreated here =>
    have empty := held.absent (podHeld.absent (by rw [here]; rfl))
    constructor
    · right
      exact length_map _
    · exact nofun
    · intro identity member
      have earlier : ⟨.service, identity⟩ ∈ state.created := by simpa using member
      obtain ⟨other, -, task, has⟩ := held.recorded identity earlier
      rw [empty] at has
      rcases has with isSending | isSent
      · cases isSending
      · cases isSent
    · intro other has
      exact (not_has_start has).elim
    · intro services _ task other isSent
      exact (not_has_start ⟨task, .inr isSent⟩).elim
    · exact nofun
  | service found moves => exact held.service podHeld orderly found moves
  | received here found moves => exact held.received podHeld here found moves
  | receivedError here moves => exact held.receivedError moves
  | collected here allSent =>
    refine ⟨held.size, held.absent, held.recorded, held.alone, nofun, ?_⟩
    intro _
    exact ⟨allSent, held.collected _ here⟩
  | deleteService | receiveDeleted =>
    exact ⟨held.size, held.absent, held.recorded, held.alone, held.collected, held.settled⟩

end

/-- The services that the executor holds are deleted, or their goroutine is yet to make
the request. -/
structure ServicesDeleted (config : Config) (state : State) : Prop where
  requested : state.phase.afterCredentials = true → ∀ service ∈ state.services,
    .working service ∈ state.deleters ∨
      ⟨.service, ⟨config.nameSpace, service.name⟩⟩ ∈ state.deleted
  cleaned : state.phase = .cleaned → ∀ service ∈ state.services,
    ⟨.service, ⟨config.nameSpace, service.name⟩⟩ ∈ state.deleted

theorem ServicesDeleted.step (held : ServicesDeleted config state)
    (transition : Transition config state action next) : ServicesDeleted config next := by
  cases transition with
  | run idle => split <;> exact ⟨nofun, nofun⟩
  | noCredentials | secretCreated | secretFailed | podCreated | podFailed | received
  | receivedError | collected | finished | cleanup | deletePod => exact ⟨nofun, nofun⟩
  | service found moves => exact ⟨held.requested, held.cleaned⟩
  | deleteCredentials here =>
    refine ⟨?_, nofun⟩
    intro _ service member
    exact .inl (mem_start.mpr ⟨service, member, rfl⟩)
  | deleteService moves =>
    constructor
    · intro after other member
      rcases held.requested after other member with isWorking | isDeleted
      · rcases moves.earlier _ isWorking with same | later
        · cases same
          exact .inr (mem_append_right _ mem_cons_self)
        · exact .inl later
      · exact .inr (mem_append_left _ isDeleted)
    · intro cleaned other member
      exact mem_append_left _ (held.cleaned cleaned other member)
  | receiveDeleted here moves =>
    constructor
    · intro after other member
      rcases held.requested after other member with isWorking | isDeleted
      · rcases moves.earlier _ isWorking with same | later
        · cases same
        · exact .inl later
      · exact .inr isDeleted
    · exact held.cleaned
  | deletedAll here allSent =>
    have requested := held.requested (by rw [here]; rfl)
    have done : ∀ service ∈ state.services,
        ⟨.service, ⟨config.nameSpace, service.name⟩⟩ ∈ state.deleted := by
      intro service member
      rcases requested service member with isWorking | isDeleted
      · exact (allSent.not_working isWorking).elim
      · exact isDeleted
    exact ⟨fun _ service member => .inr (done service member), fun _ => done⟩

/-- What the executor has created is in its fields and on its way to be deleted. -/
structure Accounted (config : Config) (state : State) : Prop where
  pod : PodHeld config state
  secret : SecretHeld config state
  services : ServicesHeld config state
  deletions : ServicesDeleted config state

theorem accounted_prepared (config : Config) : Accounted config prepared where
  pod := ⟨nofun, nofun, nofun, nofun⟩
  secret := ⟨nofun, nofun⟩
  services := by
    refine ⟨.inl rfl, fun _ => rfl, nofun, ?_, nofun, fun _ => ⟨allSent_nil, nofun⟩⟩
    rintro name ⟨task, isSending | isSent⟩
    · cases isSending
    · cases isSent
  deletions := ⟨nofun, nofun⟩

theorem Accounted.step (accounted : Accounted config state) (orderly : Orderly config state action)
    (stepTo : Kubernetes.step config state action = some next) : Accounted config next := by
  have transition := transition_of_step stepTo
  constructor
  · exact accounted.pod.step transition
  · exact accounted.secret.step orderly transition
  · exact accounted.services.step accounted.pod orderly transition
  · exact accounted.deletions.step transition

theorem Accounted.deleted (accounted : Accounted config state) (cleaned : state.phase = .cleaned)
    {object : Object} (member : object ∈ state.created) : object ∈ state.deleted := by
  obtain ⟨kind, identity⟩ := object
  cases kind with
  | secret =>
    obtain ⟨sameSpace, found⟩ := accounted.secret.held identity member
    have isDeleted := accounted.secret.deleted (by rw [cleaned]; rfl) identity found
    rw [← sameSpace] at isDeleted
    exact isDeleted
  | pod =>
    have found := accounted.pod.held identity member
    exact accounted.pod.deleted (by rw [cleaned]; rfl) identity found
  | service =>
    obtain ⟨name, rfl, task, has⟩ := accounted.services.recorded identity member
    obtain ⟨allSent, held⟩ := accounted.services.settled (by rw [cleaned]; rfl)
    rcases has with isSending | isSent
    · cases allSent _ isSending
    · exact accounted.deletions.cleaned cleaned _ (held task name isSent)

/-- After `Cleanup`, in every run in which no secret is asked for after one was created and
a service fails only if it is the only one, the deletion of everything that was created has
been requested and all goroutines of `makePodProxyServices` have ended. -/
theorem cleanup_deletes_created {actions : List Action} {last : State}
    (meets : MeetsAlong (step config) (Orderly config) prepared actions)
    (reached : run config prepared actions = some last) (cleaned : last.phase = .cleaned) :
    (∀ object ∈ last.created, object ∈ last.deleted) ∧ AllSent last.creators := by
  have accounted : Accounted config last := by
    apply run_invariant (Accounted config) _ (accounted_prepared config) meets reached
    intro state action next accounted orderly stepTo
    exact accounted.step orderly stepTo
  constructor
  · intro object member
    exact accounted.deleted cleaned member
  · exact (accounted.services.settled (by rw [cleaned]; rfl)).1

def proxiedConfig : Config where
  credentials := [⟨ascii "registry", ascii "registry.local", [], []⟩]
  nameSpace := ascii "default"
  proxyPool := [ascii "build", ascii "db"]

def cleanupActions (services : Nat) : List Action :=
  [.cleanup, .deletePod, .deleteCredentials] ++
    (List.range services).map (fun index => .deleteService index false) ++
    (List.range services).map .receiveDeleted ++ [.deletedAll]

def twoStages : List Action :=
  [.run, .credentials (.created (ascii "s1")), .pod (.created (ascii "p1")),
    .service 1 (.created (ascii "db1")), .service 0 (.created (ascii "build1")), .receive 0,
    .receive 1, .collected, .finished, .run, .finished] ++ cleanupActions 2

theorem cleanup_deletes_twoStages :
    ∃ last, MeetsAlong (step proxiedConfig) (Orderly proxiedConfig) prepared twoStages ∧
      run proxiedConfig prepared twoStages = some last ∧ last.created.length = 4 ∧
      (∀ object ∈ last.created, object ∈ last.deleted) ∧ AllSent last.creators := by
  have meets : MeetsAlong (step proxiedConfig) (Orderly proxiedConfig) prepared
      twoStages := by decide +kernel
  obtain ⟨last, reached, position⟩ := map_eq_some_iff.mp (by decide +kernel :
    (run proxiedConfig prepared twoStages).map (fun last => (last.phase, last.created.length)) =
      some (.cleaned, 4))
  injection position with cleaned number
  exact ⟨last, meets, reached, number, cleanup_deletes_created meets reached cleaned⟩

def retriedStage : List Action :=
  [.run, .credentials (.created (ascii "s1")), .pod (.failed []), .run,
    .credentials (.created (ascii "s2")), .pod (.created (ascii "p1")),
    .service 0 (.created (ascii "build1")), .service 1 (.created (ascii "db1")), .receive 0,
    .receive 1, .collected, .finished] ++ cleanupActions 2

def failedService : List Action :=
  [.run, .credentials (.created (ascii "s1")), .pod (.created (ascii "p1")),
    .service 0 (.created (ascii "build1")), .service 1 (.failed []), .receive 1] ++
      cleanupActions 0

/-- The secret of a `Run` whose pod could not be created is lost to the next `Run`.  When
one of two services fails, the other is never deleted and its goroutine never ends. -/
theorem cleanup_leaves_objects :
    (∃ last, run proxiedConfig prepared retriedStage = some last ∧ last.phase = .cleaned ∧
      ∃ object ∈ last.created, object ∉ last.deleted) ∧
    ∃ last, run proxiedConfig prepared failedService = some last ∧ last.phase = .cleaned ∧
      (∃ object ∈ last.created, object ∉ last.deleted) ∧ ¬ AllSent last.creators := by
  constructor
  · obtain ⟨last, reached, position⟩ := map_eq_some_iff.mp (by decide +kernel :
      (run proxiedConfig prepared retriedStage).map (fun last => (last.phase,
        decide (∃ object ∈ last.created, object ∉ last.deleted))) = some (.cleaned, true))
    injection position with cleaned left
    exact ⟨last, reached, cleaned, of_decide_eq_true left⟩
  · obtain ⟨last, reached, position⟩ := map_eq_some_iff.mp (by decide +kernel :
      (run proxiedConfig prepared failedService).map (fun last => (last.phase,
        decide (∃ object ∈ last.created, object ∉ last.deleted),
        decide (¬ AllSent last.creators))) = some (.cleaned, true, true))
    injection position with cleaned rest
    injection rest with left blocked
    exact ⟨last, reached, cleaned, of_decide_eq_true left, of_decide_eq_true blocked⟩

/-- In every run, whatever requests fail, the executor creates at most one pod, and `Cleanup` asks
for its deletion. -/
theorem pod_deleted {actions : List Action} {last : State}
    (reached : run config prepared actions = some last) :
    (∀ first second, ⟨.pod, first⟩ ∈ last.created → ⟨.pod, second⟩ ∈ last.created →
        first = second) ∧
      (last.phase = .cleaned → ∀ pod, ⟨.pod, pod⟩ ∈ last.created → ⟨.pod, pod⟩ ∈ last.deleted) := by
  have held := run_invariant_of_step (PodHeld config)
    (fun _ _ _ held stepTo => held.step (transition_of_step stepTo))
    (accounted_prepared config).pod reached
  constructor
  · intro first second isFirst isSecond
    exact some.inj ((held.held first isFirst).symm.trans (held.held second isSecond))
  · intro cleaned pod created
    exact held.deleted (by rw [cleaned]; rfl) pod (held.held pod created)

theorem pod_deleted_retried : ∃ last, run proxiedConfig prepared retriedStage = some last ∧
    ⟨.pod, ascii "default", ascii "p1"⟩ ∈ last.deleted := by
  obtain ⟨last, reached, ends⟩ := map_eq_some_iff.mp (by decide +kernel :
    (run proxiedConfig prepared retriedStage).map (fun last => (last.phase, last.created[2]?)) =
      some (.cleaned, some ⟨.pod, ascii "default", ascii "p1"⟩))
  injection ends with cleaned created
  exact ⟨last, reached, (pod_deleted reached).2 cleaned _ (mem_of_getElem? created)⟩

end GitlabRunner.Kubernetes
