import GitlabRunner.MachineProvider

/-!
# The limit of a runner

`createMachines` counts the machines of the runner before it adds one, under the lock of
`Acquire`.  `Use` creates a machine on demand without counting.
-/

namespace GitlabRunner.Machine

open Concurrent List ActionRuns Option Discipline Command Provider Program.Returns MachinesData

def Provider.names (provider : Provider) : List String :=
  (provider.machines.filter Details.listed).map Details.name

def Provider.recorded (provider : Provider) : Nat :=
  provider.machines.countP Details.listed

/-- A machine that is being created or that builds can use. -/
def Details.live (details : Details) : Bool :=
  details.listed && details.state ≠ .removing

def Provider.live (provider : Provider) : Nat :=
  provider.machines.countP Details.live

/-- `docker-machine` lists exactly the machines that exist. -/
def listsExisting (config : RunnerConfig) (_self : Nat) :
    {β : Type} → Command β → Input → Provider → Bool
  | _, .list, .names (some machines), provider =>
    (machines.filter config.matchesFilter).isPerm provider.names
  | _, _, _, _ => true

/-- An on-demand machine is created while no `Acquire` is under way and there are
fewer machines than the limit, and a name that was listed still has a record
when it is looked up. -/
def createsWithinLimit (config : RunnerConfig) (_self : Nat) :
    {β : Type} → Command β → Input → Provider → Bool
  | _, .newMachine .acquired, _, provider =>
    provider.acquireLock.isNone && decide ((provider.recorded : Int) < config.limit)
  | _, .machineDetails name _, _, provider => (provider.find name).isSome
  | _, _, _, _ => true

/-- The commands that neither add a machine nor touch the lock of `Acquire`. -/
def Command.frugal : {β : Type} → Command β → Bool
  | _, .newMachine _ => false
  | _, .lockAcquire => false
  | _, .unlockAcquire => false
  | _, _ => true

def Command.outside : {β : Type} → Command β → Bool
  | _, .newMachine .acquired => true
  | _, command => command.frugal

/-- The holder of the lock of `Acquire` expects the map not to grow. -/
def MapKept (self : Nat) (provider later : Provider) : Prop :=
  provider.acquireLock = some self →
    later.acquireLock = some self ∧ later.recorded ≤ provider.recorded

def limitKept (config : RunnerConfig) : Discipline semantics where
  allowed self _ command input provider :=
    listsExisting config self command input provider &&
      createsWithinLimit config self command input provider
  Invariant _ provider := (provider.recorded : Int) ≤ config.limit
  Rely := MapKept
  Spawned _ _ _ := True
  rely_refl _ _ locked := ⟨locked, Nat.le_refl _⟩
  rely_trans _ _ _ _ first second locked := by
    obtain ⟨still, fewer⟩ := first locked
    obtain ⟨last, fewest⟩ := second still
    exact ⟨last, Nat.le_trans fewest fewer⟩

/-- The thread holds the lock of `Acquire`, and the map has at most so many
machines. -/
def Within (self bound : Nat) (provider : Provider) : Prop :=
  provider.acquireLock = some self ∧ provider.recorded ≤ bound

variable {config : RunnerConfig} {self bound : Nat} {provider : Provider}

theorem Within.stable (config : RunnerConfig) (self bound : Nat) :
    (limitKept config).Stable self (Within self bound) := by
  rintro provider later others ⟨locked, few⟩
  obtain ⟨still, fewer⟩ := others locked
  exact ⟨still, Nat.le_trans fewer few⟩

theorem live_le_recorded (provider : Provider) : provider.live ≤ provider.recorded := by
  refine countP_mono_left ?_
  intro details _ live
  exact (Bool.and_eq_true_iff.mp live).1

theorem length_names (provider : Provider) : provider.names.length = provider.recorded := by
  rw [names, length_map, recorded, countP_eq_length_filter]

/-- A change that lists no further machine does not add to the map. -/
theorem recorded_modify_le (provider : Provider) (record : Nat) {change : Details → Details}
    (listed : ∀ details, (change details).listed = true → details.listed = true) :
    (provider.modify record change).recorded ≤ provider.recorded := by
  unfold Provider.modify Provider.recorded
  simp only
  induction provider.machines generalizing record with
  | nil => simp
  | cons details machines ih =>
    cases record with
    | zero =>
      simp only [modify_zero_cons, countP_cons]
      have := listed details
      split <;> split <;> simp_all
    | succ record =>
      simp only [modify_succ_cons, countP_cons]
      have := ih record
      omega

theorem recorded_add (provider : Provider) (self : Nat) (name : String) :
    (provider.add { Details.new name with state := .acquired, owners := [self] }).recorded =
      provider.recorded + 1 := by
  simp [add, recorded, countP_append, Details.new]

variable {β : Type} {command : Command β}

/-- A command that neither adds a machine nor touches the lock leaves room. -/
theorem execute_frugal {fresh : Nat} {input : Input}
    {after : Provider} {response : β} {job : Option Job} (frugal : command.frugal = true)
    (allowed : createsWithinLimit config self command input provider = true)
    (executed : execute self fresh command input provider = some (after, response, job)) :
    after.acquireLock = provider.acquireLock ∧ after.recorded ≤ provider.recorded := by
  refine ⟨execute_acquireLock (by cases command <;> first | rfl | cases frugal) executed, ?_⟩
  by_cases quiet : command.quiet = true
  · rcases execute_changes quiet executed with same | ⟨record, change, rfl, changes⟩
    · rw [Provider.recorded, same]
      exact Nat.le_refl _
    · exact recorded_modify_le provider record fun details => (changes details).2.1
  · cases command with
    | machineDetails name acquire =>
      obtain ⟨record, present⟩ := isSome_iff_exists.mp allowed
      obtain ⟨-, found, other, looked, result⟩ := execute_machineDetails executed
      simp only [Provider.lookup, present, Prod.mk.injEq] at looked
      obtain ⟨rfl, rfl⟩ := looked
      rcases result with ⟨-, -, rfl, -⟩ | ⟨-, -, rfl, -⟩ | ⟨-, -, rfl⟩
      · exact Nat.le_refl _
      · exact recorded_modify_le provider record (fun _ => id)
      · exact Nat.le_refl _
    | writeState pointer state =>
      obtain ⟨rfl, -⟩ := execute_change rfl executed
      exact recorded_modify_le provider pointer.record (fun _ => id)
    | newMachine state => cases frugal
    | _ => exact absurd rfl quiet

theorem createsWithinLimit_of_allowed {input : Input}
    (allowed : (limitKept config).allowed self command input provider = true) :
    createsWithinLimit config self command input provider = true :=
  (Bool.and_eq_true_iff.mp allowed).2

variable {pre : Provider → Prop}

/-- Frugal commands keep the limit, and what the holder of the lock knows. -/
theorem keeps_frugal (frugal : command.frugal = true)
    (smaller : ∀ provider later : Provider, later.acquireLock = provider.acquireLock →
      later.recorded ≤ provider.recorded → pre provider → pre later) :
    (limitKept config).Keeps self pre command (fun _ => pre) := by
  intro threads provider input after response job holds few running allowed executed
  obtain ⟨sameLock, fewer⟩ := execute_frugal frugal (createsWithinLimit_of_allowed allowed) executed
  refine ⟨?_, ?_, fun _ _ => trivial, smaller provider after sameLock fewer holds⟩
  · exact Int.le_trans (Int.ofNat_le.mpr fewer) few
  · intro other _ _ locked
    exact ⟨sameLock.trans locked, fewer⟩

theorem keeps_within (frugal : command.frugal = true) :
    (limitKept config).Keeps self (Within self bound) command (fun _ => Within self bound) :=
  keeps_frugal frugal fun _ _ sameLock fewer within =>
    ⟨sameLock.trans within.1, Nat.le_trans fewer within.2⟩

variable {α : Type} {program : Program Command α}

theorem triple_within (every : program.Every frugal) :
    (limitKept config).Triple self (Within self bound) program fun _ => Within self bound :=
  fun _ within => Safe.of_every every (Within.stable config self bound)
    (fun _ frugal => keeps_within frugal) within

theorem triple_outside (every : program.Every outside) :
    (limitKept config).Triple self pre program fun _ _ => True := by
  intro provider _
  refine Safe.of_every every (fun _ _ _ _ => trivial) ?_ trivial
  intro β command outside
  by_cases frugal : command.frugal = true
  · exact keeps_frugal frugal (fun _ _ _ _ => id)
  · cases command with
    | newMachine state =>
      cases state <;> try cases outside
      intro threads provider input after response job _ few running allowed executed
      obtain ⟨rfl, name, -, rfl, rfl⟩ := execute_newMachine executed
      obtain ⟨unlocked, room⟩ := Bool.and_eq_true_iff.mp (createsWithinLimit_of_allowed allowed)
      refine ⟨?_, ?_, by simp, trivial⟩
      · have := of_decide_eq_true room
        simp only [limitKept, recorded_add]
        omega
      · intro other _ _ locked
        rw [isNone_iff_eq_none.mp unlocked] at locked
        cases locked
    | _ => exact absurd outside frugal

section Programs

open Program (call)

theorem frugal_of_modest (every : program.Every modest) : program.Every frugal := by
  refine every.mono ?_
  intro β command modest
  cases command <;> first | rfl | cases modest

theorem frugal_of_reads (every : program.Every reads) : program.Every frugal :=
  frugal_of_modest (every.mono fun command reads => by
    cases command <;> first | rfl | cases reads)

theorem triple_lookup (name : String) :
    (limitKept config).Triple self (Within self bound) (call (.machineDetails name false))
      fun found later => found.isSome = true ∧ Within self bound later := by
  refine .call (Within.stable config self bound) ?_
  intro threads provider input after response job within few running allowed executed
  obtain ⟨kept, others, started, within⟩ := keeps_within rfl
    threads provider input after response job within few running allowed executed
  refine ⟨kept, others, started, ?_, within⟩
  obtain ⟨-, found, record, -, ⟨asked, -⟩ | ⟨asked, -⟩ | ⟨-, rfl, -⟩⟩ :=
    execute_machineDetails executed
  · cases asked
  · cases asked
  · rfl

theorem findFreeMachine_frugal (names : List String) : (findFreeMachine names).Every frugal := by
  induction names with
  | nil => trivial
  | cons name names ih =>
    refine .after rfl ?_
    intro found
    cases found with
    | none => exact ih
    | some details =>
      refine .after rfl ?_
      intro connected
      split
      · trivial
      · exact .after rfl fun _ => ih

theorem addDetails_total (data : MachinesData) (details : Pointer) :
    (addDetails data details).Returns fun added => added.total = data.total + 1 := by
  refine after ?_
  intro state
  cases state with
  | removing =>
    refine after fun state => after ?_
    intro retryCount
    split <;> exact pure (by simp only [total]; omega)
  | _ => exact pure (by simp only [total]; omega)

theorem createMachine_frugal (details : Pointer) (state : MachineState) :
    (createMachine details state).Every frugal := by
  refine .after rfl fun created =>
    (frugal_of_modest (provision_modest details 3 created)).bind ?_
  intro provisioned
  split <;> exact .after rfl fun _ => .pure _

theorem useDetails_frugal (config : RunnerConfig) (details : Pointer)
    (newData : Option Pointer) : (useDetails config details newData).Every frugal := by
  refine .after rfl ?_
  intro credentials
  split
  · exact .after rfl fun _ =>
      .after rfl fun _ => .pure _
  · exact (frugal_of_modest (release_modest config newData)).bind fun _ => .pure _

theorem Command.outside_of_frugal (command : Command β)
    (frugal : command.frugal = true) : command.outside = true := by
  cases command <;> first | rfl | cases frugal

/-- A program of frugal commands can be performed outside of `Acquire`. -/
theorem outside_of_frugal (every : program.Every Command.frugal) : program.Every Command.outside :=
  every.mono Command.outside_of_frugal

theorem useMachine_outside (config : RunnerConfig) : (useMachine config).Every outside := by
  refine (outside_of_frugal (frugal_of_reads (loadMachines_reads config))).bind ?_
  intro machines
  cases machines with
  | none => trivial
  | some machines =>
    refine (outside_of_frugal (findFreeMachine_frugal machines.reverse)).bind ?_
    intro found
    cases found with
    | some details => trivial
    | none =>
      have created : (create .acquired).Every outside :=
        .after rfl fun _ => .after rfl fun _ =>
          .after rfl fun _ => .pure _
      refine created.bind ?_
      intro details
      refine (outside_of_frugal (createMachine_frugal details .acquired)).bind ?_
      intro done
      split <;> trivial

theorem retryUseMachine_outside (config : RunnerConfig) (tries : Nat) :
    (retryUseMachine config tries).Every outside := by
  induction tries with
  | zero => trivial
  | succ tries ih =>
    refine (useMachine_outside config).bind ?_
    intro found
    cases found with
    | some details => trivial
    | none => exact ih

theorem use_outside (config : RunnerConfig) (data : Option Pointer) :
    (use config data).Every outside := by
  refine (outside_of_frugal (frugal_of_reads (usable_reads data))).bind ?_
  intro found
  cases found with
  | some details => exact outside_of_frugal (useDetails_frugal config details none)
  | none =>
    refine (retryUseMachine_outside config 3).bind ?_
    intro found
    cases found with
    | none => trivial
    | some details => exact outside_of_frugal (useDetails_frugal config details (some details))

def Locked (self : Nat) (provider : Provider) : Prop :=
  provider.acquireLock = some self

theorem Locked.stable (config : RunnerConfig) (self : Nat) :
    (limitKept config).Stable self (Locked self) :=
  fun _ _ others locked => (others locked).1

theorem triple_lockAcquire :
    (limitKept config).Triple self pre (call .lockAcquire) fun _ => Locked self := by
  intro provider _
  refine Safe.call trivial (fun _ _ _ _ => trivial) ?_
  intro threads provider input after response job _ few running _ executed
  cases input <;> try cases executed
  simp only [semantics, execute] at executed
  split at executed
  · cases executed
  · rename_i unlocked
    cases executed
    refine ⟨few, ?_, by simp, rfl⟩
    intro other _ _ locked
    simp [locked] at unlocked

theorem triple_unlockAcquire :
    (limitKept config).Triple self (Locked self) (call .unlockAcquire) fun _ _ => True := by
  refine .call (Locked.stable config self) ?_
  intro threads provider input after response job locked few running _ executed
  cases input <;> cases executed
  refine ⟨few, ?_, by simp, trivial⟩
  intro other _ different taken
  exact absurd (some.inj (taken.symm.trans locked)) different

/-- Under the lock, no more machines are recorded than were listed. -/
theorem loadMachines_locked :
    (limitKept config).Triple self (Locked self) (loadMachines config) fun machines later =>
      Locked self later ∧ ∀ names ∈ machines, Within self names.length later := by
  have listed : (limitKept config).Triple self (Locked self) (call .list) fun machines later =>
      Locked self later ∧
        ∀ names ∈ machines, Within self (names.filter config.matchesFilter).length later := by
    refine .call (Locked.stable config self) ?_
    intro threads provider input after response job locked few running allowed executed
    cases input <;> cases executed
    refine ⟨few, fun _ _ _ => (limitKept config).rely_refl _ _, by simp, locked, ?_⟩
    rintro names rfl
    have same := (isPerm_iff.mp (Bool.and_eq_true_iff.mp allowed).1).length_eq
    exact ⟨locked, Nat.le_of_eq ((length_names provider).symm.trans same.symm)⟩
  refine listed.bind ?_
  rintro machines provider ⟨locked, within⟩
  cases machines with
  | none => exact ⟨locked, by simp⟩
  | some names =>
    refine ⟨locked, ?_⟩
    rintro filtered ⟨⟩
    exact within names rfl

theorem updateMachines_counts (machines : List String) (data : MachinesData)
    (validMachines : List String) :
    (limitKept config).Triple self (Within self bound)
      (updateMachines config machines data validMachines) fun result later =>
        result.1.total = data.total + machines.length ∧ Within self bound later := by
  induction machines generalizing data validMachines with
  | nil => exact fun _ within => ⟨by simp, within⟩
  | cons name machines ih =>
    have counted (details : Pointer) (names : List String) :
        (limitKept config).Triple self (Within self bound)
          (addDetails data details >>= fun data => updateMachines config machines data names)
          fun result later => result.1.total = data.total + ((name :: machines).length : Nat) ∧
            Within self bound later := by
      intro provider within
      refine ((triple_within (frugal_of_reads (addDetails_reads data details)) provider
        within).returns (addDetails_total data details)).bind ?_
      rintro added provider ⟨total, within⟩
      refine (ih added names provider within).mono ?_
      rintro result later ⟨totals, within⟩
      refine ⟨?_, within⟩
      rw [totals, total, length_cons]
      omega
    refine .bind (triple_lookup name) ?_
    rintro found provider ⟨isSome, within⟩
    obtain ⟨details, rfl⟩ := isSome_iff_exists.mp isSome
    refine Triple.bind (triple_within (frugal_of_reads
      (updateMachine_reads config data details))) (fun reason => ?_) provider within
    cases reason with
    | none => exact counted details _
    | some reason => exact .bind (triple_within (.call rfl)) fun _ => counted details _

theorem create_counts (room : (bound : Int) < config.limit) :
    (limitKept config).Triple self (Within self bound) (create .idle)
      fun _ => Within self (bound + 1) := by
  have added : (limitKept config).Keeps self (Within self bound) (.newMachine .idle)
      (fun _ => Within self (bound + 1)) := by
    intro threads provider input after response job within few running allowed executed
    obtain ⟨rfl, name, -, rfl, rfl⟩ := execute_newMachine executed
    have more := recorded_add provider self name
    refine ⟨?_, ?_, by simp, within.1, ?_⟩
    · have := within.2
      simp only [limitKept, more]
      omega
    · intro other _ different locked
      exact absurd (some.inj (locked.symm.trans within.1)) different
    · rw [more]
      exact Nat.succ_le_succ within.2
  exact .bind (.call (Within.stable config self bound) added) fun _ => triple_within
    (.after rfl fun _ => .after rfl fun _ => .pure _)

/-- `createMachines` stops at the limit as long as its data counts all machines. -/
theorem createMachines_counts (limited : 0 < config.limit) (rounds : Nat)
    (data : MachinesData) (counted : (bound : Int) ≤ data.total) :
    (limitKept config).Triple self (Within self bound) (createMachines config rounds data)
      fun _ => Locked self := by
  induction rounds generalizing data bound with
  | zero => exact fun _ => And.left
  | succ rounds ih =>
    refine .bind (triple_within (frugal_of_reads (getIdleCount_reads config))) fun idleCount => ?_
    split
    · exact fun _ => And.left
    · split
      · exact fun _ => And.left
      · rename_i below
        have room : (bound : Int) < config.limit := by omega
        refine .bind (create_counts room) fun details =>
          .bind (triple_within (.call rfl)) fun _ => ih _ ?_
        simp only [total] at counted ⊢
        omega

theorem acquireLocked_counts (limited : 0 < config.limit) :
    (limitKept config).Triple self (Locked self) (acquireLocked config) fun _ => Locked self := by
  refine .bind loadMachines_locked ?_
  rintro machines provider ⟨locked, within⟩
  cases machines with
  | none => exact locked
  | some machines =>
    refine Triple.bind (updateMachines_counts machines .empty []) ?_ provider (within machines rfl)
    rintro ⟨data, validMachines⟩ provider ⟨total, within⟩
    have counted : ((machines.length : Nat) : Int) ≤ data.total := by
      simp only [MachinesData.total, MachinesData.empty] at total ⊢
      omega
    refine Triple.bind (createMachines_counts limited _ data counted) ?_ provider within
    intro data provider locked
    refine Triple.bind (triple_within (findFreeMachine_frugal validMachines.reverse))
      (fun found => ?_) provider ⟨locked, Nat.le_refl _⟩
    cases found with
    | some details => exact fun _ => And.left
    | none =>
      refine .bind (triple_within (frugal_of_reads (getIdleCount_reads config))) fun count => ?_
      split
      · exact fun _ => And.left
      · exact fun _ => And.left

theorem acquire_counts (limited : 0 < config.limit) :
    (limitKept config).Triple self pre (acquire config) fun _ _ => True := by
  unfold acquire
  split
  · exact fun _ _ => trivial
  · exact .bind triple_lockAcquire fun _ => .bind (acquireLocked_counts limited) fun _ =>
      .bind triple_unlockAcquire fun _ _ _ => trivial

end Programs

theorem build_counts (limited : 0 < config.limit) (calls : List Call) (held : List Pointer) :
    (limitKept config).Triple self (fun _ => True) (build config calls held) fun _ _ => True := by
  induction calls generalizing held with
  | nil => exact fun _ _ => trivial
  | cons first calls ih =>
    cases first with
    | acquire => exact .bind (acquire_counts limited) fun _ => ih _
    | use data => exact .bind (triple_outside (use_outside config _)) fun _ => ih _
    | release data =>
      exact .bind (triple_outside (outside_of_frugal (frugal_of_modest (release_modest config _))))
        fun _ => ih _

theorem startBuilds_counts (limited : 0 < config.limit) (builds : List (List Call)) :
    (startBuilds (builds.map fun calls => (config, calls))).Safe (limitKept config)
      (fun _ _ => True) := by
  refine ⟨?_, ?_⟩
  · simp only [limitKept, startBuilds, start, recorded, countP_nil]
    omega
  · intro index program position
    obtain ⟨pair, member, rfl⟩ := mem_map.mp (mem_of_getElem? position)
    obtain ⟨calls, -, rfl⟩ := mem_map.mp member
    exact build_counts limited calls [] _ trivial

/-- Along every run of the calls for one runner in which `docker-machine` lists the
existing machines, machines are only created on demand while there is room, and
machines that were listed are still there when they are looked up, the runner
never has more machines than its limit. -/
theorem machines_within_limit {config : RunnerConfig} {builds : List (List Call)}
    {actions : List (Nat × Input)} {pool : Pool Provider Command} (limited : 0 < config.limit)
    (meets : MeetsAlong (Pool.step semantics)
      (fun pool action => pool.meets (fun self _ command input provider =>
        listsExisting config self command input provider &&
          createsWithinLimit config self command input provider) action = true)
      (startBuilds (builds.map fun calls => (config, calls))) actions)
    (reached : run (Pool.step semantics)
      (startBuilds (builds.map fun calls => (config, calls))) actions = some pool) :
    (pool.state.live : Int) ≤ config.limit := by
  have safe := (startBuilds_counts limited builds).run (fun _ _ _ _ _ => trivial)
    (fun job _ state spawned => triple_outside (outside_of_frugal
      (frugal_of_modest (body_modest job))) state spawned) meets reached
  exact Int.le_trans (Int.ofNat_le.mpr (live_le_recorded pool.state)) safe.invariant

def oneMachineConfig : RunnerConfig where
  limit := 1
  machineName := "machine-%s"
  maxBuilds := 0
  idleCount := 0
  offPeakIdleCount := 0
  matchesFilter _ := true

def onDemandActions : List (Nat × Input) :=
  [(0, .names (some [])), (0, .name "a"), (0, .nothing), (0, .nothing), (0, .answer true),
    (0, .nothing), (0, .answer true), (0, .nothing), (0, .nothing)]

theorem machines_within_limit_use :
    ∃ pool, run (Pool.step semantics)
        (startBuilds ([[.use none]].map fun calls => (oneMachineConfig, calls)))
        onDemandActions = some pool ∧
      pool.state.live = 1 ∧ (pool.state.live : Int) ≤ 1 := by
  have live : (run (Pool.step semantics)
      (startBuilds ([[.use none]].map fun calls => (oneMachineConfig, calls)))
      onDemandActions).map (fun pool => pool.state.live) = some 1 := by decide
  obtain ⟨pool, reached, one⟩ := map_eq_some_iff.mp live
  exact ⟨pool, reached, one, machines_within_limit (by decide) (by decide) reached⟩

/-- While the only machine is in use, another build creates a second one. -/
theorem machines_beyond_limit :
    ¬∀ (config : RunnerConfig) (builds : List (List Call)) (actions : List (Nat × Input))
      (pool : Pool Provider Command), 0 < config.limit →
      MeetsAlong (Pool.step semantics)
        (fun pool action => pool.meets (listsExisting config) action = true)
        (startBuilds (builds.map fun calls => (config, calls))) actions →
      run (Pool.step semantics)
        (startBuilds (builds.map fun calls => (config, calls))) actions = some pool →
      (pool.state.live : Int) ≤ config.limit := by
  intro bounded
  have live : (run (Pool.step semantics)
      (startBuilds ([[.use none], [.use none]].map fun calls => (oneMachineConfig, calls)))
      (onDemandActions ++ [(1, .names (some ["a"])), (1, .nothing), (1, .name "b")])).map
        (fun pool => pool.state.live) = some 2 := by decide
  obtain ⟨pool, reached, two⟩ := map_eq_some_iff.mp live
  have within := bounded oneMachineConfig _ _ pool (by decide) (by decide) reached
  rw [two] at within
  exact absurd within (by decide)

end GitlabRunner.Machine
