import GitlabRunner.MachineProvider

/-!
# One pass of the autoscaler

`Acquire` first walks through the machines of its runner: `updateMachines` counts them and
requests the removal of idle ones, and `createMachines` then creates what is missing.
-/

namespace GitlabRunner.Machine

open Concurrent List Details MachinesData Option
open Program (call alone alone_bind alone_call alone_pure)

/-- What stays the same during a pass: whether it is off-peak, which machines have been idle
for too long, and how new names are made. -/
structure Moment where
  offPeak : Bool
  tooLong : Pointer → Bool
  newName : Provider → String

inductive Request where
  | removal (name : String) (reason : RemoveReason) (state : Option MachineState)
  | creation (name : String)
  deriving DecidableEq, Repr

def Provider.stateOf (provider : Provider) (name : String) : Option MachineState :=
  (provider.find name).bind fun record => provider.machines[record]?.map state

def Moment.answer (moment : Moment) : {β : Type} → Command β → Provider → Input
  | _, .newMachine _, provider => .name (moment.newName provider)
  | _, .isOffPeak, _ => .answer moment.offPeak
  | _, .idleTooLong details, _ => .answer (moment.tooLong details)
  | _, _, _ => .nothing

def request : {β : Type} → Command β → Provider → Option Request
  | _, .remove name reason, provider => some (.removal name reason (provider.stateOf name))
  | _, .startCreation details, _ => some (.creation details.name)
  | _, _, _ => none

def Moment.solo (moment : Moment) : Solo Provider Command Input Request where
  self := 0
  fresh := 1
  answer := moment.answer
  noted := request

def Moment.idleCount (moment : Moment) (config : RunnerConfig) : Int :=
  if moment.offPeak then config.offPeakIdleCount else config.idleCount

def verdict (config : RunnerConfig) (idleCount : Int) (tooLong : Bool) (data : MachinesData)
    (details : Details) : Option RemoveReason :=
  if details.state ≠ .idle then none
  else if config.maxBuilds > 0 ∧ details.usedCount ≥ config.maxBuilds then some .tooManyBuilds
  else if data.total ≥ config.limit ∧ config.limit > 0 then some .tooManyMachines
  else if tooLong = true ∧ data.idle ≥ idleCount then some .tooManyIdleMachines
  else none

def MachinesData.add (data : MachinesData) (details : Details) : MachinesData :=
  match details.state with
  | .idle => { data with idle := data.idle + 1 }
  | .creating => { data with creating := data.creating + 1 }
  | .acquired => { data with acquired := data.acquired + 1 }
  | .used => { data with used := data.used + 1 }
  | .removing =>
    if details.retryCount ≥ removeRetryTries then
      { data with stuckOnRemoving := data.stuckOnRemoving + 1 }
    else { data with removing := data.removing + 1 }

variable {moment : Moment} {config : RunnerConfig} {provider : Provider} {data : MachinesData}
  {pointer : Pointer} {details : Details}

theorem readState_alone (found : provider.machines[pointer.record]? = some details) :
    (call (.readState pointer)).alone semantics moment.solo provider =
      some (provider, details.state, []) := by
  have executed : execute 0 1 (.readState pointer) .nothing provider =
      some (provider, details.state, none) := by simp [execute, found]
  exact alone_call executed

theorem getIdleCount_alone :
    (getIdleCount config).alone semantics moment.solo provider =
      some (provider, moment.idleCount config, []) := by
  have offPeak : (call .isOffPeak).alone semantics moment.solo provider =
      some (provider, moment.offPeak, []) := rfl
  apply alone_bind offPeak
  unfold Moment.idleCount
  split <;> rfl

theorem addDetails_alone (found : provider.machines[pointer.record]? = some details) :
    (addDetails data pointer).alone semantics moment.solo provider =
      some (provider, data.add details, []) := by
  apply alone_bind (readState_alone found)
  unfold add
  cases state : details.state with
  | removing =>
    have counted : execute 0 1 (.readRetryCount pointer) .nothing provider =
        some (provider, details.retryCount, none) := by simp [execute, found]
    apply alone_bind (readState_alone found)
    apply alone_bind (alone_call counted)
    by_cases stuck : details.retryCount ≥ removeRetryTries
    · rw [if_pos ⟨state, stuck⟩, if_pos stuck]
      rfl
    · rw [if_neg (fun both => stuck both.2), if_neg stuck]
      rfl
  | _ => rfl

theorem updateMachine_alone (found : provider.machines[pointer.record]? = some details) :
    (updateMachine config data pointer).alone semantics moment.solo provider =
      some (provider, verdict config (moment.idleCount config) (moment.tooLong pointer) data
        details, []) := by
  have tooManyBuilds : (updateMachine.tooManyBuilds config pointer).alone semantics moment.solo
      provider = some (provider, decide (config.maxBuilds > 0 ∧
        details.usedCount ≥ config.maxBuilds), []) := by
    unfold updateMachine.tooManyBuilds
    split
    · rename_i positive
      have counted : execute 0 1 (.readUsedCount pointer) .nothing provider =
          some (provider, details.usedCount, none) := by simp [execute, found]
      apply alone_bind (alone_call counted)
      simp [positive, alone_pure]
    · rename_i unlimited
      simp [unlimited, alone_pure]
  have idleTooLong : (call (.idleTooLong pointer)).alone semantics moment.solo provider =
      some (provider, moment.tooLong pointer, []) := rfl
  unfold updateMachine verdict
  apply alone_bind (readState_alone found)
  split
  · rfl
  · apply alone_bind tooManyBuilds
    by_cases exhausted : config.maxBuilds > 0 ∧ details.usedCount ≥ config.maxBuilds
    · rw [decide_eq_true exhausted, if_pos exhausted]
      rfl
    · rw [decide_eq_false exhausted, if_neg exhausted, if_neg Bool.false_ne_true]
      split
      · rfl
      · apply alone_bind idleTooLong
        cases moment.tooLong pointer with
        | false => rfl
        | true =>
          rw [if_pos rfl]
          apply alone_bind getIdleCount_alone
          simp only [true_and]
          split <;> rfl

section Names

variable {record : Nat} {name other : String} {change : Details → Details}

theorem Provider.find_modify (keeps : ∀ details : Details, (change details).name = details.name ∧
      (change details).listed = details.listed) :
    (provider.modify record change).find name = provider.find name := by
  let inMap := fun details : Details => details.listed && decide (details.name = name)
  have same : ((provider.modify record change).machines.map inMap) =
      provider.machines.map inMap := by
    apply ext_getElem?
    intro index
    rw [List.getElem?_map, List.getElem?_map, getElem?_modify]
    split
    · rw [Option.map_map]
      congr 1
      funext details
      simp [inMap, keeps details]
    · rfl
  have positions : ∀ machines : List Details,
      machines.findIdx? inMap = (machines.map inMap).findIdx? id := by
    intro machines
    rw [List.findIdx?_map]
    rfl
  exact (positions _).trans ((congrArg _ same).trans (positions _).symm)

theorem Provider.stateOf_eq_some (found : provider.find name = some record)
    (position : provider.machines[record]? = some details) :
    provider.stateOf name = some details.state := by
  rw [stateOf, found, bind_some, position]
  rfl

theorem Provider.stateOf_modify (keeps : ∀ details : Details, (change details).name = details.name ∧
      (change details).listed = details.listed)
    (found : provider.find name = some record) (distinct : other ≠ name) :
    (provider.modify record change).stateOf other = provider.stateOf other := by
  rw [stateOf, find_modify keeps, stateOf]
  cases foundOther : provider.find other with
  | none => rfl
  | some index =>
    have apart : record ≠ index := by
      rintro rfl
      obtain ⟨_, position, _, isName⟩ := find_eq_some found
      obtain ⟨_, positionOther, _, isOther⟩ := find_eq_some foundOther
      rw [position] at positionOther
      cases positionOther
      exact distinct (isOther.symm.trans isName)
    rw [bind_some, bind_some, getElem?_modify, if_neg apart]

theorem Provider.find_add {new : Details} (listed : new.listed = true) :
    (provider.add new).find name = (provider.find name).or
        (if new.name = name then some provider.machines.length else none) := by
  unfold find add
  rw [List.findIdx?_append]
  congr 1
  by_cases same : new.name = name <;> simp [List.findIdx?_cons, listed, same]

theorem Provider.stateOf_add {new : Details} (listed : new.listed = true)
    (distinct : other ≠ new.name) : (provider.add new).stateOf other = provider.stateOf other := by
  rw [stateOf, find_add listed, if_neg (Ne.symm distinct), or_none,
    stateOf]
  cases found : provider.find other with
  | none => rfl
  | some index =>
    obtain ⟨details, position, _⟩ := find_eq_some found
    have inside : index < provider.machines.length := (List.getElem?_eq_some_iff.mp position).1
    rw [bind_some, bind_some, add, List.getElem?_append_left inside]

/-- `machineDetails` finds a record for the name and leaves the other machines alone. -/
theorem Provider.lookup_spec (provider : Provider) (name : String) :
    ∃ details, (provider.lookup name).1.find name = some (provider.lookup name).2 ∧
      (provider.lookup name).1.machines[(provider.lookup name).2]? = some details ∧
      ∀ other ≠ name, (provider.lookup name).1.stateOf other = provider.stateOf other := by
  unfold lookup
  cases found : provider.find name with
  | some record =>
    obtain ⟨details, position, _⟩ := find_eq_some found
    exact ⟨details, found, position, fun _ _ => rfl⟩
  | none =>
    have named : (new name).name = name := rfl
    refine ⟨.new name, ?_, ?_, ?_⟩
    · rw [find_add rfl, found, if_pos named]
      rfl
    · rw [add, List.getElem?_concat_length]
    · intro other distinct
      exact stateOf_add rfl distinct

end Names

theorem MachinesData.total_add (data : MachinesData) (details : Details) :
    (data.add details).total = data.total + 1 := by
  unfold add
  split
  all_goals simp only [total]
  · omega
  · omega
  · omega
  · omega
  · split <;> dsimp only <;> omega

theorem MachinesData.idle_add (data : MachinesData) (details : Details) :
    (data.add details).idle = data.idle + if details.state = .idle then 1 else 0 := by
  unfold add
  cases details.state with
  | removing => simp only [reduceCtorEq, if_false, Int.add_zero]; split <;> rfl
  | _ => simp

theorem MachinesData.others_le_add (data : MachinesData) (details : Details) :
    data.available - data.idle ≤ (data.add details).available - (data.add details).idle := by
  unfold add
  split
  all_goals simp only [available]
  · omega
  · omega
  · omega
  · omega
  · split <;> dsimp only <;> omega

variable {idleCount : Int}

theorem verdict_eq_some {tooLong : Bool} {reason : RemoveReason}
    (removes : verdict config idleCount tooLong data details = some reason) :
    details.state = .idle ∧
      (reason = .tooManyMachines → data.total ≥ config.limit ∧ config.limit > 0) ∧
      (reason = .tooManyIdleMachines → data.idle ≥ idleCount) := by
  revert removes
  fun_cases verdict config idleCount tooLong data details with
  | case2 idle =>
    rintro ⟨⟩
    exact ⟨not_not.mp idle, nofun, nofun⟩
  | case3 idle _ full =>
    rintro ⟨⟩
    exact ⟨not_not.mp idle, fun _ => full, nofun⟩
  | case4 idle _ _ surplus =>
    rintro ⟨⟩
    exact ⟨not_not.mp idle, nofun, fun _ => surplus.2⟩
  | case1 | case5 => nofun

/-- What holds of a request of the walk: it removes an idle machine, and for a reason. -/
def Request.Allowed (moment : Moment) (config : RunnerConfig) (data : MachinesData) :
    Request → Prop
  | .removal _ reason state => state = some .idle ∧
    (reason = .tooManyMachines → data.total ≥ config.limit ∧ config.limit > 0) ∧
    (reason = .tooManyIdleMachines → data.idle ≥ moment.idleCount config)
  | .creation _ => False

structure Walked (moment : Moment) (config : RunnerConfig) (walked : List String)
    (provider : Provider) (data : MachinesData) (requests : List Request) : Prop where
  total : data.total = walked.length
  allowed : ∀ request ∈ requests, request.Allowed moment config data
  others : data.idle ≤ data.available
  counted : walked.Nodup →
    data.idle = ((walked.filter fun name => provider.stateOf name = some .idle).length : Int)

variable {requests : List Request} {walked : List String}

theorem Walked.keep {name : String}
    {looked : Provider} (so : Walked moment config walked provider data requests)
    (state : looked.stateOf name = some details.state)
    (others : ∀ other ≠ name, looked.stateOf other = provider.stateOf other) :
    Walked moment config (walked ++ [name]) looked (data.add details) requests := by
  have grows : data.idle ≤ (data.add details).idle := by
    rw [idle_add]
    split <;> omega
  refine ⟨?_, ?_, ?_, ?_⟩
  · rw [total_add, so.total, length_append, length_singleton]
    omega
  · rintro (⟨first, reason, firstState⟩ | first) member
    · obtain ⟨idle, full, surplus⟩ := so.allowed _ member
      refine ⟨idle, fun isReason => ?_, fun isReason => Int.le_trans (surplus isReason) grows⟩
      have := full isReason
      rw [total_add]
      omega
    · exact so.allowed _ member
  · have available := so.others
    have more := data.others_le_add details
    omega
  · intro distinct
    obtain ⟨before, _, apart⟩ := nodup_append.mp distinct
    have same : (walked.filter fun other => looked.stateOf other = some .idle) =
        walked.filter fun other => provider.stateOf other = some .idle := by
      apply filter_congr
      intro other member
      rw [others other (apart other member name (mem_singleton_self _))]
    rw [idle_add, so.counted before, filter_append, length_append, same, filter_singleton, state]
    by_cases idle : details.state = .idle
    · simp [idle]
    · simp [idle]

theorem Walked.remove {reason : RemoveReason}
    (so : Walked moment config walked provider data requests) (name : String)
    (full : reason = .tooManyMachines → data.total ≥ config.limit ∧ config.limit > 0)
    (surplus : reason = .tooManyIdleMachines → data.idle ≥ moment.idleCount config) :
    Walked moment config walked provider data
      (requests ++ [.removal name reason (some .idle)]) := by
  refine ⟨so.total, forall_mem_append.mpr ⟨so.allowed, ?_⟩, so.others, so.counted⟩
  intro request last
  rw [mem_singleton.mp last]
  exact ⟨rfl, full, surplus⟩

theorem machineDetails_alone (name : String) :
    (call (.machineDetails name false)).alone semantics moment.solo provider =
      some ((provider.lookup name).1, some ⟨(provider.lookup name).2, name⟩, []) := by
  have executed : execute 0 1 (.machineDetails name false) .nothing provider =
      some ((provider.lookup name).1, some ⟨(provider.lookup name).2, name⟩, none) := by
    simp [execute]
  exact alone_call executed

theorem remove_alone {name : String} {record : Nat} (reason : RemoveReason)
    (found : provider.find name = some record)
    (position : provider.machines[record]? = some details) :
    (call (.remove name reason)).alone semantics moment.solo provider =
      some (provider.modify record (.remove 0 1 reason), true,
        [.removal name reason (some details.state)]) := by
  have executed : execute 0 1 (.remove name reason) .nothing provider =
      some (provider.modify record (.remove 0 1 reason), true, some (.removal ⟨record, name⟩)) := by
    simp [execute, found]
  rw [← Provider.stateOf_eq_some found position]
  exact alone_call executed

theorem updateMachines_alone
    (so : Walked moment config walked provider data requests) (names validMachines : List String) :
    ∃ last after valid more,
      (updateMachines config names data validMachines).alone semantics moment.solo provider =
        some (last, (after, valid), more) ∧
      Walked moment config (walked ++ names) last after (requests ++ more) := by
  induction names generalizing walked requests provider data validMachines with
  | nil =>
    refine ⟨provider, data, validMachines, [], rfl, ?_⟩
    rwa [append_nil, append_nil]
  | cons name names ih =>
    obtain ⟨details, found, position, others⟩ := provider.lookup_spec name
    have judged := @updateMachine_alone moment config _ data
      ⟨(provider.lookup name).2, name⟩ details position
    have state := Provider.stateOf_eq_some found position
    cases outcome : verdict config (moment.idleCount config)
        (moment.tooLong ⟨(provider.lookup name).2, name⟩) data details with
    | none =>
      rw [outcome] at judged
      obtain ⟨last, after, valid, more, ran, walkedAll⟩ :=
        ih (so.keep state others) (validMachines ++ [name])
      refine ⟨last, after, valid, more, ?_, ?_⟩
      · exact alone_bind (machineDetails_alone name) (alone_bind judged
          (alone_bind (addDetails_alone position) ran))
      · rwa [append_assoc] at walkedAll
    | some reason =>
      rw [outcome] at judged
      obtain ⟨idle, full, surplus⟩ := verdict_eq_some outcome
      have removed := @remove_alone moment _ _ _ _ reason found position
      rw [idle] at removed
      have keeps : ∀ machine : Details, (machine.remove 0 1 reason).name = machine.name ∧
          (machine.remove 0 1 reason).listed = machine.listed := fun _ => ⟨rfl, rfl⟩
      have positionAfter : ((provider.lookup name).1.modify (provider.lookup name).2
          (.remove 0 1 reason)).machines[(provider.lookup name).2]? =
          some (details.remove 0 1 reason) := by
        rw [Provider.getElem?_modify, if_pos rfl, position]
        rfl
      have stateAfter := Provider.stateOf_eq_some
        ((Provider.find_modify keeps).trans found) positionAfter
      obtain ⟨last, after, valid, more, ran, walkedAll⟩ :=
        ih ((so.remove name full surplus).keep stateAfter fun other distinct =>
          (Provider.stateOf_modify keeps found distinct).trans (others other distinct))
          validMachines
      refine ⟨last, after, valid, .removal name reason (some .idle) :: more, ?_, ?_⟩
      · exact alone_bind (machineDetails_alone name) (alone_bind judged
          (alone_bind removed (alone_bind (addDetails_alone positionAfter) ran)))
      · rwa [append_assoc, append_assoc] at walkedAll

/-- The number of machines that are missing: up to the idle count, and not beyond the limit. -/
def MachinesData.missing (data : MachinesData) (config : RunnerConfig) (idleCount : Int) : Int :=
  max 0 (if config.limit > 0 then min (idleCount - data.available) (config.limit - data.total)
    else idleCount - data.available)

def Moment.Fresh (moment : Moment) : Prop :=
  ∀ provider : Provider, provider.find (moment.newName provider) = none

theorem create_alone (fresh : moment.Fresh) (state : MachineState) :
    ∃ after, (create state).alone semantics moment.solo provider =
      some (after, ⟨provider.machines.length, moment.newName provider⟩, []) := by
  have named : (call (.newMachine state)).alone semantics moment.solo provider =
      some (provider.add { new (moment.newName provider) with
        state := .acquired, owners := [0] },
        ⟨provider.machines.length, moment.newName provider⟩, []) := by
    have executed : execute 0 1 (.newMachine state) (.name (moment.newName provider)) provider =
        some (provider.add { new (moment.newName provider) with
          state := .acquired, owners := [0] },
          ⟨provider.machines.length, moment.newName provider⟩, none) := by
      simp [execute, fresh provider]
    exact alone_call executed
  have reset : ∀ (made : Provider) (pointer : Pointer), ∃ after, (do
        call (.writeState pointer .creating)
        call (.resetCounts pointer)
        pure pointer : Program Command Pointer).alone semantics moment.solo made =
        some (after, pointer, []) := fun _ _ => ⟨_, rfl⟩
  obtain ⟨after, ran⟩ := reset _ _
  exact ⟨after, alone_bind named ran⟩

theorem missing_of_reached (reached : data.available ≥ idleCount) :
    data.missing config idleCount = 0 := by
  unfold missing
  split <;> omega

theorem missing_of_full (full : data.total ≥ config.limit ∧ config.limit > 0) :
    data.missing config idleCount = 0 := by
  unfold missing
  rw [if_pos full.2]
  omega

theorem missing_of_create (reached : ¬ data.available ≥ idleCount)
    (full : ¬ (data.total ≥ config.limit ∧ config.limit > 0)) :
    data.missing config idleCount =
      ({ data with creating := data.creating + 1 } : MachinesData).missing config idleCount +
        1 := by
  unfold missing available total at *
  dsimp only at *
  split <;> omega

theorem createMachines_alone (fresh : moment.Fresh) (rounds : Nat)
    (enough : moment.idleCount config - data.available ≤ rounds) :
    ∃ last after requests,
      (createMachines config rounds data).alone semantics moment.solo provider =
        some (last, after, requests) ∧
      (requests.length : Int) = data.missing config (moment.idleCount config) ∧
      ∀ request ∈ requests, ∃ name, request = .creation name := by
  induction rounds generalizing provider data with
  | zero =>
    refine ⟨provider, data, [], rfl, ?_, nofun⟩
    exact (missing_of_reached (by omega)).symm
  | succ rounds ih =>
    unfold createMachines
    by_cases reached : data.available ≥ moment.idleCount config
    · refine ⟨provider, data, [], alone_bind getIdleCount_alone ?_, ?_, nofun⟩
      · rw [if_pos reached, alone_pure]
      · exact (missing_of_reached reached).symm
    · by_cases full : data.total ≥ config.limit ∧ config.limit > 0
      · refine ⟨provider, data, [], alone_bind getIdleCount_alone ?_, ?_, nofun⟩
        · rw [if_neg reached, if_pos full, alone_pure]
        · exact (missing_of_full full).symm
      · obtain ⟨created, ranCreate⟩ := @create_alone moment provider fresh .idle
        have started : (call (.startCreation
            ⟨provider.machines.length, moment.newName provider⟩)).alone semantics moment.solo
            created = some (created.modify provider.machines.length (.handOver 0 1), (),
              [.creation (moment.newName provider)]) := rfl
        have available : ({ data with creating := data.creating + 1 } : MachinesData).available =
            data.available + 1 := by
          unfold available
          dsimp only
          omega
        obtain ⟨last, after, requests, ran, counted, creations⟩ :=
          @ih (created.modify provider.machines.length (.handOver 0 1))
            { data with creating := data.creating + 1 } (by omega)
        refine ⟨last, after, .creation (moment.newName provider) :: requests,
          alone_bind getIdleCount_alone ?_, ?_, ?_⟩
        · rw [if_neg reached, if_neg full]
          exact alone_bind ranCreate (alone_bind started ran)
        · have one := missing_of_create reached full
          rw [length_cons]
          omega
        · intro request member
          rcases mem_cons.mp member with rfl | later
          · exact ⟨_, rfl⟩
          · exact creations request later

/-- One pass of the autoscaler is consistent.  Only idle machines are removed, and every listed
machine is counted once.  If a machine of a list without repetitions is removed for being idle
too long, enough idle machines remain.  After a removal for the limit or for idle time nothing
is created, and otherwise exactly what is missing. -/
theorem pass_consistent (config : RunnerConfig) (moment : Moment) (fresh : moment.Fresh)
    (names : List String) (provider : Provider) :
    ∃ updated data valid removals last after creations,
      (updateMachines config names .empty []).alone semantics moment.solo provider =
        some (updated, (data, valid), removals) ∧
      (createMachines config (missingMachines config data) data).alone semantics moment.solo
        updated = some (last, after, creations) ∧
      (∀ name reason state, .removal name reason state ∈ removals → state = some .idle) ∧
      data.total = names.length ∧
      (names.Nodup → ∀ name state, .removal name .tooManyIdleMachines state ∈ removals →
        moment.idleCount config ≤
          ((names.filter fun other => updated.stateOf other = some .idle).length : Int)) ∧
      (∀ name reason state, .removal name reason state ∈ removals →
        reason = .tooManyMachines ∨ reason = .tooManyIdleMachines → creations = []) ∧
      (creations.length : Int) = data.missing config (moment.idleCount config) ∧
      ∀ request ∈ creations, ∃ name, request = .creation name := by
  have start : Walked moment config [] provider .empty [] :=
    ⟨rfl, nofun, Int.le_refl 0, fun _ => rfl⟩
  obtain ⟨updated, data, valid, removals, ranUpdate, walked⟩ := updateMachines_alone start names []
  rw [nil_append, nil_append] at walked
  obtain ⟨last, after, creations, ranCreate, counted, created⟩ :=
    @createMachines_alone moment config updated data fresh (missingMachines config data)
      (by unfold Moment.idleCount missingMachines; split <;> omega)
  refine ⟨updated, data, valid, removals, last, after, creations, ranUpdate, ranCreate,
    fun _ _ _ member => (walked.allowed _ member).1, walked.total, ?_, ?_, counted, created⟩
  · intro distinct name state member
    rw [← walked.counted distinct]
    exact (walked.allowed _ member).2.2 rfl
  · intro name reason state member because
    have none : data.missing config (moment.idleCount config) = 0 := by
      rcases because with rfl | rfl
      · exact missing_of_full ((walked.allowed _ member).2.1 rfl)
      · exact missing_of_reached (Int.le_trans ((walked.allowed _ member).2.2 rfl) walked.others)
    apply eq_nil_of_length_eq_zero
    omega

def longName (provider : Provider) : String :=
  String.ofList ((provider.machines.map fun details => details.name.toList).flatten ++ ['x'])

def lateMoment : Moment where
  offPeak := false
  tooLong _ := true
  newName := longName

theorem lateMoment_fresh : lateMoment.Fresh := by
  intro provider
  by_contra found
  obtain ⟨record, foundRecord⟩ := ne_none_iff_exists'.mp found
  obtain ⟨details, position, _, named⟩ := Provider.find_eq_some foundRecord
  have part : details.name.toList.Sublist
      (provider.machines.map fun details => details.name.toList).flatten :=
    sublist_flatten_of_mem (mem_map_of_mem (mem_of_getElem? position))
  have short := part.length_le
  have long : details.name.toList.length =
      (provider.machines.map fun details => details.name.toList).flatten.length + 1 := by
    rw [named]
    simp [lateMoment, longName]
  omega

def oneIdle : RunnerConfig where
  limit := 0
  machineName := "machine-%s"
  maxBuilds := 0
  idleCount := 1
  offPeakIdleCount := 0
  matchesFilter _ := true

/-- Of two machines that are idle for too long, one is removed and one remains. -/
theorem pass_consistent_two :
    ∃ updated data valid removals,
      (updateMachines oneIdle ["a", "b"] .empty []).alone semantics lateMoment.solo .start =
        some (updated, (data, valid), removals) ∧
      removals = [.removal "b" .tooManyIdleMachines (some .idle)] ∧ data.total = 2 ∧
      1 ≤ ((["a", "b"].filter fun other => updated.stateOf other = some .idle).length : Int) := by
  obtain ⟨updated, data, valid, removals, _, _, _, ran, _, _, total, remain, _⟩ :=
    pass_consistent oneIdle lateMoment lateMoment_fresh ["a", "b"] .start
  have requests : removals = [.removal "b" .tooManyIdleMachines (some .idle)] := by
    have noted := congrArg (Option.map fun result => result.2.2) ran
    rw [show ((updateMachines oneIdle ["a", "b"] .empty []).alone semantics lateMoment.solo
      .start).map (fun result => result.2.2) =
        some [.removal "b" .tooManyIdleMachines (some .idle)] by decide] at noted
    exact (Option.some.inj noted).symm
  refine ⟨updated, data, valid, removals, ran, requests, total, ?_⟩
  exact remain (by decide) "b" (some .idle) (by rw [requests]; exact mem_singleton_self _)

/-- A list that repeats a name counts its machine twice: it is removed as the second idle one,
and no idle machine remains. -/
theorem pass_repeated_name :
    ¬ ∀ (config : RunnerConfig) (moment : Moment) (names : List String)
      (provider updated : Provider) (data : MachinesData) (valid : List String)
      (removals : List Request), moment.Fresh →
      (updateMachines config names .empty []).alone semantics moment.solo provider =
        some (updated, (data, valid), removals) →
      ∀ name state, .removal name .tooManyIdleMachines state ∈ removals →
        moment.idleCount config ≤
          ((names.filter fun other => updated.stateOf other = some .idle).length : Int) := by
  intro remain
  have outcome : ((updateMachines oneIdle ["a", "a"] .empty []).alone semantics lateMoment.solo
      .start).map (fun result => (result.2.2,
        (["a", "a"].filter fun other => result.1.stateOf other = some .idle).length)) =
      some ([.removal "a" .tooManyIdleMachines (some .idle)], 0) := by decide
  obtain ⟨⟨updated, ⟨data, valid⟩, removals⟩, ran, same⟩ := Option.map_eq_some_iff.mp outcome
  obtain ⟨requests, none⟩ := Prod.mk.inj same
  dsimp only at requests none
  have idle := remain oneIdle lateMoment ["a", "a"] .start updated data valid removals
    lateMoment_fresh ran "a" (some .idle) (by rw [requests]; exact mem_singleton_self _)
  rw [none] at idle
  exact absurd idle (by decide)

end GitlabRunner.Machine
