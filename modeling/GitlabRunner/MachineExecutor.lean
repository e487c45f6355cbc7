import GitlabRunner.MachineRules
import GitlabRunner.ProcessRunner

/-!
# A job gives its machines back

A job of a docker+machine runner gets a machine from `Acquire`, or a new one from each
`Use`.
-/

namespace GitlabRunner.Machine

open Concurrent List ActionRuns Option Details
open Program (call)

/-- `machineExecutor`: whether the inner executor was created, and the machine if
it is a new one. -/
structure MachineExecutor where
  executor : Bool
  data : Option Pointer
  deriving DecidableEq, Repr

/-- `Prepare`: the executor afterwards and whether it succeeded. -/
def prepare (config : RunnerConfig) (executorData : Option Pointer) :
    Program Command (MachineExecutor × Bool) := do
  match ← use config executorData with
  | none => pure (⟨false, none⟩, false)
  | some newData =>
    if ← call (.build .createExecutor) then
      let prepared ← call (.build .prepare)
      pure (⟨true, newData⟩, prepared)
    else pure (⟨false, newData⟩, false)

def cleanup (config : RunnerConfig) (executor : MachineExecutor) : Program Command Unit := do
  if executor.executor then
    let _ ← call (.build .cleanup)
    release config executor.data
  else release config executor.data

def preparationRetries : Nat := 3

/-- `retryCreateExecutor` with the tries that are left, with no result for an
error. -/
def retryCreateExecutor (config : RunnerConfig) (executorData : Option Pointer) :
    Nat → Program Command (Option MachineExecutor)
  | 0 => pure none
  | tries + 1 => do
    let (executor, prepared) ← prepare config executorData
    if prepared then pure (some executor)
    else
      cleanup config executor
      if ← call (.build .buildError) then pure none
      else if ← call (.build .contextEnded) then pure none
      else retryCreateExecutor config executorData tries

def runBuild (config : RunnerConfig) (executorData : Option Pointer) :
    Program Command Bool := do
  match ← retryCreateExecutor config executorData preparationRetries with
  | none => pure false
  | some executor =>
    let succeeded ← call (.build .run)
    cleanup config executor
    pure succeeded

/-- What `processRunner` calls for a docker+machine runner.  The slots of
`buildsHelper` are not part of the provider. -/
def machineRuntime (config : RunnerConfig) : Runner.Runtime Command (Option Pointer) where
  acquire := acquire config
  release := release config
  acquireBuild := call (.build .acquireBuild)
  releaseBuild := pure ()
  createSession := call (.build .createSession)
  acquireRequest := call (.build .acquireRequest)
  releaseRequest := pure ()
  requestJob := call (.build .requestJob)
  newBuild := call (.build .newBuild)
  run := runBuild config

/-- One `processRunner` call next to goroutines of the provider. -/
def startProcess (config : RunnerConfig) (provider : Provider)
    (background : List (Program Command Unit)) : Pool Provider Command where
  state := provider
  threads := (do let _ ← Runner.processRunner (machineRuntime config)) :: background

def Details.Settled (details : Details) : Prop :=
  details.state = .idle ∨ details.state = .removing ∨ details.listed = false

instance (details : Details) : Decidable details.Settled :=
  inferInstanceAs (Decidable (_ ∨ _ ∨ _))

/-- A change of a machine that takes it for no one. -/
structure Details.Follows (caller : Nat) (details changed : Details) : Prop where
  name : changed.name = details.name
  listed : changed.listed = true → details.listed = true
  takers : caller ∈ changed.takers → caller ∈ details.takers
  settled : details.Settled → changed.Settled

theorem Details.Follows.refl (caller : Nat) (details : Details) : details.Follows caller details :=
  ⟨rfl, id, id, id⟩

theorem Details.Follows.trans {caller : Nat} {first second third : Details}
    (left : first.Follows caller second) (right : second.Follows caller third) :
    first.Follows caller third :=
  ⟨right.name.trans left.name, left.listed ∘ right.listed, left.takers ∘ right.takers,
    right.settled ∘ left.settled⟩

/-- The provider changes without taking a machine for the caller, without adding
one and without using one that nobody uses. -/
structure OnlySettles (caller : Nat) (provider later : Provider) : Prop where
  kept : ∀ (index : Nat) (details : Details), provider.machines[index]? = some details →
    ∃ changed, later.machines[index]? = some changed ∧ details.Follows caller changed
  old : ∀ (index : Nat) (changed : Details), later.machines[index]? = some changed →
    ∃ details, provider.machines[index]? = some details ∧ details.Follows caller changed

variable {caller self : Nat} {provider later : Provider} {held : List Pointer}
  {pointer : Pointer} {change : Details → Details}

theorem OnlySettles.of_machines (same : later.machines = provider.machines) :
    OnlySettles caller provider later := by
  refine ⟨?_, ?_⟩ <;> intro index details found
  · exact ⟨details, same ▸ found, .refl caller details⟩
  · exact ⟨details, same ▸ found, .refl caller details⟩

theorem OnlySettles.trans {third : Provider} (first : OnlySettles caller provider later)
    (second : OnlySettles caller later third) : OnlySettles caller provider third := by
  refine ⟨?_, ?_⟩
  · intro index details found
    obtain ⟨changed, foundChanged, follows⟩ := first.kept index details found
    obtain ⟨last, foundLast, followsLast⟩ := second.kept index changed foundChanged
    exact ⟨last, foundLast, follows.trans followsLast⟩
  · intro index last foundLast
    obtain ⟨changed, foundChanged, followsLast⟩ := second.old index last foundLast
    obtain ⟨details, found, follows⟩ := first.old index changed foundChanged
    exact ⟨details, found, follows.trans followsLast⟩

theorem OnlySettles.modify (record : Nat)
    (follows : ∀ details : Details, details.Follows caller (change details)) :
    OnlySettles caller provider (provider.modify record change) := by
  refine ⟨?_, ?_⟩
  · intro index details found
    rw [Provider.getElem?_modify, found]
    split
    · exact ⟨change details, rfl, follows details⟩
    · exact ⟨details, rfl, .refl caller details⟩
  · intro index changed found
    obtain ⟨old, position, ⟨-, rfl⟩ | ⟨-, rfl⟩⟩ := Provider.modify_eq_some found
    · exact ⟨old, position, follows old⟩
    · exact ⟨changed, position, .refl caller changed⟩

theorem OnlySettles.unique (settles : OnlySettles caller provider later)
    (unique : provider.Unique) : later.Unique := by
  intro first second left right foundLeft foundRight listedLeft listedRight same
  obtain ⟨oldLeft, positionLeft, followsLeft⟩ := settles.old first left foundLeft
  obtain ⟨oldRight, positionRight, followsRight⟩ := settles.old second right foundRight
  exact unique first second oldLeft oldRight positionLeft positionRight
    (followsLeft.listed listedLeft) (followsRight.listed listedRight)
    (by rw [← followsLeft.name, ← followsRight.name, same])

variable {β : Type} {command : Command β}

theorem execute_quiet {fresh : Nat} {input : Input}
    {after : Provider} {response : β} {job : Option Job} (quiet : command.quiet = true)
    (executed : execute self fresh command input provider = some (after, response, job)) :
    OnlySettles caller provider after := by
  rcases execute_changes quiet executed with same | ⟨record, change, rfl, changes⟩
  · exact .of_machines same
  · refine .modify record ?_
    intro details
    obtain ⟨name, listed, takers, state⟩ := changes details
    refine ⟨name, listed, fun taken => takers ▸ taken, ?_⟩
    rintro (idle | removing | gone)
    · exact state.elim (fun same => .inl (same.trans idle)) (Or.imp_right .inl)
    · exact state.elim (fun same => .inr (.inl (same.trans removing))) (Or.imp_right .inl)
    · refine .inr (.inr (Bool.eq_false_iff.mpr ?_))
      intro isListed
      rw [listed isListed] at gone
      cases gone

/-- The discipline of one caller: the other threads only settle machines. -/
def settling (caller : Nat) : Discipline semantics where
  allowed _ _ _ _ _ := true
  Invariant threads provider := caller < threads ∧ provider.Unique
  Rely self provider later := self = caller → OnlySettles caller provider later
  Spawned _ started _ := started ≠ caller
  rely_refl _ _ _ := .of_machines rfl
  rely_trans _ _ _ _ first second same := (first same).trans (second same)

/-- The machines that were taken for the caller are settled or among those that it
still holds. -/
structure Leased (caller : Nat) (held : List Pointer) (provider : Provider) : Prop where
  settled : ∀ (index : Nat) (details : Details), provider.machines[index]? = some details →
    caller ∈ details.takers → details.Settled ∨ ∃ pointer ∈ held, pointer.record = index
  known : ∀ pointer ∈ held, ∃ details, provider.machines[pointer.record]? = some details ∧
    details.name = pointer.name

def Untaken (caller : Nat) (pointer : Pointer) (provider : Provider) : Prop :=
  ∃ details, provider.machines[pointer.record]? = some details ∧
    details.name = pointer.name ∧ caller ∉ details.takers

theorem Leased.settle (leased : Leased caller held provider)
    (settles : OnlySettles caller provider later) : Leased caller held later := by
  refine ⟨?_, ?_⟩
  · intro index changed found taken
    obtain ⟨details, position, follows⟩ := settles.old index changed found
    exact (leased.settled index details position (follows.takers taken)).imp_left follows.settled
  · intro pointer member
    obtain ⟨details, position, name⟩ := leased.known pointer member
    obtain ⟨changed, found, follows⟩ := settles.kept _ details position
    exact ⟨changed, found, follows.name.trans name⟩

theorem Untaken.settle (untaken : Untaken caller pointer provider)
    (settles : OnlySettles caller provider later) : Untaken caller pointer later := by
  obtain ⟨details, position, name, none⟩ := untaken
  obtain ⟨changed, found, follows⟩ := settles.kept _ details position
  exact ⟨changed, found, follows.name.trans name, none ∘ follows.takers⟩

theorem Leased.stable (held : List Pointer) :
    (settling caller).Stable caller (Leased caller held) :=
  fun _ _ others leased => leased.settle (others rfl)

theorem Leased.stable_untaken (held : List Pointer) (pointer : Pointer) :
    (settling caller).Stable caller
      fun provider => Leased caller held provider ∧ Untaken caller pointer provider :=
  fun _ _ others holds => ⟨holds.1.settle (others rfl), holds.2.settle (others rfl)⟩

theorem keeps_quiet (quiet : command.quiet = true) {pre : Provider → Prop}
    (stable : ∀ provider later, OnlySettles caller provider later → pre provider →
      pre later) : (settling caller).Keeps self pre command (fun _ => pre) := by
  intro threads provider input after response job holds invariant _ _ executed
  have settles : OnlySettles caller provider after := execute_quiet quiet executed
  exact ⟨⟨Nat.lt_add_right _ invariant.1, settles.unique invariant.2⟩,
    fun _ _ _ _ => settles, fun _ _ => Nat.ne_of_gt invariant.1, stable _ _ settles holds⟩

theorem Leased.add (leased : Leased caller held provider) {details : Details}
    (untaken : caller ∉ details.takers) : Leased caller held (provider.add details) := by
  refine ⟨?_, ?_⟩
  · intro index after found taken
    rcases Provider.add_eq_some found with old | ⟨-, rfl⟩
    · exact leased.settled index after old taken
    · exact absurd taken untaken
  · intro pointer member
    obtain ⟨old, position, name⟩ := leased.known pointer member
    refine ⟨old, ?_, name⟩
    rw [Provider.add, List.getElem?_append_left (List.getElem?_eq_some_iff.mp position).1]
    exact position

/-- Changing one machine: it keeps its name and, if it was taken for the caller, it
is settled or held. -/
theorem Leased.modify (leased : Leased caller held provider) {record : Nat}
    (name : ∀ details : Details, (change details).name = details.name)
    (settled : ∀ details, provider.machines[record]? = some details →
      caller ∈ (change details).takers →
      (change details).Settled ∨ ∃ pointer ∈ held, pointer.record = record) :
    Leased caller held (provider.modify record change) := by
  refine ⟨?_, ?_⟩
  · intro index after found taken
    obtain ⟨old, position, ⟨rfl, rfl⟩ | ⟨-, rfl⟩⟩ := Provider.modify_eq_some found
    · exact settled old position taken
    · exact leased.settled index after position taken
  · intro pointer member
    obtain ⟨old, position, same⟩ := leased.known pointer member
    rw [Provider.getElem?_modify, position]
    split
    · exact ⟨change old, rfl, (name old).trans same⟩
    · exact ⟨old, rfl, same⟩

theorem Leased.cons (leased : Leased caller held provider) {details : Details}
    (found : provider.machines[pointer.record]? = some details)
    (name : details.name = pointer.name) : Leased caller (pointer :: held) provider := by
  refine ⟨?_, ?_⟩
  · intro index other position taken
    rcases leased.settled index other position taken with settled | ⟨second, member, same⟩
    · exact .inl settled
    · exact .inr ⟨second, mem_cons_of_mem _ member, same⟩
  · intro second member
    rcases mem_cons.mp member with rfl | old
    · exact ⟨details, found, name⟩
    · exact leased.known second old

theorem Leased.tail (leased : Leased caller (pointer :: held) provider)
    (settled : ∀ details, provider.machines[pointer.record]? = some details →
      details.Settled) : Leased caller held provider := by
  refine ⟨?_, fun second member => leased.known second (mem_cons_of_mem _ member)⟩
  intro index details found taken
  rcases leased.settled index details found taken with done | ⟨second, member, rfl⟩
  · exact .inl done
  · rcases mem_cons.mp member with rfl | old
    · exact .inl (settled details found)
    · exact .inr ⟨second, old, rfl⟩

section Commands

open Leased

theorem triple_quiet (quiet : command.quiet = true) :
    (settling caller).Triple caller (Leased caller held) (call command)
      fun _ => Leased caller held :=
  .call (stable held) (keeps_quiet quiet fun _ _ settles leased => leased.settle settles)

/-- A command of the caller that starts no goroutine may do what it wants as long
as the map has one record for each name. -/
theorem keeps_caller {pre : Provider → Prop} {post : β → Provider → Prop}
    (leads : ∀ fresh input provider after response job, pre provider → provider.Unique →
      execute caller fresh command input provider = some (after, response, job) →
      job = none ∧ after.Unique ∧ post response after) :
    (settling caller).Keeps caller pre command post := by
  intro threads provider input after response job holds invariant running _ executed
  obtain ⟨rfl, unique, ends⟩ := leads threads input provider after response job holds
    invariant.2 executed
  exact ⟨⟨invariant.1, unique⟩, fun other _ different same => absurd same different,
    by simp, ends⟩

theorem lookup_leased {name : String} {found : Provider} {record : Nat}
    (looked : provider.lookup name = (found, record)) (unique : provider.Unique)
    (leased : Leased caller held provider) :
    found.Unique ∧ Leased caller held found ∧
      ∃ details, found.machines[record]? = some details ∧ details.name = name := by
  unfold Provider.lookup at looked
  split at looked
  · rename_i present
    cases looked
    obtain ⟨details, position, -, same⟩ := Provider.find_eq_some present
    exact ⟨unique, leased, details, position, same⟩
  · rename_i absent
    cases looked
    exact ⟨unique.add absent, leased.add (by simp [new]), .new name,
      by simp [Provider.add], rfl⟩

/-- `machineDetails` takes the machine that it returns if it is asked to. -/
theorem triple_machineDetails_leased (name : String) (acquire : Bool) :
    (settling caller).Triple caller (Leased caller held) (call (.machineDetails name acquire))
      fun found later => (∀ pointer ∈ found, pointer.name = name) ∧
        Leased caller ((if acquire then found else none).toList ++ held) later := by
  refine .call (stable held) (keeps_caller ?_)
  intro fresh input provider after response job leased unique executed
  obtain ⟨noJob, found, record, looked, result⟩ := execute_machineDetails executed
  obtain ⟨uniqueFound, leased, details, position, same⟩ := lookup_leased looked unique leased
  rcases result with ⟨rfl, rfl, rfl, -⟩ | ⟨rfl, rfl, rfl, -⟩ | ⟨rfl, rfl, rfl⟩
  · exact ⟨noJob, uniqueFound, by simp, leased⟩
  · refine ⟨noJob, uniqueFound.modify fun _ _ => ⟨rfl, id⟩, by simp, ?_⟩
    have more : Leased caller (⟨record, name⟩ :: held) found := leased.cons position same
    exact more.modify (fun _ => rfl) fun _ _ _ => .inr ⟨⟨record, name⟩, by simp⟩
  · exact ⟨noJob, uniqueFound, by simp, leased⟩

theorem triple_newMachine_leased (state : MachineState) :
    (settling caller).Triple caller (Leased caller held) (call (.newMachine state))
      fun pointer later => Leased caller held later ∧ Untaken caller pointer later := by
  refine .call (stable held) (keeps_caller ?_)
  intro fresh input provider after response job leased unique executed
  obtain ⟨noJob, name, absent, rfl, rfl⟩ := execute_newMachine executed
  refine ⟨noJob, unique.add absent, leased.add (by simp [new]), ?_⟩
  exact ⟨{ new name with state := .acquired, owners := [caller] },
    by simp [Provider.add], rfl, by simp [new]⟩

theorem triple_write_leased {state : MachineState} (member : pointer ∈ held) :
    (settling caller).Triple caller (Leased caller held) (call (.writeState pointer state))
      fun _ => Leased caller held := by
  refine .call (stable held) (keeps_caller ?_)
  intro fresh input provider after response job leased unique executed
  obtain ⟨rfl, rfl⟩ := execute_change rfl executed
  exact ⟨rfl, unique.modify fun _ _ => ⟨rfl, id⟩,
    leased.modify (fun _ => rfl) fun _ _ _ => .inr ⟨pointer, member, rfl⟩⟩

theorem triple_write_creating :
    (settling caller).Triple caller
      (fun provider => Leased caller held provider ∧ Untaken caller pointer provider)
      (call (.writeState pointer .creating))
      fun _ later => Leased caller held later ∧ Untaken caller pointer later := by
  refine .call (stable_untaken held pointer) (keeps_caller ?_)
  rintro fresh input provider after response job ⟨leased, details, found, name, none⟩ unique
    executed
  obtain ⟨rfl, rfl⟩ := execute_change rfl executed
  refine ⟨rfl, unique.modify fun _ _ => ⟨rfl, id⟩, ?_, ?_⟩
  · refine leased.modify (fun _ => rfl) ?_
    intro old position taken
    rw [found, some.injEq] at position
    subst position
    exact absurd (by simpa [write] using taken) none
  · refine ⟨details.write caller .creating, ?_, name, by simpa [write] using none⟩
    rw [Provider.getElem?_modify, found]
    simp

theorem triple_write_idle_leased :
    (settling caller).Triple caller (Leased caller (pointer :: held))
      (call (.writeState pointer .idle)) fun _ => Leased caller held := by
  refine .call (stable (pointer :: held)) (keeps_caller ?_)
  intro fresh input provider after response job leased unique executed
  obtain ⟨rfl, rfl⟩ := execute_change rfl executed
  have still : Leased caller (pointer :: held)
      (provider.modify pointer.record (.write caller .idle)) :=
    leased.modify (fun _ => rfl) fun _ _ _ => .inr ⟨pointer, by simp⟩
  refine ⟨rfl, unique.modify fun _ _ => ⟨rfl, id⟩, still.tail ?_⟩
  intro details found
  obtain ⟨old, -, ⟨-, rfl⟩ | ⟨other, -⟩⟩ := Provider.modify_eq_some found
  · exact .inl rfl
  · exact absurd rfl other

/-- The caller has a machine removed.  If the map no longer has the machine, there
is nothing to remove. -/
theorem triple_remove_leased (reason : RemoveReason) :
    (settling caller).Triple caller (Leased caller (pointer :: held))
      (call (.remove pointer.name reason)) fun gone later =>
        (gone = false → Leased caller (pointer :: held) later) ∧ Leased caller held later := by
  refine .call (stable (pointer :: held)) ?_
  intro threads provider input after response job leased invariant running allowed executed
  obtain ⟨kept, others, started, still⟩ := keeps_quiet rfl
    (fun _ _ settles (leased : Leased caller (pointer :: held) _) => leased.settle settles)
    threads provider input after response job leased invariant running allowed executed
  refine ⟨kept, others, started, fun _ => still, still.tail ?_⟩
  intro details found
  obtain ⟨known, position, name⟩ := leased.known pointer (by simp)
  by_cases listed : known.listed = true
  · have entry : provider.find pointer.name = some pointer.record :=
      name ▸ invariant.2.find position listed
    rcases execute_remove executed with ⟨absent, -⟩ | ⟨record, present, rfl, -⟩
    · rw [entry] at absent
      cases absent
    · rw [entry, some.injEq] at present
      subst present
      obtain ⟨old, -, ⟨-, rfl⟩ | ⟨other, -⟩⟩ := Provider.modify_eq_some found
      · exact .inr (.inl rfl)
      · exact absurd rfl other
  · have settles : OnlySettles caller provider after := execute_quiet rfl executed
    obtain ⟨old, again, follows⟩ := settles.old _ details found
    rw [position, some.injEq] at again
    subst again
    exact follows.settled (.inr (.inr (by simpa using listed)))

end Commands

section Programs

theorem lease_rules (caller : Nat) :
    Rules (settling caller) caller (Leased caller)
      (fun pointer held provider => Leased caller held provider ∧
        Untaken caller pointer provider) where
  observe observes := triple_quiet (Command.quiet_of_observes observes)
  machineDetails name acquire _ := triple_machineDetails_leased name acquire
  newMachine state _ := triple_newMachine_leased state
  writeCreating := triple_write_creating
  resetCounts := .call (Leased.stable_untaken _ _) (keeps_quiet rfl
    fun _ _ settles made => ⟨made.1.settle settles, made.2.settle settles⟩)
  startCreation := .weaken (triple_quiet rfl) fun _ made => made.1
  keep := by
    rintro pointer held provider ⟨leased, details, found, name, -⟩
    exact leased.cons found name
  addRetry _ := triple_quiet rfl
  addUse _ := triple_quiet rfl
  write _ := triple_write_leased
  writeIdle := triple_write_idle_leased
  remove reason _ := triple_remove_leased reason
  removeIdle _ := triple_quiet rfl

variable (config : RunnerConfig)

theorem prepare_leased (executorData : Option Pointer)
    (known : ∀ pointer ∈ executorData, pointer ∈ held) :
    (settling caller).Triple caller (Leased caller held) (prepare config executorData)
      fun result => Leased caller (result.1.data.toList ++ held) := by
  refine .bind ((lease_rules caller).use config executorData known) fun result => ?_
  cases result with
  | none => exact fun _ leased => leased
  | some newData =>
    refine .bind (triple_quiet rfl) fun created => ?_
    split
    · exact .bind (triple_quiet rfl) fun _ _ leased => leased
    · exact fun _ leased => leased

theorem cleanup_leased (executor : MachineExecutor) :
    (settling caller).Triple caller (Leased caller (executor.data.toList ++ held))
      (cleanup config executor) fun _ => Leased caller held := by
  unfold cleanup
  split
  · exact .bind (triple_quiet rfl) fun _ => (lease_rules caller).release config executor.data
  · exact (lease_rules caller).release config executor.data

/-- Every failed try of `retryCreateExecutor` gives its machine back. -/
theorem retryCreateExecutor_leased (executorData : Option Pointer)
    (tries : Nat) (known : ∀ pointer ∈ executorData, pointer ∈ held) :
    (settling caller).Triple caller (Leased caller held)
      (retryCreateExecutor config executorData tries)
      fun executor => Leased caller ((executor.bind MachineExecutor.data).toList ++ held) := by
  induction tries with
  | zero => exact fun _ leased => leased
  | succ tries ih =>
    refine .bind (prepare_leased config executorData known) ?_
    rintro ⟨executor, prepared⟩
    cases prepared with
    | true => exact fun _ leased => leased
    | false =>
      refine .bind (cleanup_leased config executor) fun _ => ?_
      refine .bind (triple_quiet rfl) fun buildError => ?_
      split
      · exact fun _ leased => leased
      · refine .bind (triple_quiet rfl) fun contextEnded => ?_
        split
        · exact fun _ leased => leased
        · exact ih

theorem runBuild_leased (executorData : Option Pointer)
    (known : ∀ pointer ∈ executorData, pointer ∈ held) :
    (settling caller).Triple caller (Leased caller held) (runBuild config executorData)
      fun _ => Leased caller held := by
  refine .bind (retryCreateExecutor_leased config executorData preparationRetries known)
    fun executor => ?_
  cases executor with
  | none => exact fun _ leased => leased
  | some executor =>
    refine .bind (triple_quiet rfl) fun succeeded => ?_
    exact .bind (cleanup_leased config executor) fun _ _ leased => leased

end Programs

theorem machineRuntime_keeps (config : RunnerConfig) :
    (machineRuntime config).Keeps (settling caller) caller (Leased caller []) (Leased caller [])
      (fun executorData => Leased caller executorData.toList)
      (fun executorData => Leased caller executorData.toList)
      (fun executorData => Leased caller executorData.toList) where
  acquire provider leased := by
    refine ((lease_rules caller).lending.acquire config provider leased).mono ?_
    intro result later leased
    cases result with
    | none => exact leased
    | some executorData =>
      rw [append_nil] at leased
      exact leased
  release executorData provider leased :=
    (lease_rules caller).release config executorData _ ((append_nil _).symm ▸ leased)
  acquireBuild executorData provider leased := by
    refine (triple_quiet rfl provider leased).mono ?_
    intro started later leased
    split <;> exact leased
  releaseBuild _ _ leased := leased
  createSession _ := triple_quiet rfl
  acquireRequest executorData provider leased := by
    refine (triple_quiet rfl provider leased).mono ?_
    intro requesting later leased
    split <;> exact leased
  requestJob _ := triple_quiet rfl
  releaseRequest _ _ leased := leased
  newBuild _ := triple_quiet rfl
  run executorData := runBuild_leased config executorData (by simp)

/-- What a thread reaches: the caller holds no machine any more. -/
def Returned (caller self : Nat) (provider : Provider) : Prop :=
  self = caller → Leased caller [] provider

theorem Returned.stable (self : Nat) : (settling caller).Stable self (Returned caller self) :=
  fun _ _ others returned same => (returned same).settle (others same)

theorem background_safe {program : Program Command Unit} (quiet : program.Every Command.quiet)
    (other : self ≠ caller) :
    (settling caller).Safe self (fun _ => Returned caller self) program provider := by
  refine Discipline.Safe.of_every quiet (Returned.stable self) ?_ fun same => absurd same other
  intro β command isQuiet
  exact keeps_quiet isQuiet fun _ _ settles returned same => (returned same).settle settles

theorem body_quiet (job : Job) : (body job).Every Command.quiet := by
  refine (body_modest job).mono ?_
  intro β command modest
  cases command <;> first | rfl | exact modest

theorem startProcess_safe {config : RunnerConfig} {background : List (Program Command Unit)}
    (unique : provider.Unique) (untaken : ∀ details ∈ provider.machines, 0 ∉ details.takers)
    (quiet : ∀ program ∈ background, program.Every Command.quiet) :
    (startProcess config provider background).Safe (settling 0) (Returned 0) := by
  have leased : Leased 0 [] provider := by
    refine ⟨?_, by simp⟩
    intro index details found taken
    exact absurd taken (untaken details (mem_of_getElem? found))
  refine ⟨⟨by simp [startProcess], unique⟩, ?_⟩
  intro index program position
  cases index with
  | zero =>
    cases position
    refine ((machineRuntime_keeps config).processRunner _ leased).bind ?_
    intro _ provider leased _
    exact leased
  | succ index => exact background_safe (quiet program (mem_of_getElem? position)) (by simp)

/-- After a `processRunner` call has returned, every machine that was taken for it
is idle, is being removed or is not in the map any more, in every run next to
any goroutines that create and remove machines. -/
theorem machines_given_back {config : RunnerConfig} {provider : Provider}
    {background : List (Program Command Unit)} {actions : List (Nat × Input)}
    {pool : Pool Provider Command} (unique : provider.Unique)
    (untaken : ∀ details ∈ provider.machines, 0 ∉ details.takers)
    (quiet : ∀ program ∈ background, program.Every Command.quiet)
    (reached : run (Pool.step semantics)
      (startProcess config provider background) actions = some pool)
    (returned : pool.threads[0]?.any Program.isDone = true) :
    ∀ details ∈ pool.state.machines, 0 ∈ details.takers →
      details.state = .idle ∨ details.state = .removing ∨ details.listed = false := by
  intro details member taken
  have safe : pool.Safe (settling 0) (Returned 0) := by
    refine (startProcess_safe unique untaken quiet).run Returned.stable ?_
      (meetsAlong_of_forall ?_ _) reached
    · intro job index state other
      exact background_safe (body_quiet job) other
    · intro action _ pool
      unfold Pool.meets
      split <;> rfl
  obtain ⟨index, found⟩ := mem_iff_getElem?.mp member
  rcases (safe.reaches returned rfl).settled index details found taken with settled | held
  · exact settled
  · simp at held

def onDemandConfig : RunnerConfig where
  limit := 0
  machineName := "machine-%s"
  maxBuilds := 0
  idleCount := 0
  offPeakIdleCount := 0
  matchesFilter _ := true

/-- `Acquire` takes machine `a`; `Use` cannot connect to it and creates machine `b`;
the first preparation fails, the second one uses `a`. -/
def secondTryActions : List (Nat × Input) :=
  [.nothing, .names (some ["a"]), .nothing, .nothing, .answer false, .nothing, .nothing,
    .answer true, .nothing, .answer true, .answer true, .answer true, .answer true,
    .answer true, .nothing, .answer false, .names (some ["a"]), .nothing, .name "b",
    .nothing, .nothing, .answer true, .nothing, .answer true, .nothing, .nothing,
    .answer true, .answer false, .answer true, .nothing, .answer false, .answer false,
    .nothing, .answer true, .answer true, .nothing, .nothing, .answer true, .answer true,
    .answer true, .answer true, .nothing].map (0, ·)

theorem machines_given_back_secondTry :
    ∃ pool, run (Pool.step semantics)
        (startProcess onDemandConfig Provider.start []) secondTryActions = some pool ∧
      pool.state.machines.map takers = [[0, 0], [0, 0]] ∧
      ∀ details ∈ pool.state.machines, 0 ∈ details.takers →
        details.state = .idle ∨ details.state = .removing ∨ details.listed = false := by
  have takers : (run (Pool.step semantics)
      (startProcess onDemandConfig Provider.start []) secondTryActions).map
        (fun pool => (pool.state.machines.map takers,
          pool.threads[0]?.any Program.isDone)) = some ([[0, 0], [0, 0]], true) := by decide
  obtain ⟨pool, reached, same⟩ := map_eq_some_iff.mp takers
  obtain ⟨taken, returned⟩ := Prod.mk.inj same
  refine ⟨pool, reached, taken, machines_given_back ?_ ?_ ?_ reached returned⟩
  · intro first second left right found
    cases found
  · simp [Provider.start]
  · simp

end GitlabRunner.Machine
