import GitlabRunner.DockerContainers

/-!
# The clean-up of the docker executor

`Cleanup` starts a goroutine for each container of `temporary`, and the volumes manager one
for each container of its two lists.  It waits for all of them.
-/

namespace GitlabRunner.Docker

open ByteText Concurrent List ActionRuns Option
open Concurrent.Program (call)

section Cleanup

variable {self : Nat} {group : Group} {remaining ids : List Id} {id : Id}
  {executor before after : Executor}

/-- A container that is to be removed by a goroutine of a group.  The goroutines for the
remaining containers are still to be started. -/
def Pending (group : Group) (remaining : List Id) (executor : Executor) (id : Id) : Prop :=
  id ∈ remaining ∨ Removed executor.log id ∨ ∃ thread, ⟨group, thread, id⟩ ∈ executor.running

theorem Pending.later (pending : Pending group remaining before id)
    (removes : group ≠ .services) (others : Rely self before after) :
    Pending group remaining after id := by
  rcases pending with isRemaining | removed | ⟨thread, isRunning⟩
  · exact .inl isRemaining
  · exact .inr (.inl (others.log removed))
  · rcases others.running _ isRunning with still | isService | removed
    · exact .inr (.inr ⟨thread, still⟩)
    · exact (removes isService).elim
    · exact .inr (.inl removed)

theorem Pending.start {first : Id} (pending : Pending group (first :: remaining) executor id)
    (thread : Nat) :
    Pending group remaining
      { executor with running := executor.running ++ [⟨group, thread, first⟩] } id := by
  rcases pending with isRemaining | removed | ⟨other, isRunning⟩
  · rcases mem_cons.mp isRemaining with isFirst | later
    · rw [isFirst]
      exact .inr (.inr ⟨thread, mem_append_right _ mem_cons_self⟩)
    · exact .inl later
  · exact .inr (.inl removed)
  · exact .inr (.inr ⟨other, mem_append_left _ isRunning⟩)

theorem Pending.removed (pending : Pending group [] executor id)
    (finished : ∀ member ∈ executor.running, member.group ≠ group) : Removed executor.log id := by
  rcases pending with isRemaining | removed | ⟨thread, isRunning⟩
  · cases isRemaining
  · exact removed
  · exact (finished _ isRunning rfl).elim

/-- Where the main goroutine is in `Cleanup`. -/
structure Closing (remaining : List Id) (executor : Executor) : Prop where
  holding : ∀ id, (0, id) ∉ executor.holding
  calm : Calm executor
  pending : ∀ id ∈ executor.temporary, Pending .temporary remaining executor id

theorem stable_closing : custody.Stable 0 (Closing remaining) := by
  intro before after others closing
  have untouched := others.main rfl
  refine ⟨fun id held => closing.holding id (others.holding id held),
    untouched.calm_after closing.calm, ?_⟩
  intro id member
  rw [untouched.temporary] at member
  exact (closing.pending id member).later nofun others

theorem readTemporary_safe :
    custody.Triple 0 (Ready false []) (call (.read .temporary)) Closing := by
  refine .call stable_ready (keeps_quiet rfl ?_)
  intro threads input before after response job holds _ executed _
  cases input <;> cases executed
  exact ⟨fun id held => not_mem_nil (holds.holding id held), holds.calm, fun id => .inl⟩

theorem goTemporary_safe :
    custody.Triple 0 (Closing (id :: remaining)) (call (.go .temporary id))
      fun _ => Closing remaining := by
  refine .call stable_closing (keeps_go (.inl rfl) ?_)
  intro threads before closing
  refine ⟨closing.holding, ?_, fun id member => (closing.pending id member).start threads⟩
  intro member isRunning
  rcases mem_append.mp isRunning with earlier | last
  · exact closing.calm member earlier
  · rw [mem_singleton.mp last]
    exact nofun

def VolumesRemoved (executor : Executor) : Prop :=
  ∀ id, id ∈ executor.failedContainerIDs ∨ id ∈ executor.tmpContainerIDs →
    Removed executor.log id

theorem stable_volumesRemoved : custody.Stable 0 VolumesRemoved := by
  intro before after others removed id member
  rw [(others.main rfl).failed, (others.main rfl).tmp] at member
  exact others.log (removed id member)

theorem hasVolumes_safe :
    custody.Triple 0 (Closing []) (call .hasVolumesManager) fun present after =>
      Closing [] after ∧ (present = false → VolumesRemoved after) := by
  refine .call stable_closing (keeps_quiet rfl ?_)
  intro threads input before after response job closing sound executed _
  cases input <;> cases executed
  refine ⟨closing, ?_⟩
  intro missing id member
  obtain ⟨noFailed, noTmp⟩ := sound.manager missing
  rw [noFailed, noTmp] at member
  exact (member.elim not_mem_nil not_mem_nil).elim

theorem stable_failed {failed : List Id} :
    custody.Stable 0 fun executor => executor.failedContainerIDs = failed :=
  fun _ _ others same => (others.main rfl).failed.trans same

theorem stable_tmp {tmp : List Id} :
    custody.Stable 0 fun executor => executor.tmpContainerIDs = tmp :=
  fun _ _ others same => (others.main rfl).tmp.trans same

theorem readFailed_safe :
    custody.Triple 0 (Closing []) (call (.read .failedContainerIDs)) fun failed after =>
      Closing [] after ∧ after.failedContainerIDs = failed := by
  refine .call stable_closing (keeps_quiet rfl ?_)
  intro threads input before after response job closing _ executed _
  cases input <;> cases executed
  exact ⟨closing, rfl⟩

theorem readTmp_safe {failed : List Id} :
    custody.Triple 0 (fun before => Closing [] before ∧ before.failedContainerIDs = failed)
      (call (.read .tmpContainerIDs)) fun tmp after =>
      Closing [] after ∧ after.failedContainerIDs = failed ∧ after.tmpContainerIDs = tmp := by
  refine .call (stable_closing.and stable_failed) (keeps_quiet rfl ?_)
  rintro threads input before after response job ⟨closing, sameFailed⟩ _ executed _
  cases input <;> cases executed
  exact ⟨closing, sameFailed, rfl⟩

theorem goCleanup_safe {failed tmp : List Id} :
    custody.Triple 0 (fun before => Closing [] before ∧ before.failedContainerIDs = failed ∧
      before.tmpContainerIDs = tmp) (call (.goCleanup (failed ++ tmp))) fun _ => Closing [] := by
  refine .call (stable_closing.and (stable_failed.and stable_tmp)) ?_
  rintro threads before input after response job ⟨closing, rfl, rfl⟩ sound inPool _ executed
  cases input <;> cases executed
  refine ⟨⟨sound.owed, ?_, sound.manager, sound.cleaned⟩, ?_, ?_,
    ⟨closing.holding, closing.calm, closing.pending⟩⟩
  · exact (sound.mono (Nat.le_add_right _ _)).holders
  · intro other _ isOther
    exact ⟨fun _ held => held, fun _ event => event, fun _ => .inl,
      fun _ member _ => member, fun _ => ⟨rfl, rfl, rfl⟩,
      fun isMain => (isOther isMain).elim⟩
  · intro started isJob
    cases isJob
    exact ⟨Nat.ne_of_gt inPool, rfl, fun id member => mem_append.mpr member⟩

theorem receiveDone_safe :
    custody.Triple 0 (Closing []) (call .receiveDone) fun _ after =>
      Closing [] after ∧ VolumesRemoved after := by
  refine .call stable_closing (keeps_quiet rfl ?_)
  intro threads input before after response job closing sound executed _
  cases input with
  | nothing =>
    obtain ⟨cleaned, same⟩ := ite_none_right_eq_some.mp executed
    cases same
    exact ⟨closing, sound.cleaned cleaned⟩
  | _ => cases executed

theorem cleanupVolumes_safe :
    custody.Triple 0 (Closing []) cleanupVolumes fun _ after =>
      Closing [] after ∧ VolumesRemoved after := by
  refine .bind hasVolumes_safe fun present => ?_
  cases present with
  | false => exact fun _ ⟨closing, missing⟩ => ⟨closing, missing rfl⟩
  | true =>
    refine .weaken (.bind readFailed_safe fun failed => ?_) fun _ => And.left
    refine .bind readTmp_safe fun tmp => ?_
    exact .bind goCleanup_safe fun _ => receiveDone_safe

def AllRemoved (executor : Executor) : Prop :=
  ∀ id, Owed executor.log id → Removed executor.log id

/-- The containers are removed, and no health check can create another one. -/
def Closed (executor : Executor) : Prop :=
  Calm executor ∧ AllRemoved executor

theorem stable_closed : custody.Stable 0 Closed := by
  rintro before after others ⟨calm, removed⟩
  have untouched := others.main rfl
  refine ⟨untouched.calm_after calm, ?_⟩
  intro id owed
  exact others.log (removed id (untouched.calm calm id owed))

theorem allRemoved_of_closing {threads : Nat} (sound : Sound threads executor)
    (closing : Closing [] executor) (volumes : VolumesRemoved executor)
    (finished : ∀ member ∈ executor.running, member.group ≠ .temporary) : AllRemoved executor := by
  intro id owed
  rcases sound.owed id owed with inTemporary | inFailed | inTmp | removed | ⟨thread, held⟩
  · exact (closing.pending id inTemporary).removed finished
  · exact volumes id (.inl inFailed)
  · exact volumes id (.inr inTmp)
  · exact removed
  · rcases (sound.holders thread id held).2 with isMain | ⟨service, isRunning⟩
    · rw [isMain] at held
      exact (closing.holding id held).elim
    · exact (closing.calm _ isRunning rfl).elim

theorem waitTemporary_safe :
    custody.Triple 0 (fun before => Closing [] before ∧ VolumesRemoved before)
      (call (.wait .temporary)) fun _ => Closed := by
  refine .call (stable_closing.and stable_volumesRemoved) (keeps_quiet rfl ?_)
  rintro threads input before after response job ⟨closing, volumes⟩ sound executed _
  cases input with
  | nothing =>
    obtain ⟨finished, same⟩ := ite_none_right_eq_some.mp executed
    cases same
    exact ⟨closing.calm, allRemoved_of_closing sound closing volumes finished⟩
  | _ => cases executed

theorem cleanup_safe : custody.Triple 0 (Ready false []) cleanup fun _ => Closed := by
  refine .bind (Steady.call rfl) fun _ => .bind readTemporary_safe fun temporary => ?_
  refine .bind (goEach_safe fun _ _ => goTemporary_safe) fun _ => ?_
  exact .bind cleanupVolumes_safe fun _ => waitTemporary_safe

theorem lifetime_safe {config : Config} {kind : Kind} :
    custody.Triple 0 (Ready false []) (lifetime config kind) fun _ => Closed :=
  .bind prepareAndRun_steady fun _ => cleanup_safe

end Cleanup

section Goroutines

variable {self : Nat} {held remaining : List Id} {id service : Id} {executor : Executor}

/-- Where the goroutine of a health check is: the main goroutine waits for it, and it holds
only the given containers. -/
structure Checking (thread : Nat) (service : Id) (held : List Id) (executor : Executor) :
    Prop where
  running : ⟨.services, thread, service⟩ ∈ executor.running
  holding : ∀ id, (thread, id) ∈ executor.holding → id ∈ held

theorem stable_checking : custody.Stable self (Checking self service held) :=
  fun _ _ others checking => ⟨others.own _ checking.running rfl,
    fun id isHeld => checking.holding id (others.holding id isHeld)⟩

theorem checking_quiet {α : Type} {program : Program Command α}
    (every : program.Every Command.quiet) :
    custody.Triple self (Checking self service held) program fun _ => Checking self service held :=
  fun _ checking => safe_of_quiet every stable_checking checking

theorem createHealthCheck_safe :
    custody.Triple self (Checking self service []) (call (.containerCreate .healthCheck))
      fun response => Checking self service (if response.2 then [] else [response.1]) := by
  refine .call stable_checking ?_
  intro threads before input after response job checking sound inPool isOrderly executed
  cases input with
  | created id failed =>
    cases executed
    refine ⟨sound.answer inPool (.inr ⟨service, checking.running⟩), ?_, nofun, checking.running, ?_⟩
    · intro other _ isOther
      exact rely_answer isOther fun _ calm => calm _ checking.running rfl
    · intro heldId isHeld
      rcases mem_append.mp isHeld with earlier | last
      · exact (not_mem_nil (checking.holding heldId earlier)).elim
      · obtain ⟨owed, isOwed, same⟩ := mem_map.mp last
        cases same
        cases failed with
        | false => exact owes_created_subset isOwed
        | true =>
          rw [orderly_created isOrderly (.inr rfl)] at isOwed
          cases isOwed
  | _ => cases executed

theorem checkHealth_quiet (id : Id) : (checkHealth id).Every Command.quiet := by
  refine .after rfl ?_
  intro failed
  split
  · exact .pure _
  · exact .after rfl fun _ => .pure _

theorem removeHealthCheck_safe {ctx : Ctx} :
    custody.Triple self (Checking self service [id]) (removeContainer ctx (.container id))
      fun _ => Checking self service [] := by
  refine .bind (checking_quiet (.call rfl)) fun _ => .call stable_checking (keeps_remove ?_)
  intro before checking
  refine ⟨checking.running, ?_⟩
  intro heldId isHeld
  obtain ⟨logged, different⟩ := mem_release.mp isHeld
  rcases mem_append.mp logged with earlier | last
  · rw [mem_singleton.mp (checking.holding heldId earlier)] at different
    exact (different rfl).elim
  · cases last

theorem runServiceHealthCheckContainer_safe :
    custody.Triple self (Checking self service []) runServiceHealthCheckContainer
      fun _ => Checking self service [] := by
  refine .bind (checking_quiet (.call rfl)) fun failed => ?_
  split
  · exact fun _ checking => checking
  · refine .bind createHealthCheck_safe ?_
    rintro ⟨id, failed⟩
    cases failed with
    | true => exact fun _ checking => checking
    | false => exact .bind (checking_quiet (checkHealth_quiet id)) fun _ => removeHealthCheck_safe

theorem doneService_safe :
    custody.Triple self (Checking self service []) (call (.done .services service))
      fun _ _ => True := by
  refine .call stable_checking (keeps_done ?_ (fun _ _ => .inl rfl) (fun _ _ => trivial))
  intro before checking _ heldId isHeld
  exact not_mem_nil (checking.holding heldId isHeld)

theorem waitForServiceContainer_safe :
    custody.Triple self (Checking self service []) (waitForServiceContainer service)
      fun _ _ => True :=
  .bind runServiceHealthCheckContainer_safe fun _ =>
    .bind (checking_quiet (.call rfl)) fun _ => doneService_safe

theorem stable_true : custody.Stable self fun _ => True :=
  fun _ _ _ _ => trivial

theorem stable_removed : custody.Stable self fun executor => Removed executor.log id :=
  fun _ _ others removed => others.log removed

theorem remove_safe {group : Group} (removes : group ≠ .services) :
    custody.Triple self (fun _ => True) (body (.remove group id)) fun _ _ => True := by
  have requested : custody.Triple self (fun _ => True) (removeContainer .cleanup (.container id))
      fun _ executor => Removed executor.log id := by
    refine .bind (fun _ => safe_of_quiet (.call rfl) stable_true) fun _ => ?_
    refine .call stable_true (keeps_remove ?_)
    exact fun _ _ => mem_append_right _ mem_cons_self
  refine .bind requested fun _ => .call stable_removed ?_
  exact keeps_done (fun _ _ isServices => (removes isServices).elim)
    (fun _ removed => .inr removed) (fun _ _ => trivial)

structure Draining (remaining : List Id) (executor : Executor) : Prop where
  cleaning : executor.cleaning = true
  pending : ∀ id, id ∈ executor.failedContainerIDs ∨ id ∈ executor.tmpContainerIDs →
    Pending .caches remaining executor id

theorem stable_draining : custody.Stable self (Draining remaining) := by
  intro before after others draining
  obtain ⟨cleaning, sameFailed, sameTmp⟩ := others.frozen draining.cleaning
  refine ⟨cleaning, ?_⟩
  intro id member
  rw [sameFailed, sameTmp] at member
  exact (draining.pending id member).later nofun others

theorem goCache_safe :
    custody.Triple self (Draining (id :: remaining)) (call (.go .caches id))
      fun _ => Draining remaining := by
  refine .call stable_draining (keeps_go (.inr rfl) ?_)
  intro threads before draining
  exact ⟨draining.cleaning, fun id member => (draining.pending id member).start threads⟩

theorem stable_drained :
    custody.Stable self fun executor => executor.cleaning = true ∧ VolumesRemoved executor := by
  rintro before after others ⟨cleaning, removed⟩
  obtain ⟨stillCleaning, sameFailed, sameTmp⟩ := others.frozen cleaning
  refine ⟨stillCleaning, ?_⟩
  intro id member
  rw [sameFailed, sameTmp] at member
  exact others.log (removed id member)

theorem waitCaches_safe :
    custody.Triple self (Draining []) (call (.wait .caches)) fun _ executor =>
      executor.cleaning = true ∧ VolumesRemoved executor := by
  refine .call stable_draining (keeps_quiet rfl ?_)
  intro threads input before after response job draining _ executed _
  cases input with
  | nothing =>
    obtain ⟨finished, same⟩ := ite_none_right_eq_some.mp executed
    cases same
    exact ⟨draining.cleaning, fun id member => (draining.pending id member).removed finished⟩
  | _ => cases executed

theorem sendDone_safe :
    custody.Triple self (fun executor => executor.cleaning = true ∧ VolumesRemoved executor)
      (call .sendDone) fun _ _ => True := by
  refine .call stable_drained ?_
  rintro threads before input after response job ⟨cleaning, volumes⟩ sound _ _ executed
  cases input <;> cases executed
  refine ⟨⟨sound.owed, sound.holders, sound.manager, fun _ => volumes⟩, ?_, nofun, trivial⟩
  intro other _ _
  exact ⟨fun _ isHeld => isHeld, fun _ event => event, fun _ => .inl,
    fun _ member _ => member, fun isCleaning => ⟨isCleaning, rfl, rfl⟩,
    fun _ => ⟨rfl, rfl, rfl, rfl, rfl, fun _ => .inl, fun _ => .inr cleaning, fun _ _ owed => owed⟩⟩

theorem cleanupBody_safe :
    custody.Triple self (Draining ids) (body (.cleanup ids)) fun _ _ => True :=
  .bind (goEach_safe fun _ _ => goCache_safe) fun _ => .bind waitCaches_safe fun _ => sendDone_safe

theorem body_safe {job : Job} (finds : Finds job self executor) :
    custody.Safe self (fun _ _ => True) (body job) executor := by
  cases job with
  | healthCheck service =>
    obtain ⟨isRunning, holdsNothing⟩ := finds
    exact waitForServiceContainer_safe executor
      ⟨isRunning, fun id isHeld => (holdsNothing id isHeld).elim⟩
  | remove group id => exact remove_safe finds executor trivial
  | cleanup ids =>
    obtain ⟨cleaning, listed⟩ := finds
    exact cleanupBody_safe executor ⟨cleaning, fun id member => .inl (listed id member)⟩
  | deadline => exact safe_of_quiet (Program.Every.call rfl) stable_true trivial

end Goroutines

/-- What the goroutines reach: the main one has removed everything. -/
def goal (self : Nat) (executor : Executor) : Prop :=
  self = 0 → Closed executor

theorem stable_goal (self : Nat) : custody.Stable self (goal self) := by
  intro before after others reached isMain
  subst isMain
  exact stable_closed before after others (reached rfl)

theorem start_safe (config : Config) (kind : Kind) : (start config kind).Safe custody goal := by
  have nothingOwed : ∀ id, ¬ Owed created.log id := fun id ⟨_, member, _⟩ => nomatch member
  constructor
  · exact ⟨fun id owed => (nothingOwed id owed).elim, nofun, fun _ => ⟨rfl, rfl⟩, nofun⟩
  · intro index program found
    match index, found with
    | 0, found =>
      cases found
      have ready : Ready false [] created :=
        ⟨⟨fun _ isHeld => (nomatch isHeld), rfl, rfl, nofun⟩, nofun⟩
      exact (lifetime_safe created ready).mono fun _ _ closed _ => closed
    | 1, found =>
      cases found
      refine (safe_of_quiet (Program.Every.call rfl) stable_true trivial).mono ?_
      exact fun _ _ _ isMain => nomatch isMain

/-- In every run whose steps are orderly, whatever the Docker API answers, whenever the build
is cancelled and however the goroutines are scheduled: when `Cleanup` has returned, every
container that has to be removed was removed with a context that was not cancelled. -/
theorem containers_removed {config : Config} {kind : Kind} {actions : List (Nat × Input)}
    {pool : Pool Executor Command} (meets : MeetsAlong (Pool.step semantics)
      (fun pool action => pool.meets orderly action = true) (start config kind) actions)
    (reached : run (Pool.step semantics) (start config kind) actions = some pool)
    (returned : pool.threads[0]?.any Program.isDone = true) :
    AllRemoved pool.state := by
  have safe : pool.Safe custody goal := by
    refine (start_safe config kind).run stable_goal ?_ meets reached
    rintro job index executor ⟨notMain, finds⟩
    exact (body_safe finds).mono fun _ _ _ isMain => (notMain isMain).elim
  exact (safe.reaches returned rfl).2

def serviceConfig : Config where
  volumes := []
  parseVolume := fun _ => none
  cacheDir := []
  baseContainerPath := ascii "/"
  disableCache := false
  jobsDir := ascii "/builds"
  gitFetch := false
  servicesDefinitions := [⟨ascii "db", [ascii "db"], []⟩]
  waitForServicesTimeout := 0
  legacyVolumesMountingOrder := false

def steps (thread : Nat) (inputs : List Input) : List (Nat × Input) :=
  inputs.map fun input => (thread, input)

def volumePrepared : List (Nat × Input) :=
  steps 0 [.failed false, .failed false, .failed false, .nothing, .nothing, .nothing, .nothing,
    .found .nothing, .created (ascii "v") false, .failed false, .failed false, .nothing, .nothing,
    .failed false, .nothing, .failed false, .failed false, .nothing]

def serviceStarted : List (Nat × Input) :=
  steps 0 [.created (ascii "s") false, .failed false, .nothing, .nothing, .nothing, .nothing]

def healthChecked : List (Nat × Input) :=
  steps 2 [.failed false, .created (ascii "h") false, .failed false, .failed false, .failed false]

def servicesReady : List (Nat × Input) :=
  steps 2 [.nothing, .failed false, .nothing] ++ steps 0 [.nothing, .failed false]

def scriptsRun : List (Nat × Input) :=
  steps 0 [.failed false, .failed false, .failed false, .nothing, .failed false, .failed false,
    .failed false, .nothing, .created (ascii "p") false, .failed false, .nothing, .nothing,
    .failed false, .nothing, .failed false, .failed false, .failed false, .nothing,
    .created (ascii "b") true, .nothing]

def removal (thread : Nat) : List (Nat × Input) :=
  steps thread [.failed false, .nothing, .nothing]

def cleanedUp (first containers : Nat) : List (Nat × Input) :=
  steps 0 (List.replicate (2 + containers + 4) .nothing) ++
    (List.range containers).flatMap (fun index => removal (first + 1 + index)) ++
    steps (first + 1 + containers) [.nothing] ++ removal (first + 2 + containers) ++
    steps (first + 1 + containers) [.nothing, .nothing] ++ steps 0 [.nothing, .nothing]

def cancelledBuild : List (Nat × Input) :=
  volumePrepared ++ serviceStarted ++ healthChecked ++ servicesReady ++ steps 1 [.nothing] ++
    scriptsRun ++ cleanedUp 3 3

theorem containers_removed_cancelled :
    ∃ pool, run (Pool.step semantics)
        (start serviceConfig (.command [true, false])) cancelledBuild = some pool ∧
      pool.state.log.length = 17 ∧ AllRemoved pool.state := by
  have meets : MeetsAlong (Pool.step semantics)
      (fun pool action => pool.meets orderly action = true)
      (start serviceConfig (.command [true, false])) cancelledBuild := by decide +kernel
  obtain ⟨pool, reached, fields⟩ := map_eq_some_iff.mp (by decide +kernel :
    (run (Pool.step semantics) (start serviceConfig (.command [true, false]))
      cancelledBuild).map
        (fun pool => (pool.state.log.length, pool.threads[0]?.any Program.isDone)) =
      some (17, true))
  injection fields with answers returned
  exact ⟨pool, reached, answers, containers_removed meets reached returned⟩

/-- The create request for the service returns the id `s` beside an error. -/
def serviceFailed : List (Nat × Input) :=
  volumePrepared ++ steps 0 [.created (ascii "s") true] ++ cleanedUp 2 0

/-- The build is cancelled during the health check, so that the deferred removal is requested
with a cancelled context and the rest of `Prepare` fails. -/
def cancelledCheck : List (Nat × Input) :=
  volumePrepared ++ serviceStarted ++ healthChecked ++ steps 1 [.nothing] ++ servicesReady ++
    steps 0 [.failed true] ++ cleanedUp 3 1

/-- `Cleanup` leaves the container of a service whose id came beside an error, and the one of
a health check whose build was cancelled. -/
theorem containers_left :
    (∃ pool, run (Pool.step semantics) (start serviceConfig (.command []))
        serviceFailed = some pool ∧ pool.threads[0]?.any Program.isDone = true ∧
      Owed pool.state.log (ascii "s") ∧ ¬ Removed pool.state.log (ascii "s")) ∧
    ∃ pool, run (Pool.step semantics) (start serviceConfig (.command []))
        cancelledCheck = some pool ∧ pool.threads[0]?.any Program.isDone = true ∧
      Owed pool.state.log (ascii "h") ∧ ¬ Removed pool.state.log (ascii "h") := by
  constructor
  · obtain ⟨pool, reached, fields⟩ := map_eq_some_iff.mp (by decide +kernel :
      (run (Pool.step semantics) (start serviceConfig (.command []))
        serviceFailed).map (fun pool => (pool.threads[0]?.any Program.isDone,
          decide (Owed pool.state.log (ascii "s")),
          decide (¬ Removed pool.state.log (ascii "s")))) = some (true, true, true))
    injection fields with returned rest
    injection rest with owed left
    exact ⟨pool, reached, returned, of_decide_eq_true owed, of_decide_eq_true left⟩
  · obtain ⟨pool, reached, fields⟩ := map_eq_some_iff.mp (by decide +kernel :
      (run (Pool.step semantics) (start serviceConfig (.command []))
        cancelledCheck).map (fun pool => (pool.threads[0]?.any Program.isDone,
          decide (Owed pool.state.log (ascii "h")),
          decide (¬ Removed pool.state.log (ascii "h")))) = some (true, true, true))
    injection fields with returned rest
    injection rest with owed left
    exact ⟨pool, reached, returned, of_decide_eq_true owed, of_decide_eq_true left⟩

end GitlabRunner.Docker
