import GitlabRunner.DockerExecutor

/-!
# Which containers the docker executor removes

Every container that has to be removed is held by a goroutine from the answer to the create
request until it is in one of the lists that `Cleanup` works off, or until its removal is
requested.
-/

namespace GitlabRunner.Docker

open Concurrent List
open Concurrent.Program (call)

def Owed (log : List Event) (id : Id) : Prop :=
  ∃ event ∈ log, event.owes = some id

def Removed (log : List Event) (id : Id) : Prop :=
  .removed (.container id) true ∈ log

instance (log : List Event) (id : Id) : Decidable (Owed log id) :=
  inferInstanceAs (Decidable (∃ event ∈ log, event.owes = some id))

instance (log : List Event) (id : Id) : Decidable (Removed log id) :=
  inferInstanceAs (Decidable (.removed (.container id) true ∈ log))

def Calm (executor : Executor) : Prop :=
  ∀ member ∈ executor.running, member.group ≠ .services

/-- Every container that has to be removed is in a list, held by a goroutine, or removed.
Apart from the main goroutine only health checks hold containers. -/
structure Sound (threads : Nat) (executor : Executor) : Prop where
  owed : ∀ id, Owed executor.log id → id ∈ executor.temporary ∨
    id ∈ executor.failedContainerIDs ∨ id ∈ executor.tmpContainerIDs ∨
    Removed executor.log id ∨ ∃ thread, (thread, id) ∈ executor.holding
  holders : ∀ thread id, (thread, id) ∈ executor.holding → thread < threads ∧
    (thread = 0 ∨ ∃ service, ⟨.services, thread, service⟩ ∈ executor.running)
  manager : executor.volumesManager = false →
    executor.failedContainerIDs = [] ∧ executor.tmpContainerIDs = []
  cleaned : executor.cleaned = true → ∀ id,
    id ∈ executor.failedContainerIDs ∨ id ∈ executor.tmpContainerIDs →
    Removed executor.log id

/-- What the other goroutines leave to the main one. -/
structure Untouched (before after : Executor) : Prop where
  temporary : after.temporary = before.temporary
  failed : after.failedContainerIDs = before.failedContainerIDs
  tmp : after.tmpContainerIDs = before.tmpContainerIDs
  manager : after.volumesManager = before.volumesManager
  cleaning : after.cleaning = before.cleaning
  running : ∀ member ∈ after.running, member ∈ before.running ∨ member.group = .caches
  cleaned : after.cleaned = true → before.cleaned = true ∨ before.cleaning = true
  calm : Calm before → ∀ id, Owed after.log id → Owed before.log id

/-- What a goroutine expects from the others. -/
structure Rely (thread : Nat) (before after : Executor) : Prop where
  holding : ∀ id, (thread, id) ∈ after.holding → (thread, id) ∈ before.holding
  log : before.log ⊆ after.log
  running : ∀ member ∈ before.running, member ∈ after.running ∨
    member.group = .services ∨ Removed after.log member.id
  own : ∀ member ∈ before.running, member.thread = thread → member ∈ after.running
  frozen : before.cleaning = true → after.cleaning = true ∧
    after.failedContainerIDs = before.failedContainerIDs ∧
    after.tmpContainerIDs = before.tmpContainerIDs
  main : thread = 0 → Untouched before after

theorem Untouched.calm_after {before after : Executor} (untouched : Untouched before after)
    (calm : Calm before) : Calm after := by
  intro member isRunning
  rcases untouched.running member isRunning with earlier | isCache
  · exact calm member earlier
  · rw [isCache]
    decide

theorem Untouched.trans {first second third : Executor} (earlier : Untouched first second)
    (later : Untouched second third) : Untouched first third where
  temporary := later.temporary.trans earlier.temporary
  failed := later.failed.trans earlier.failed
  tmp := later.tmp.trans earlier.tmp
  manager := later.manager.trans earlier.manager
  cleaning := later.cleaning.trans earlier.cleaning
  running := by
    intro member isRunning
    rcases later.running member isRunning with isEarlier | isCache
    · exact earlier.running member isEarlier
    · exact .inr isCache
  cleaned := by
    intro cleaned
    rcases later.cleaned cleaned with isCleaned | isCleaning
    · exact earlier.cleaned isCleaned
    · rw [earlier.cleaning] at isCleaning
      exact .inr isCleaning
  calm := by
    intro calm id owed
    exact earlier.calm calm id (later.calm (earlier.calm_after calm) id owed)

/-- A step that changes nothing that the goroutines agree on, and owes no container. -/
structure Alike (before after : Executor) : Prop where
  temporary : after.temporary = before.temporary
  failed : after.failedContainerIDs = before.failedContainerIDs
  tmp : after.tmpContainerIDs = before.tmpContainerIDs
  manager : after.volumesManager = before.volumesManager
  running : after.running = before.running
  cleaning : after.cleaning = before.cleaning
  cleaned : after.cleaned = before.cleaned
  holding : after.holding = before.holding
  log : before.log ⊆ after.log
  owed : ∀ id, Owed after.log id → Owed before.log id

theorem Alike.refl (executor : Executor) : Alike executor executor :=
  ⟨rfl, rfl, rfl, rfl, rfl, rfl, rfl, rfl, fun _ => id, fun _ => id⟩

theorem Alike.rely {before after : Executor} (alike : Alike before after) (thread : Nat) :
    Rely thread before after := by
  constructor
  · rw [alike.holding]
    exact fun _ => id
  · exact alike.log
  · rw [alike.running]
    exact fun _ => .inl
  · rw [alike.running]
    exact fun _ member _ => member
  · rw [alike.cleaning]
    exact fun cleaning => ⟨cleaning, alike.failed, alike.tmp⟩
  · intro _
    refine ⟨alike.temporary, alike.failed, alike.tmp, alike.manager, alike.cleaning, ?_, ?_,
      fun _ => alike.owed⟩
    · rw [alike.running]
      exact fun _ => .inl
    · rw [alike.cleaned]
      exact .inl

theorem Rely.trans {self : Nat} {first second third : Executor}
    (earlier : Rely self first second) (later : Rely self second third) :
    Rely self first third where
  holding := fun id held => earlier.holding id (later.holding id held)
  log := fun _ member => later.log (earlier.log member)
  running := by
    intro member isRunning
    rcases earlier.running member isRunning with still | isService | removed
    · exact later.running member still
    · exact .inr (.inl isService)
    · exact .inr (.inr (later.log removed))
  own := by
    intro member isRunning isOwn
    exact later.own member (earlier.own member isRunning isOwn) isOwn
  frozen := by
    intro cleaning
    obtain ⟨stillCleaning, sameFailed, sameTmp⟩ := earlier.frozen cleaning
    obtain ⟨lastCleaning, lastFailed, lastTmp⟩ := later.frozen stillCleaning
    exact ⟨lastCleaning, lastFailed.trans sameFailed, lastTmp.trans sameTmp⟩
  main := fun isMain => (earlier.main isMain).trans (later.main isMain)

/-- The condition on a step: a create request for a service or a health check returns no id
beside an error, the build is not cancelled when the container of a health check is removed,
and `Cleanup` requests a removal before its deadline. -/
def orderly (_ : Nat) : {β : Type} → Command β → Input → Executor → Bool
  | _, .containerCreate place, .created id failed, _ =>
    !((place = .service ∨ place = .healthCheck) ∧ failed = true ∧ id ≠ [])
  | _, .containerRemove ctx (.container _), _, executor => executor.live ctx
  | _, _, _, _ => true

def Finds : Job → Nat → Executor → Prop
  | .healthCheck service, self, executor =>
    ⟨.services, self, service⟩ ∈ executor.running ∧ ∀ id, (self, id) ∉ executor.holding
  | .remove group _, _, _ => group ≠ .services
  | .cleanup ids, _, executor => executor.cleaning = true ∧
    ∀ id, id ∈ executor.failedContainerIDs ∨ id ∈ executor.tmpContainerIDs → id ∈ ids
  | .deadline, _, _ => True

def Spawned (job : Job) (self : Nat) (executor : Executor) : Prop :=
  self ≠ 0 ∧ Finds job self executor

def custody : Discipline semantics where
  allowed := orderly
  Invariant := Sound
  Rely := Rely
  Spawned := Spawned
  rely_refl := fun thread executor => (Alike.refl executor).rely thread
  rely_trans := fun _ _ _ _ => Rely.trans

/-- An orderly create request returns no id beside an error, for a service or a health
check. -/
theorem orderly_created {self : Nat} {place : Place} {id : Id} {executor : Executor}
    (isOrderly : custody.allowed self (.containerCreate place) (.created id true) executor = true)
    (dropped : place = .service ∨ place = .healthCheck) : id = [] := by
  have unlike : ¬ ((place = .service ∨ place = .healthCheck) ∧ true = true ∧ id ≠ []) := by
    simpa only [custody, orderly, Bool.not_eq_true', decide_eq_false_iff_not] using isOrderly
  by_contra given
  exact unlike ⟨dropped, rfl, given⟩

variable {post : Unit → Executor → Prop} {α : Type} {program : Program Command α}

section Commands

variable {self threads : Nat} {executor before after : Executor} {id : Id} {event : Event}

theorem Sound.mono {more : Nat} (sound : Sound threads executor) (fewer : threads ≤ more) :
    Sound more executor := by
  refine ⟨sound.owed, ?_, sound.manager, sound.cleaned⟩
  intro thread id held
  obtain ⟨bounded, entitled⟩ := sound.holders thread id held
  exact ⟨Nat.lt_of_lt_of_le bounded fewer, entitled⟩

theorem Owed.of_append {log : List Event} (owed : Owed (log ++ [event]) id) :
    Owed log id ∨ event.owes = some id := by
  obtain ⟨answer, member, owes⟩ := owed
  rcases mem_append.mp member with earlier | last
  · exact .inl ⟨answer, earlier, owes⟩
  · rw [mem_singleton.mp last] at owes
    exact .inr owes

/-- A container is in a list, removed, or held by a goroutine. -/
def Covered (executor : Executor) (id : Id) : Prop :=
  id ∈ executor.temporary ∨ id ∈ executor.failedContainerIDs ∨ id ∈ executor.tmpContainerIDs ∨
    Removed executor.log id ∨ ∃ thread, (thread, id) ∈ executor.holding

theorem Covered.of_removed (removed : Removed executor.log id) : Covered executor id :=
  .inr (.inr (.inr (.inl removed)))

theorem Covered.of_held (held : (self, id) ∈ executor.holding) : Covered executor id :=
  .inr (.inr (.inr (.inr ⟨self, held⟩)))

open Covered

/-- The lists and the log only grow, so only the holders have to be looked at. -/
theorem Covered.grow (covered : Covered before id) (temporary : before.temporary ⊆ after.temporary)
    (failed : before.failedContainerIDs ⊆ after.failedContainerIDs)
    (tmp : before.tmpContainerIDs ⊆ after.tmpContainerIDs) (log : before.log ⊆ after.log)
    (held : ∀ thread, (thread, id) ∈ before.holding → Covered after id) : Covered after id := by
  rcases covered with inTemporary | inFailed | inTmp | removed | ⟨thread, isHeld⟩
  · exact .inl (temporary inTemporary)
  · exact .inr (.inl (failed inFailed))
  · exact .inr (.inr (.inl (tmp inTmp)))
  · exact of_removed (log removed)
  · exact held thread isHeld

theorem Alike.sound (alike : Alike before after) (sound : Sound threads before) :
    Sound threads after := by
  constructor
  · intro id owed
    have covered : Covered before id := sound.owed id (alike.owed id owed)
    refine covered.grow (by simp [alike.temporary]) (by simp [alike.failed])
      (by simp [alike.tmp]) alike.log ?_
    intro thread held
    rw [← alike.holding] at held
    exact of_held held
  · rw [alike.holding, alike.running]
    exact sound.holders
  · rw [alike.manager, alike.failed, alike.tmp]
    exact sound.manager
  · rw [alike.cleaned, alike.failed, alike.tmp]
    intro cleaned id member
    exact alike.log (sound.cleaned cleaned id member)

theorem alike_answer (executor : Executor) (thread : Nat) (quiet : event.owes = none) :
    Alike executor (executor.answer thread event) := by
  refine ⟨rfl, rfl, rfl, rfl, rfl, rfl, rfl, ?_, subset_append_left _ _, ?_⟩
  · change executor.holding ++ event.owes.toList.map _ = executor.holding
    rw [quiet]
    exact append_nil _
  · intro id owed
    rcases Owed.of_append owed with earlier | owes
    · exact earlier
    · rw [quiet] at owes
      cases owes

/-- The goroutine that gets an answer holds the container that it owes. -/
theorem Sound.answer (sound : Sound threads executor) (inPool : self < threads)
    (entitled : self = 0 ∨ ∃ service, ⟨.services, self, service⟩ ∈ executor.running) :
    Sound threads (executor.answer self event) := by
  constructor
  · intro id owed
    rcases Owed.of_append owed with earlier | owes
    · have covered : Covered executor id := sound.owed id earlier
      exact covered.grow (List.Subset.refl _) (List.Subset.refl _) (List.Subset.refl _)
        (subset_append_left _ _)
        fun thread held => of_held (mem_append_left _ held)
    · have last : (self, id) ∈ event.owes.toList.map fun owed => (self, owed) := by
        rw [owes]
        exact mem_cons_self
      exact of_held (mem_append_right _ last)
  · intro thread id held
    rcases mem_append.mp held with earlier | last
    · exact sound.holders thread id earlier
    · obtain ⟨owes, -, same⟩ := mem_map.mp last
      cases same
      exact ⟨inPool, entitled⟩
  · exact sound.manager
  · intro cleaned id member
    exact mem_append_left _ (sound.cleaned cleaned id member)

theorem rely_answer {other : Nat} (isOther : other ≠ self) (busy : other = 0 → ¬ Calm executor) :
    Rely other executor (executor.answer self event) := by
  constructor
  · intro id held
    rcases mem_append.mp held with earlier | last
    · exact earlier
    · obtain ⟨owes, -, same⟩ := mem_map.mp last
      cases same
      exact (isOther rfl).elim
  · exact subset_append_left _ _
  · exact fun _ => .inl
  · exact fun _ member _ => member
  · exact fun cleaning => ⟨cleaning, rfl, rfl⟩
  · intro isMain
    exact ⟨rfl, rfl, rfl, rfl, rfl, fun _ => .inl, .inl, fun calm => (busy isMain calm).elim⟩

theorem mem_release {thread : Nat} {held : Nat × Id} :
    held ∈ (executor.release thread id).holding ↔
      held ∈ executor.holding ∧ held ≠ (thread, id) := by
  simp [Executor.release]

/-- Commands that owe no container and change nothing that the goroutines agree on. -/
def Command.quiet : {β : Type} → Command β → Bool
  | _, .fails _ => true
  | _, .hasVolumesManager => true
  | _, .addManagedVolume _ => true
  | _, .inspectCache => true
  | _, .containerStart place _ => place ≠ .cacheVolume
  | _, .waitForContainer place _ => place ≠ .cacheVolume
  | _, .containerRemove _ .named => true
  | _, .append .builds _ => true
  | _, .append .services _ => true
  | _, .append .cacheContainerIDs _ => true
  | _, .read _ => true
  | _, .wait _ => true
  | _, .withTimeout => true
  | _, .receiveDone => true
  | _, .cancel => true
  | _, .expire => true
  | _, _ => false

theorem alike_of_quiet {β : Type} {command : Command β} {input : Input} {response : β}
    {job : Option Job} (quiet : command.quiet = true)
    (executed : execute self threads command input before = some (after, response, job)) :
    Alike before after ∧ ∀ started ∈ job, started = .deadline := by
  have noJob : ∀ started ∈ (none : Option Job), started = .deadline := nofun
  cases command with
  | fails | hasVolumesManager | inspectCache | read =>
    cases input <;> cases executed
    exact ⟨Alike.refl _, noJob⟩
  | cancel | expire =>
    cases input <;> cases executed
    exact ⟨⟨rfl, rfl, rfl, rfl, rfl, rfl, rfl, rfl, fun _ => id, fun _ => id⟩, noJob⟩
  | containerStart | waitForContainer =>
    cases input <;> cases executed
    refine ⟨alike_answer before self ?_, noJob⟩
    exact if_neg fun both => of_decide_eq_true quiet both.1
  | containerRemove ctx target =>
    cases target with
    | container id => cases quiet
    | named =>
      cases input <;> cases executed
      exact ⟨alike_answer before self rfl, noJob⟩
  | append record id =>
    cases input <;> cases executed
    refine ⟨?_, noJob⟩
    cases record with
    | builds | services | cacheContainerIDs =>
      exact ⟨rfl, rfl, rfl, rfl, rfl, rfl, rfl, rfl, fun _ event => event, fun _ owed => owed⟩
    | _ => cases quiet
  | addManagedVolume path =>
    cases input with
    | nothing =>
      change (if before.managedVolumes.contains path then _ else _) = _ at executed
      split at executed
      · cases executed
        exact ⟨Alike.refl _, noJob⟩
      · cases executed
        exact ⟨⟨rfl, rfl, rfl, rfl, rfl, rfl, rfl, rfl, fun _ => id, fun _ => id⟩, noJob⟩
    | _ => cases executed
  | wait | receiveDone =>
    cases input with
    | nothing =>
      obtain ⟨-, same⟩ := Option.ite_none_right_eq_some.mp executed
      cases same
      exact ⟨Alike.refl _, noJob⟩
    | _ => cases executed
  | withTimeout =>
    cases input <;> cases executed
    exact ⟨Alike.refl _, fun started member => (Option.some.inj member).symm⟩
  | _ => cases quiet
variable {pre : Executor → Prop}

theorem keeps_quiet {β : Type} {command : Command β}
    {post : β → Executor → Prop} (quiet : command.quiet = true)
    (effect : ∀ threads input before after response job, pre before → Sound threads before →
      execute self threads command input before = some (after, response, job) →
      Alike before after → post response after) : custody.Keeps self pre command post := by
  intro threads before input after response job holds sound inPool _ executed
  obtain ⟨alike, deadline⟩ := alike_of_quiet quiet executed
  refine ⟨(alike.sound sound).mono (Nat.le_add_right _ _), fun other _ _ => alike.rely other, ?_,
    effect threads input before after response job holds sound executed alike⟩
  intro started member
  rw [deadline started member]
  exact ⟨Nat.ne_of_gt (Nat.zero_lt_of_lt inPool), trivial⟩

theorem safe_of_quiet (every : program.Every Command.quiet) (stable : custody.Stable self pre)
    (holds : pre executor) : custody.Safe self (fun _ => pre) program executor :=
  Discipline.Safe.of_every every stable (fun _ quiet => keeps_quiet quiet
    fun _ _ before after _ _ holds _ _ alike => stable before after (alike.rely self) holds) holds

/-- A goroutine gives up a container that is in a list by now, or removed. -/
theorem Sound.handOver (sound : Sound threads before)
    (holding : after.holding = (before.release self id).holding)
    (log : after.log = before.log) (running : after.running = before.running)
    (temporary : before.temporary ⊆ after.temporary)
    (failed : before.failedContainerIDs ⊆ after.failedContainerIDs)
    (tmp : before.tmpContainerIDs ⊆ after.tmpContainerIDs) (covered : Covered after id)
    (manager : after.volumesManager = false →
      after.failedContainerIDs = [] ∧ after.tmpContainerIDs = [])
    (cleaned : after.cleaned = true → ∀ id,
      id ∈ after.failedContainerIDs ∨ id ∈ after.tmpContainerIDs → Removed after.log id) :
    Sound threads after := by
  refine ⟨?_, ?_, manager, cleaned⟩
  · intro owedId owed
    rw [log] at owed
    have earlier : Covered before owedId := sound.owed owedId owed
    refine earlier.grow temporary failed tmp (by simp [log]) ?_
    intro thread isHeld
    by_cases same : (thread, owedId) = (self, id)
    · cases same
      exact covered
    · have released : (thread, owedId) ∈ after.holding := by
        rw [holding]
        exact mem_release.mpr ⟨isHeld, same⟩
      exact of_held released
  · intro thread heldId isHeld
    rw [holding] at isHeld
    rw [running]
    exact sound.holders thread heldId (mem_release.mp isHeld).1

theorem Sound.release (sound : Sound threads executor) (removed : Removed executor.log id) :
    Sound threads (executor.release self id) :=
  sound.handOver rfl rfl rfl (List.Subset.refl _) (List.Subset.refl _) (List.Subset.refl _)
    (of_removed removed) sound.manager sound.cleaned

theorem rely_release (executor : Executor) (thread : Nat) (id : Id) (other : Nat) :
    Rely other executor (executor.release thread id) := by
  constructor
  · intro heldId held
    exact (mem_release.mp held).1
  · exact fun _ event => event
  · exact fun _ => .inl
  · exact fun _ member _ => member
  · exact fun cleaning => ⟨cleaning, rfl, rfl⟩
  · intro _
    exact ⟨rfl, rfl, rfl, rfl, rfl, fun _ => .inl, .inl, fun _ _ owed => owed⟩

theorem keeps_remove {ctx : Ctx} (effect : ∀ before, pre before →
      post () ((before.answer self (.removed (.container id) true)).release self id)) :
    custody.Keeps self pre (.containerRemove ctx (.container id)) post := by
  intro threads before input after response job holds sound _ isOrderly executed
  cases input with
  | nothing =>
    have live : before.live ctx = true := isOrderly
    have logged : Alike before (before.answer self (.removed (.container id) true)) :=
      alike_answer before self rfl
    have removed : Removed (before.answer self (.removed (.container id) true)).log id :=
      mem_append_right _ mem_cons_self
    have same : before.remove self ctx (.container id) =
        (before.answer self (.removed (.container id) true)).release self id := by
      simp only [Executor.remove, live, if_true]
    cases executed
    rw [same]
    refine ⟨(logged.sound sound).release removed, ?_, nofun, effect before holds⟩
    intro other _ _
    exact (logged.rely other).trans (rely_release _ self id other)
  | _ => cases executed

/-- A goroutine is started.  Only the main goroutine starts others than those of the
clean-up of volumes. -/
theorem keeps_go {group : Group}
    (starter : self = 0 ∨ group = .caches)
    (effect : ∀ threads before, pre before →
      post () { before with running := before.running ++ [⟨group, threads, id⟩] }) :
    custody.Keeps self pre (.go group id) post := by
  intro threads before input after response job holds sound inPool _ executed
  cases input with
  | nothing =>
    cases executed
    refine ⟨⟨sound.owed, ?_, sound.manager, sound.cleaned⟩, ?_, ?_, effect threads before holds⟩
    · intro thread heldId held
      obtain ⟨bounded, entitled⟩ := sound.holders thread heldId held
      refine ⟨Nat.lt_succ_of_lt bounded, entitled.imp_right ?_⟩
      exact fun ⟨service, member⟩ => ⟨service, mem_append_left _ member⟩
    · intro other _ isOther
      refine ⟨fun _ held => held, fun _ event => event,
        fun _ member => .inl (mem_append_left _ member),
        fun _ member _ => mem_append_left _ member,
        fun cleaning => ⟨cleaning, rfl, rfl⟩, ?_⟩
      intro isMain
      refine ⟨rfl, rfl, rfl, rfl, rfl, ?_, .inl, fun _ _ owed => owed⟩
      intro member isRunning
      rcases mem_append.mp isRunning with earlier | last
      · exact .inl earlier
      · rcases starter with isSelf | isCaches
        · exact (isOther (isMain.trans isSelf.symm)).elim
        · rw [mem_singleton.mp last]
          exact .inr isCaches
    · intro started isJob
      cases isJob
      refine ⟨Nat.ne_of_gt (Nat.zero_lt_of_lt inPool), ?_⟩
      cases group with
      | services =>
        refine ⟨mem_append_right _ mem_cons_self, ?_⟩
        intro heldId held
        exact Nat.lt_irrefl _ (sound.holders threads heldId held).1
      | temporary | caches => exact nofun
  | _ => cases executed

/-- A goroutine is done: a health check holds no container then, and any other has removed
its container. -/
theorem keeps_done {group : Group}
    (free : ∀ before, pre before → group = .services → ∀ heldId, (self, heldId) ∉ before.holding)
    (gone : ∀ before, pre before → group = .services ∨ Removed before.log id)
    (effect : ∀ before, pre before → post ()
      { before with running := before.running.filter fun member => member ≠ ⟨group, self, id⟩ }) :
    custody.Keeps self pre (.done group id) post := by
  intro threads before input after response job holds sound inPool _ executed
  cases input with
  | nothing =>
    cases executed
    refine ⟨⟨sound.owed, ?_, sound.manager, sound.cleaned⟩, ?_, nofun, effect before holds⟩
    · intro thread heldId held
      obtain ⟨bounded, entitled⟩ := sound.holders thread heldId held
      refine ⟨bounded, entitled.imp_right ?_⟩
      rintro ⟨service, member⟩
      refine ⟨service, mem_filter.mpr ⟨member, decide_eq_true ?_⟩⟩
      intro same
      cases same
      exact free before holds rfl heldId held
    · intro other _ isOther
      refine ⟨fun _ held => held, fun _ event => event, ?_, ?_,
        fun cleaning => ⟨cleaning, rfl, rfl⟩, ?_⟩
      · intro member isRunning
        by_cases same : member = ⟨group, self, id⟩
        · rw [same]
          exact .inr (gone before holds)
        · exact .inl (mem_filter.mpr ⟨isRunning, decide_eq_true same⟩)
      · intro member isRunning isOwn
        refine mem_filter.mpr ⟨isRunning, decide_eq_true ?_⟩
        intro same
        rw [same] at isOwn
        exact isOther isOwn.symm
      · intro _
        exact ⟨rfl, rfl, rfl, rfl, rfl, fun _ isRunning => .inl (mem_filter.mp isRunning).1,
          .inl, fun _ _ owed => owed⟩
  | _ => cases executed

end Commands

variable {record : Record} {definition : ServiceDefinition} {containerPath : List UInt8}

section Main

variable {managed : Bool} {held : List Id} {executor : Executor} {id : Id} {place : Place}

/-- Where the main goroutine is before `Cleanup`: it holds only the given containers.
`managed` says that it has seen the volumes manager. -/
structure Busy (managed : Bool) (held : List Id) (executor : Executor) : Prop where
  holding : ∀ id, (0, id) ∈ executor.holding → id ∈ held
  cleaning : executor.cleaning = false
  cleaned : executor.cleaned = false
  manager : managed = true → executor.volumesManager = true

structure Ready (managed : Bool) (held : List Id) (executor : Executor) : Prop
    extends Busy managed held executor where
  calm : Calm executor

theorem Busy.later {after : Executor} (busy : Busy managed held executor)
    (others : Rely 0 executor after) : Busy managed held after := by
  have untouched := others.main rfl
  constructor
  · exact fun id isHeld => busy.holding id (others.holding id isHeld)
  · rw [untouched.cleaning]
    exact busy.cleaning
  · rw [← Bool.not_eq_true]
    intro cleaned
    rcases untouched.cleaned cleaned with isCleaned | isCleaning
    · cases isCleaned.symm.trans busy.cleaned
    · cases isCleaning.symm.trans busy.cleaning
  · rw [untouched.manager]
    exact busy.manager

theorem stable_busy : custody.Stable 0 (Busy managed held) :=
  fun _ _ others busy => busy.later others

theorem stable_ready : custody.Stable 0 (Ready managed held) :=
  fun _ _ others ready =>
    ⟨ready.toBusy.later others, (others.main rfl).calm_after ready.calm⟩

theorem Ready.mono {more : List Id} (ready : Ready managed held executor)
    (subset : held ⊆ more) : Ready managed more executor :=
  ⟨⟨fun id isHeld => subset (ready.holding id isHeld), ready.cleaning, ready.cleaned,
    ready.manager⟩, ready.calm⟩

theorem Ready.unmanaged (ready : Ready managed held executor) : Ready false held executor :=
  ⟨⟨ready.holding, ready.cleaning, ready.cleaned, nofun⟩, ready.calm⟩

theorem Ready.answer (ready : Ready managed held executor) (event : Event) :
    Ready managed (held ++ event.owes.toList) (executor.answer 0 event) := by
  refine ⟨⟨?_, ready.cleaning, ready.cleaned, ready.manager⟩, ready.calm⟩
  intro id isHeld
  rcases mem_append.mp isHeld with earlier | last
  · exact mem_append_left _ (ready.holding id earlier)
  · obtain ⟨owed, isOwed, same⟩ := mem_map.mp last
    cases same
    exact mem_append_right _ isOwed

theorem answer_custody {threads : Nat} (sound : Sound threads executor) (inPool : 0 < threads)
    (event : Event) : Sound threads (executor.answer 0 event) ∧
      ∀ other < threads, other ≠ 0 → Rely other executor (executor.answer 0 event) :=
  ⟨sound.answer inPool (.inl rfl),
    fun _ _ isOther => rely_answer isOther fun isMain => (isOther isMain).elim⟩

/-- A container is created.  For a service there is no id beside an error. -/
theorem containerCreate_safe :
    custody.Triple 0 (Ready managed []) (call (.containerCreate place)) fun response after =>
      Ready managed (Event.created place response.1 response.2).owes.toList after ∧
        (place = .service → response.2 = true → response.1 = []) := by
  refine .call stable_ready ?_
  intro threads before input after response job holds sound inPool isOrderly executed
  cases input with
  | created id failed =>
    cases executed
    obtain ⟨stillSound, others⟩ := answer_custody sound inPool (.created place id failed)
    refine ⟨stillSound, others, nofun, holds.answer _, ?_⟩
    intro isService isFailed
    cases isFailed
    exact orderly_created isOrderly (.inl isService)
  | _ => cases executed

/-- What the main goroutine holds of a volume that is created: a temporary one is still to
be recorded. -/
def kept (place : Place) (id : Id) : List Id :=
  if place = .cacheVolume then [] else [id]

theorem kept_subset (place : Place) (id : Id) : kept place id ⊆ [id] := by
  unfold kept
  split
  · exact nil_subset _
  · exact fun _ member => member

theorem owes_created_subset {failed : Bool} :
    (Event.created place id failed).owes.toList ⊆ [id] := by
  change (if _ then none else some id).toList ⊆ [id]
  split
  · exact nil_subset _
  · exact List.Subset.refl _

theorem owes_created_kept : (Event.created place id false).owes.toList ⊆ kept place id := by
  by_cases isCache : place = .cacheVolume
  · rw [show (Event.created place id false).owes = none from if_pos (.inr ⟨isCache, rfl⟩)]
    exact nil_subset _
  · rw [show kept place id = [id] from if_neg isCache]
    exact owes_created_subset

/-- A request that fails for a cache volume is one more reason to remove its container. -/
theorem requested {event : Event} {failed : Bool}
    (owes : event.owes = if place = .cacheVolume ∧ failed = true then some id else none)
    (ready : Ready managed (kept place id) executor) :
    Ready managed (if failed then [id] else kept place id) (executor.answer 0 event) := by
  refine (ready.answer event).mono ?_
  rw [owes]
  cases failed with
  | false => simp
  | true =>
    intro heldId isHeld
    rcases mem_append.mp isHeld with earlier | last
    · exact kept_subset place id earlier
    · split at last
      · exact last
      · cases last

theorem request_safe {command : Command Bool} (event : Bool → Event)
    (answers : ∀ threads input before after response job,
      execute 0 threads command input before = some (after, response, job) →
      after = before.answer 0 (event response) ∧ job = none) (owes : ∀ failed, (event failed).owes =
      if place = .cacheVolume ∧ failed = true then some id else none) :
    custody.Triple 0 (Ready managed (kept place id)) (call command)
      fun failed => Ready managed (if failed then [id] else kept place id) := by
  refine .call stable_ready ?_
  intro threads before input after response job holds sound inPool _ executed
  obtain ⟨rfl, rfl⟩ := answers threads input before after response job executed
  obtain ⟨stillSound, others⟩ := answer_custody sound inPool (event response)
  exact ⟨stillSound, others, nofun, requested (owes response) holds⟩

theorem containerStart_safe :
    custody.Triple 0 (Ready managed (kept place id)) (call (.containerStart place id))
      fun failed => Ready managed (if failed then [id] else kept place id) := by
  refine request_safe (Event.started place id) ?_ (fun _ => rfl)
  intro threads input before after response job executed
  cases input <;> cases executed
  exact ⟨rfl, rfl⟩

theorem waitForContainer_safe :
    custody.Triple 0 (Ready managed (kept place id)) (call (.waitForContainer place id))
      fun failed => Ready managed (if failed then [id] else kept place id) := by
  refine request_safe (Event.waited place id) ?_ (fun _ => rfl)
  intro threads input before after response job executed
  cases input <;> cases executed
  exact ⟨rfl, rfl⟩

/-- The lists that `Cleanup` works off; two of them belong to the volumes manager. -/
def Record.WorkedOff (managed : Bool) : Record → Prop
  | .temporary => True
  | .tmpContainerIDs => managed = true
  | .failedContainerIDs => managed = true
  | _ => False

theorem Sound.append {threads self : Nat} (sound : Sound threads executor)
    (workedOff : record.WorkedOff executor.volumesManager)
    (cleaned : executor.cleaned = false) : Sound threads (executor.append self id record) := by
  have last : ∀ ids : List Id, id ∈ ids ++ [id] :=
    fun ids => mem_append_right _ mem_cons_self
  have running : executor.cleaned ≠ true := by simp [cleaned]
  cases record with
  | temporary =>
    exact sound.handOver rfl rfl rfl (subset_append_left _ _) (List.Subset.refl _)
      (List.Subset.refl _) (.inl (last _)) sound.manager (fun done => (running done).elim)
  | tmpContainerIDs =>
    have present : executor.volumesManager ≠ false := ne_false_of_eq_true workedOff
    exact sound.handOver rfl rfl rfl (List.Subset.refl _) (List.Subset.refl _)
      (subset_append_left _ _) (.inr (.inr (.inl (last _))))
      (fun missing => (present missing).elim) (fun done => (running done).elim)
  | failedContainerIDs =>
    have present : executor.volumesManager ≠ false := ne_false_of_eq_true workedOff
    exact sound.handOver rfl rfl rfl (List.Subset.refl _) (subset_append_left _ _)
      (List.Subset.refl _) (.inr (.inl (last _)))
      (fun missing => (present missing).elim) (fun done => (running done).elim)
  | _ => cases workedOff

/-- The id of a container that the main goroutine holds is put into a list that `Cleanup`
works off. -/
theorem append_safe (workedOff : record.WorkedOff managed) :
    custody.Triple 0 (Ready managed [id]) (call (.append record id)) fun _ => Ready managed [] := by
  refine .call stable_ready ?_
  intro threads before input after response job holds sound inPool _ executed
  have present : record.WorkedOff before.volumesManager := by
    cases record with
    | tmpContainerIDs | failedContainerIDs => exact holds.manager workedOff
    | _ => exact workedOff
  have released : (before.append 0 id record).holding = (before.release 0 id).holding := by
    cases record with
    | temporary | tmpContainerIDs | failedContainerIDs => rfl
    | _ => cases workedOff
  have nothingHeld : ∀ heldId, (0, heldId) ∉ (before.append 0 id record).holding := by
    intro heldId isHeld
    rw [released] at isHeld
    obtain ⟨earlier, different⟩ := mem_release.mp isHeld
    rw [mem_singleton.mp (holds.holding heldId earlier)] at different
    exact different rfl
  cases input <;> cases executed
  refine ⟨sound.append present holds.cleaned, ?_, nofun, ?_⟩
  · intro other _ isOther
    cases record with
    | temporary | tmpContainerIDs | failedContainerIDs =>
      refine ⟨fun heldId isHeld => (mem_release.mp isHeld).1, fun _ event => event,
        fun _ => .inl, fun _ member _ => member, ?_, fun isMain => (isOther isMain).elim⟩
      intro cleaning
      cases cleaning.symm.trans holds.cleaning
    | _ => cases workedOff
  · cases record with
    | temporary | tmpContainerIDs | failedContainerIDs =>
      exact ⟨⟨fun heldId isHeld => (nothingHeld heldId isHeld).elim, holds.cleaning,
        holds.cleaned, holds.manager⟩, holds.calm⟩
    | _ => cases workedOff

theorem hasVolumesManager_safe :
    custody.Triple 0 (Ready managed held) (call .hasVolumesManager)
      fun present => Ready present held := by
  refine .call stable_ready (keeps_quiet rfl ?_)
  intro threads input before after response job holds _ executed _
  cases input <;> cases executed
  exact ⟨⟨holds.holding, holds.cleaning, holds.cleaned, id⟩, holds.calm⟩

theorem setVolumesManager_safe :
    custody.Triple 0 (Ready managed held) (call .setVolumesManager)
      fun _ => Ready managed held := by
  refine .call stable_ready ?_
  intro threads before input after response job holds sound _ _ executed
  cases input <;> cases executed
  refine ⟨⟨sound.owed, sound.holders, nofun, sound.cleaned⟩, ?_, nofun,
    ⟨⟨holds.holding, holds.cleaning, holds.cleaned, fun _ => rfl⟩, holds.calm⟩⟩
  intro other _ isOther
  exact ⟨fun _ isHeld => isHeld, fun _ event => event, fun _ => .inl,
    fun _ member _ => member, fun cleaning => ⟨cleaning, rfl, rfl⟩,
    fun isMain => (isOther isMain).elim⟩

theorem quiet_safe (every : program.Every Command.quiet) :
    custody.Triple 0 (Ready managed held) program fun _ => Ready managed held :=
  fun _ ready => safe_of_quiet every stable_ready ready

/-- Many programs end when a call fails. -/
theorem unlessFails {command : Command Bool} {stop : α} {rest : Program Command α}
    {post : α → Executor → Prop} (quiet : command.quiet = true)
    (stops : post stop = Ready managed held)
    (goes : custody.Triple 0 (Ready managed held) rest post) :
    custody.Triple 0 (Ready managed held)
      (call command >>= fun failed => if failed then pure stop else rest) post := by
  refine (quiet_safe (.call quiet)).bind ?_
  intro failed
  split
  · exact fun executor ready => (congrFun stops executor).mpr ready
  · exact goes

/-- A program after which the main goroutine holds nothing, as before. -/
def Steady (managed : Bool) {α : Type} (program : Program Command α) : Prop :=
  custody.Triple 0 (Ready managed []) program fun _ => Ready managed []

theorem Steady.call {command : Command α} (quiet : command.quiet = true) :
    Steady managed (Program.call command) :=
  quiet_safe (.call quiet)

theorem removeContainer_quiet (ctx : Ctx) : (removeContainer ctx .named).Every Command.quiet :=
  .after rfl fun _ => .call rfl

theorem createService_safe :
    custody.Triple 0 (Ready false []) (createService definition) fun result =>
      match result with
      | .ok id => Ready false [id] | .error _ => Ready false [] := by
  unfold createService
  split
  · exact fun _ ready => ready
  · refine .bind (Steady.call rfl) fun present => ?_
    split
    · refine unlessFails rfl rfl ?_
      refine .bind (quiet_safe (removeContainer_quiet _)) fun _ => .bind containerCreate_safe ?_
      rintro ⟨id, failed⟩
      cases failed with
      | true =>
        rintro executor ⟨ready, noId⟩
        rw [noId rfl rfl] at ready
        exact ready
      | false =>
        refine .weaken (.bind (quiet_safe (.call rfl)) fun failed => ?_)
          fun _ created => created.1.mono owes_created_subset
        split
        · exact .bind (append_safe trivial) fun _ _ ready => ready
        · exact fun _ ready => ready
    · exact fun _ ready => ready

theorem createLinks_steady {container : Option Id} {linkNames links : List (List UInt8)} :
    Steady false (createLinks definition container linkNames links) := by
  induction linkNames generalizing container links with
  | nil => exact fun _ ready => ready
  | cons linkName linkNames ih =>
    unfold createLinks
    split
    · exact ih
    · cases container with
      | some id => exact ih
      | none =>
        refine .bind createService_safe fun result => ?_
        cases result with
        | error err => exact fun _ ready => ready
        | ok id =>
          refine .bind (quiet_safe (.call rfl)) fun _ => ?_
          exact .bind (append_safe trivial) fun _ => ih

theorem createEach_steady {definitions : List ServiceDefinition} {links : List (List UInt8)} :
    Steady false (createEach definitions links) := by
  induction definitions generalizing links with
  | nil => exact fun _ ready => ready
  | cons definition definitions ih =>
    refine .bind createLinks_steady fun result => ?_
    cases result with
    | error err => exact fun _ ready => ready
    | ok links => exact ih

theorem goEach_safe {self : Nat} {group : Group} {ids : List Id}
    {property : List Id → Executor → Prop}
    (starts : ∀ id ids, custody.Triple self (property (id :: ids)) (call (.go group id))
      fun _ => property ids) :
    custody.Triple self (property ids) (goEach group ids) fun _ => property [] := by
  induction ids with
  | nil => exact fun _ holds => holds
  | cons id ids ih => exact .bind (starts id ids) fun _ => ih

theorem goService_safe :
    custody.Triple 0 (Busy managed held) (call (.go .services id)) fun _ => Busy managed held := by
  refine .call stable_busy (keeps_go (.inl rfl) ?_)
  intro threads before holds
  exact ⟨holds.holding, holds.cleaning, holds.cleaned, holds.manager⟩

theorem waitServices_safe :
    custody.Triple 0 (Busy managed held) (call (.wait .services)) fun _ => Ready managed held := by
  refine .call stable_busy (keeps_quiet rfl ?_)
  intro threads input before after response job holds _ executed _
  cases input with
  | nothing =>
    obtain ⟨calm, same⟩ := Option.ite_none_right_eq_some.mp executed
    cases same
    exact ⟨holds, calm⟩
  | _ => cases executed

variable {config : Config}

theorem waitForServices_steady : Steady managed (waitForServices config) := by
  refine .bind (Steady.call rfl) fun services => ?_
  generalize (if config.waitForServicesTimeout = 0 then defaultWaitForServicesTimeout
    else config.waitForServicesTimeout) = timeout
  split
  · have started : custody.Triple 0 (Busy managed []) (goEach .services services)
        fun _ => Busy managed [] :=
      @goEach_safe 0 .services services (fun _ => Busy managed []) fun _ _ => goService_safe
    exact (started.bind fun _ => waitServices_safe).weaken fun _ ready => ready.toBusy
  · exact fun _ ready => ready

theorem createServices_steady : Steady false (createServices config) := by
  refine unlessFails rfl rfl (.bind createEach_steady fun err => ?_)
  cases err with
  | some err => exact fun _ ready => ready
  | none =>
    exact .bind waitForServices_steady fun _ => .bind (Steady.call rfl) fun _ _ ready => ready

theorem appendGiven_safe (workedOff : record.WorkedOff managed) :
    custody.Triple 0 (Ready managed (Event.created place id true).owes.toList)
      (appendGiven record id) fun _ => Ready managed [] := by
  unfold appendGiven
  split
  · exact (append_safe workedOff).weaken fun _ ready => ready.mono owes_created_subset
  · rename_i empty
    rw [show id = [] from Decidable.not_not.mp empty]
    exact fun _ ready => ready

theorem createContainer_steady : Steady false createContainer := by
  refine .bind (Steady.call rfl) fun present => ?_
  split
  · refine unlessFails rfl rfl (unlessFails rfl rfl ?_)
    refine .bind (quiet_safe (removeContainer_quiet _)) fun _ => .bind containerCreate_safe ?_
    rintro ⟨id, failed⟩
    cases failed with
    | true =>
      exact .weaken (.bind (appendGiven_safe trivial) fun _ _ ready => ready) fun _ => And.left
    | false =>
      refine .weaken (.bind (quiet_safe (.call rfl)) fun failed => ?_)
        fun _ created => created.1.mono owes_created_subset
      split
      · exact .bind (append_safe trivial) fun _ _ ready => ready
      · refine .bind (quiet_safe (.call rfl)) fun _ => ?_
        exact .bind (append_safe trivial) fun _ _ ready => ready
  · exact fun _ ready => ready

def Created (place : Place) : Except Error Id → Executor → Prop
  | .ok id => Ready true (kept place id)
  | .error _ => Ready true []

theorem createCacheContainer_safe :
    custody.Triple 0 (Ready true []) (createCacheContainer place) (Created place) := by
  refine .bind containerCreate_safe ?_
  rintro ⟨id, failed⟩
  cases failed with
  | true => exact .weaken (.bind (appendGiven_safe rfl) fun _ _ ready => ready) fun _ => And.left
  | false => exact fun _ created => created.1.mono owes_created_kept

theorem startCacheContainer_safe :
    custody.Triple 0 (Ready true (kept place id)) (startCacheContainer place id) fun err =>
      match err with
      | none => Ready true (kept place id) | some _ => Ready true [] := by
  refine .bind containerStart_safe fun failed => ?_
  cases failed with
  | true => exact .bind (append_safe rfl) fun _ _ ready => ready
  | false =>
    refine .bind waitForContainer_safe fun failed => ?_
    cases failed with
    | true => exact .bind (append_safe rfl) fun _ _ ready => ready
    | false => exact fun _ ready => ready

theorem createCache_safe :
    custody.Triple 0 (Ready true []) (createCache place) (Created place) := by
  refine .bind createCacheContainer_safe fun result => ?_
  cases result with
  | error err => exact fun _ ready => ready
  | ok id =>
    refine .bind startCacheContainer_safe fun err => ?_
    cases err with
    | some | none => exact fun _ ready => ready

theorem findOrCleanExisting_quiet : findOrCleanExisting.Every Command.quiet := by
  refine .after rfl ?_
  intro found
  cases found with
  | nothing | valid => exact .pure _
  | broken => exact Program.Every.bind (removeContainer_quiet _) fun _ => .pure _

theorem createContainerBasedCacheVolume_safe :
    custody.Triple 0 (Ready true []) (createContainerBasedCacheVolume config place containerPath)
      (Created place) := by
  refine unlessFails rfl rfl ?_
  refine .bind (quiet_safe findOrCleanExisting_quiet) fun found => ?_
  split
  · refine .bind createCache_safe fun result => ?_
    cases result with
    | error err => exact fun _ ready => ready
    | ok id => exact .bind (quiet_safe (.call rfl)) fun _ _ ready => ready
  · exact .bind (quiet_safe (.call rfl)) fun _ _ ready => ready.mono (nil_subset _)

theorem addCacheVolume_steady {destination : List UInt8} :
    Steady true (addCacheVolume config destination) := by
  unfold addCacheVolume
  split
  · exact fun _ ready => ready
  · split
    · exact unlessFails rfl rfl (unlessFails rfl rfl (fun _ ready => ready))
    · refine .bind createContainerBasedCacheVolume_safe fun result => ?_
      cases result with
      | error | ok => exact fun _ ready => ready

theorem createVolume_steady {volume : List UInt8} : Steady true (createVolume config volume) := by
  unfold createVolume
  split
  · exact fun _ ready => ready
  · split
    · exact fun _ ready => ready
    · exact unlessFails rfl rfl (fun _ ready => ready)
    · exact addCacheVolume_steady
    · exact fun _ ready => ready

theorem createTemporary_steady : Steady true (createTemporary config containerPath) := by
  refine .bind createContainerBasedCacheVolume_safe fun result => ?_
  cases result with
  | error err => exact fun _ ready => ready
  | ok id => exact .bind (append_safe rfl) fun _ _ ready => ready

theorem createEachVolume_steady {volumes : List (List UInt8)} :
    Steady true (createEachVolume config volumes) := by
  induction volumes with
  | nil => exact fun _ ready => ready
  | cons volume volumes ih =>
    refine .bind createVolume_steady fun err => ?_
    split
    · exact ih
    · exact ih
    · exact fun _ ready => ready

/-- The volumes manager is used only if there is one. -/
theorem Steady.ifManaged {stop : α} (steady : Steady true program) :
    Steady false (Program.call .hasVolumesManager >>= fun present =>
      if present then program else Pure.pure stop) := by
  refine .bind hasVolumesManager_safe fun present => ?_
  cases present with
  | false => exact fun _ ready => ready
  | true => exact fun executor ready => (steady executor ready).mono fun _ _ => Ready.unmanaged

theorem createBuildVolume_steady : Steady false (createBuildVolume config) := by
  have temporary : Steady true (createTemporary config config.jobsDir >>= fun err =>
      pure (unlessDefined err)) :=
    .bind createTemporary_steady fun _ _ ready => ready
  refine .ifManaged ?_
  split
  · refine .bind createVolume_steady fun err => ?_
    split
    · exact fun _ ready => ready
    · exact temporary
    · exact fun _ ready => ready
  · exact temporary

theorem setupEach_steady {setups : List (Program Command (Option Error))}
    (each : ∀ setup ∈ setups, Steady false setup) : Steady false (setupEach setups) := by
  induction setups with
  | nil => exact fun _ ready => ready
  | cons setup setups ih =>
    refine .bind (each setup mem_cons_self) fun err => ?_
    cases err with
    | some err => exact fun _ ready => ready
    | none => exact ih fun later member => each later (mem_cons_of_mem _ member)

theorem createDependencies_steady : Steady false (createDependencies config) := by
  have devices : Steady false bindDevices := unlessFails rfl rfl (fun _ ready => ready)
  have manager : Steady false createVolumesManager :=
    unlessFails rfl rfl (.bind setVolumesManager_safe fun _ _ ready => ready)
  have volumes : Steady false (createVolumes config) := .ifManaged createEachVolume_steady
  unfold createDependencies
  split
  · refine setupEach_steady ?_
    simp only [forall_mem_cons]
    exact ⟨devices, manager, createBuildVolume_steady, createServices_steady, volumes,
      forall_mem_nil _⟩
  · refine setupEach_steady ?_
    simp only [forall_mem_cons]
    exact ⟨devices, manager, volumes, createBuildVolume_steady, createServices_steady,
      forall_mem_nil _⟩

theorem prepare_steady : Steady false (prepare config) :=
  unlessFails rfl rfl createDependencies_steady

theorem runEach_steady {buildContainer : Option Id} {scripts : List Bool} :
    Steady false (runEach buildContainer scripts) := by
  induction scripts generalizing buildContainer with
  | nil => exact fun _ ready => ready
  | cons predefined scripts ih =>
    unfold runEach
    split
    · refine .bind (Steady.call rfl) fun failed => ?_
      split
      · exact ih
      · refine .bind createContainer_steady fun result => ?_
        cases result with
        | error err => exact ih
        | ok id => exact .bind (Steady.call rfl) fun _ => ih
    · cases buildContainer with
      | some id => exact .bind (Steady.call rfl) fun _ => ih
      | none =>
        refine .bind createContainer_steady fun result => ?_
        cases result with
        | error err => exact ih
        | ok id => exact .bind (Steady.call rfl) fun _ => ih

theorem runSsh_steady (scripts : Nat) : Steady false (runSsh scripts) := by
  induction scripts with
  | zero => exact fun _ ready => ready
  | succ scripts ih => exact .bind (Steady.call rfl) fun _ => ih

theorem runAll_steady {kind : Kind} : Steady false (runAll kind) := by
  cases kind with
  | command scripts => exact unlessFails rfl rfl (unlessFails rfl rfl runEach_steady)
  | ssh scripts =>
    refine .bind createContainer_steady fun result => ?_
    cases result with
    | error err => exact fun _ ready => ready
    | ok id =>
      exact unlessFails rfl rfl (unlessFails rfl rfl (unlessFails rfl rfl (runSsh_steady scripts)))

theorem prepareAndRun_steady {kind : Kind} : Steady false (prepareAndRun config kind) := by
  refine .bind prepare_steady fun err => ?_
  cases err with
  | none => exact runAll_steady
  | some err => exact fun _ ready => ready

end Main

end GitlabRunner.Docker
