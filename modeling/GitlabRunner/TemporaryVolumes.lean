import GitlabRunner.VolumesManager

/-!
# Temporary volumes and the caches of other jobs

The container of a temporary volume has the same name as the container that would keep
the path from job to job.  `CreateTemporary` therefore takes a container that an earlier
job has left as its cache, and `Cleanup` removes it.
-/

namespace GitlabRunner.Volumes

open ByteText List ActionRuns

def Event.job : Event → Nat
  | .made job _ | .persistent job _ | .temporary job _ | .cleaned job _ => job

def Event.id : Event → Nat
  | .made _ id | .persistent _ id | .temporary _ id | .cleaned _ id => id

/-- No container that was used for a temporary volume is one that an earlier job used for
a persistent one, and each job has removed only containers that it had made. -/
structure Separate (log : List Event) : Prop where
  temporary : ∀ job id, .temporary job id ∈ log →
    ∀ earlier < job, .persistent earlier id ∉ log
  cleaned : ∀ job id, .cleaned job id ∈ log → .made job id ∈ log

/-- No container on the host has the name for a path and holds the path, or the manager
has used the path before. -/
def Vacant (hash : List UInt8 → List UInt8) (world : World) (containerPath : List UInt8) :
    Prop :=
  let path := World.getAbsoluteContainerPath world.manager.config containerPath
  path ∈ world.manager.managedVolumes ∨
    ∀ container ∈ world.host.containers,
      container.name = World.containerName hash world.manager.config path →
        path ∉ container.volumes

instance (hash : List UInt8 → List UInt8) (world : World) (containerPath : List UInt8) :
    Decidable (Vacant hash world containerPath) :=
  inferInstanceAs (Decidable (_ ∨ _))

def TemporaryVacant (hash : List UInt8 → List UInt8) (world : World) : Action → Prop
  | .createTemporary containerPath _ => Vacant hash world containerPath
  | _ => True

instance (hash : List UInt8 → List UInt8) (world : World) (action : Action) :
    Decidable (TemporaryVacant hash world action) :=
  match action with
  | .createTemporary _ _ => inferInstanceAs (Decidable (Vacant _ _ _))
  | .start _ | .create _ _ | .cleanup _ => instDecidableTrue

structure Extends (before after : World) : Prop where
  job : after.job = before.job
  next : before.host.next ≤ after.host.next
  containers : ∀ container ∈ after.host.containers, container ∈ before.host.containers ∨
    container.id < after.host.next
  log : ∃ new : List Nat, after.log = before.log ++ new.map (Event.made before.job) ∧
    ∀ id ∈ new, id < after.host.next
  tmp : after.manager.tmpContainerIDs = before.manager.tmpContainerIDs
  failed : ∀ id ∈ after.manager.failedContainerIDs,
    id ∈ before.manager.failedContainerIDs ∨ .made before.job id ∈ after.log

theorem Extends.of_same {before after : World} (job : after.job = before.job)
    (host : after.host.containers ⊆ before.host.containers)
    (next : after.host.next = before.host.next) (log : after.log = before.log)
    (tmp : after.manager.tmpContainerIDs = before.manager.tmpContainerIDs)
    (failed : after.manager.failedContainerIDs = before.manager.failedContainerIDs) :
    Extends before after where
  job := job
  next := next.ge
  containers container member := .inl (host member)
  log := ⟨[], by rw [log, map_nil, append_nil], by simp⟩
  tmp := tmp
  failed id member := .inl (failed ▸ member)

theorem Extends.refl (world : World) : Extends world world :=
  .of_same rfl (List.Subset.refl _) rfl rfl rfl rfl

variable {event : Event}

theorem Extends.mem_log {before after : World} (grown : Extends before after)
    (member : event ∈ before.log) : event ∈ after.log := by
  obtain ⟨new, same, -⟩ := grown.log
  rw [same]
  exact mem_append_left _ member

theorem Extends.trans {first second third : World} (grown : Extends first second)
    (further : Extends second third) : Extends first third where
  job := further.job.trans grown.job
  next := grown.next.trans further.next
  containers container member := by
    rcases further.containers container member with old | new
    · rcases grown.containers container old with older | new
      · exact .inl older
      · exact .inr (new.trans_le further.next)
    · exact .inr new
  log := by
    obtain ⟨new, same, bound⟩ := grown.log
    obtain ⟨newer, sameAfter, boundAfter⟩ := further.log
    refine ⟨new ++ newer, ?_, ?_⟩
    · rw [sameAfter, same, grown.job, map_append, append_assoc]
    · intro id member
      rcases mem_append.mp member with member | member
      · exact (bound id member).trans_le further.next
      · exact boundAfter id member
  tmp := further.tmp.trans grown.tmp
  failed id member := by
    rcases further.failed id member with old | new
    · rcases grown.failed id old with older | new
      · exact .inl older
      · exact .inr (further.mem_log new)
    · exact .inr (grown.job ▸ new)

variable {result : Except Error Nat × World}

section Calls

variable {answers : Answers} {name path : List UInt8} {world : World}

theorem made_mem_make : .made world.job world.host.next ∈ (world.make name path).log :=
  mem_append_right _ (mem_singleton.mpr rfl)

theorem extends_make : Extends world (world.make name path) where
  job := rfl
  next := Nat.le_succ _
  containers container member := by
    rcases mem_cons.mp member with rfl | old
    · exact .inr (Nat.lt_succ_self _)
    · exact .inl old
  log := by
    refine ⟨[world.host.next], rfl, ?_⟩
    intro id member
    rw [mem_singleton.mp member]
    exact Nat.lt_succ_self _
  tmp := rfl
  failed id member := .inl member

theorem extends_appendFailed {id : Nat} (made : .made world.job id ∈ world.log) :
    Extends world (world.appendFailed id) where
  job := rfl
  next := le_rfl
  containers container member := .inl member
  log := ⟨[], by simp [World.appendFailed], by simp⟩
  tmp := rfl
  failed failedID member := by
    rcases mem_append.mp member with old | new
    · exact .inl old
    · rw [mem_singleton.mp new]
      exact .inr made

theorem extends_within {host : Host} (within : host.Within world.host) :
    Extends world { world with host := host } :=
  .of_same rfl within.containers within.next rfl rfl rfl

theorem extends_manage : Extends world (world.manage path) :=
  .of_same rfl (List.Subset.refl _) rfl rfl rfl rfl

theorem extends_appendCacheContainer {id : Nat} :
    Extends world (world.appendCacheContainer id path) :=
  .of_same rfl (List.Subset.refl _) rfl rfl rfl rfl

theorem CacheCreated.extends
    (created : CacheCreated name path world result) : Extends world result.2 := by
  cases created with
  | refused => exact .refl world
  | left | works => exact extends_make
  | failed => exact extends_make.trans (extends_appendFailed made_mem_make)

theorem Provided.extends (provided : Provided name path world result) : Extends world result.2 := by
  cases provided with
  | found => exact extends_appendCacheContainer
  | failed within created => exact (extends_within within).trans created.extends
  | made within =>
    exact ((extends_within within).trans extends_make).trans extends_appendCacheContainer

/-- The container is one of the host or has just been made by the job, and the first
only if its name and its path are those asked for. -/
theorem Provided.origin {id : Nat} {after : World}
    (provided : Provided name path world (.ok id, after)) :
    (∃ container ∈ world.host.containers,
        container.id = id ∧ container.name = name ∧ path ∈ container.volumes) ∨
      id = world.host.next ∧ .made world.job id ∈ after.log := by
  cases provided with
  | found member named holds => exact .inl ⟨_, member, rfl, named, holds⟩
  | made within => exact .inr ⟨within.next, @made_mem_make name path _⟩

end Calls

/-- What holds on a host whose temporary volumes were all created on vacant paths. -/
structure Sound (world : World) : Prop where
  containers : ∀ container ∈ world.host.containers, container.id < world.host.next
  ids : ∀ event ∈ world.log, event.id < world.host.next
  jobs : ∀ event ∈ world.log, event.job ≤ world.job
  failed : ∀ id ∈ world.manager.failedContainerIDs, .made world.job id ∈ world.log
  tmp : ∀ id ∈ world.manager.tmpContainerIDs, .made world.job id ∈ world.log
  separate : Separate world.log

section Steps

variable {hash : List UInt8 → List UInt8} {answers : Answers} {path : List UInt8}
  {before after : World}

theorem Separate.append_made {log : List Event} (separate : Separate log) (job : Nat)
    (new : List Nat) : Separate (log ++ new.map (Event.made job)) where
  temporary user id used earlier isEarlier kept := by
    have usedBefore : .temporary user id ∈ log := by simpa using used
    have keptBefore : .persistent earlier id ∈ log := by simpa using kept
    exact separate.temporary user id usedBefore earlier isEarlier keptBefore
  cleaned user id removed := by
    have removedBefore : .cleaned user id ∈ log := by simpa using removed
    exact mem_append_left _ (separate.cleaned user id removedBefore)

theorem Sound.extends (sound : Sound before) (grown : Extends before after) : Sound after where
  containers container member := by
    rcases grown.containers container member with old | new
    · exact (sound.containers container old).trans_le grown.next
    · exact new
  ids event member := by
    obtain ⟨new, same, bound⟩ := grown.log
    rw [same, mem_append, mem_map] at member
    rcases member with old | ⟨id, isNew, rfl⟩
    · exact (sound.ids event old).trans_le grown.next
    · exact bound id isNew
  jobs event member := by
    obtain ⟨new, same, -⟩ := grown.log
    rw [same, mem_append, mem_map] at member
    rw [grown.job]
    rcases member with old | ⟨id, -, rfl⟩
    · exact sound.jobs event old
    · exact le_rfl
  failed id member := by
    rw [grown.job]
    rcases grown.failed id member with old | new
    · exact grown.mem_log (sound.failed id old)
    · exact new
  tmp id member := by
    rw [grown.tmp] at member
    rw [grown.job]
    exact grown.mem_log (sound.tmp id member)
  separate := by
    obtain ⟨new, same, -⟩ := grown.log
    rw [same]
    exact sound.separate.append_made before.job new

/-- One more event keeps the jobs apart if it fits the earlier ones. -/
theorem Separate.append {log : List Event} (separate : Separate log)
    (used : ∀ job id, event = .temporary job id →
      ∀ earlier < job, .persistent earlier id ∉ log)
    (kept : ∀ job id, event = .persistent job id → ∀ later > job, .temporary later id ∉ log)
    (removed : ∀ job id, event = .cleaned job id → .made job id ∈ log) :
    Separate (log ++ [event]) := by
  constructor
  · intro job id isUsed earlier isEarlier isKept
    rcases mem_append.mp isUsed with usedBefore | usedNow
    · rcases mem_append.mp isKept with keptBefore | keptNow
      · exact separate.temporary job id usedBefore earlier isEarlier keptBefore
      · exact kept earlier id (mem_singleton.mp keptNow).symm job isEarlier usedBefore
    · rcases mem_append.mp isKept with keptBefore | keptNow
      · exact used job id (mem_singleton.mp usedNow).symm earlier isEarlier keptBefore
      · cases (mem_singleton.mp usedNow).trans (mem_singleton.mp keptNow).symm
  · intro job id isRemoved
    apply mem_append_left
    rcases mem_append.mp isRemoved with removedBefore | removedNow
    · exact separate.cleaned job id removedBefore
    · exact removed job id (mem_singleton.mp removedNow).symm

theorem Sound.append (sound : Sound before) (job : after.job = before.job)
    (next : after.host.next = before.host.next)
    (containers : after.host.containers ⊆ before.host.containers)
    (log : after.log = before.log ++ [event]) (current : event.job = before.job)
    (known : event.id < before.host.next)
    (failed : after.manager.failedContainerIDs = before.manager.failedContainerIDs)
    (tmp : ∀ id ∈ after.manager.tmpContainerIDs, .made before.job id ∈ before.log)
    (separate : Separate (before.log ++ [event])) : Sound after where
  containers container member := next ▸ sound.containers container (containers member)
  ids other member := by
    rw [log, mem_append, mem_singleton] at member
    rw [next]
    rcases member with old | rfl
    · exact sound.ids other old
    · exact known
  jobs other member := by
    rw [log, mem_append, mem_singleton] at member
    rw [job]
    rcases member with old | rfl
    · exact sound.jobs other old
    · exact current.le
  failed id member := by
    rw [failed] at member
    rw [job, log]
    exact mem_append_left _ (sound.failed id member)
  tmp id member := by
    rw [job, log]
    exact mem_append_left _ (tmp id member)
  separate := log ▸ separate

theorem Sound.append_persistent {id : Nat} (sound : Sound before) (known : id < before.host.next) :
    Sound { before with log := before.log ++ [.persistent before.job id] } := by
  refine sound.append rfl rfl (List.Subset.refl _) rfl rfl known rfl sound.tmp
    (sound.separate.append nofun ?_ nofun)
  rintro job other ⟨⟩ later isLater isUsed
  exact (sound.jobs _ isUsed).not_gt isLater

theorem Sound.append_temporary {id : Nat} (sound : Sound before)
    (own : .made before.job id ∈ before.log)
    (unkept : ∀ earlier, .persistent earlier id ∉ before.log) :
    Sound { before with
      manager.tmpContainerIDs := before.manager.tmpContainerIDs ++ [id]
      log := before.log ++ [.temporary before.job id] } := by
  have known : id < before.host.next := sound.ids (.made before.job id) own
  refine sound.append rfl rfl (List.Subset.refl _) rfl rfl known rfl ?_
    (sound.separate.append ?_ nofun nofun)
  · intro other member
    rcases mem_append.mp member with old | new
    · exact sound.tmp other old
    · rw [mem_singleton.mp new]
      exact own
  · rintro job other ⟨⟩ earlier -
    exact unkept earlier

theorem removeContainer_host (world : World) (removal : Nat × Bool) :
    (world.removeContainer removal).host.next = world.host.next ∧
      (world.removeContainer removal).host.containers ⊆ world.host.containers := by
  unfold World.removeContainer
  dsimp only
  split
  · exact ⟨rfl, filter_sublist.subset⟩
  · exact ⟨rfl, List.Subset.refl _⟩

theorem Sound.removeContainer {removal : Nat × Bool} (sound : Sound before)
    (own : .made before.job removal.1 ∈ before.log) : Sound (before.removeContainer removal) := by
  have known : removal.1 < before.host.next := sound.ids (.made before.job removal.1) own
  obtain ⟨next, containers⟩ := removeContainer_host before removal
  refine sound.append rfl next containers rfl rfl known rfl sound.tmp
    (sound.separate.append nofun nofun ?_)
  rintro job other ⟨⟩
  exact own

theorem Sound.foldl_removeContainer (removals : List (Nat × Bool)) (sound : Sound before)
    (own : ∀ removal ∈ removals, .made before.job removal.1 ∈ before.log) :
    Sound (removals.foldl World.removeContainer before) := by
  induction removals generalizing before with
  | nil => exact sound
  | cons removal removals ih =>
    apply ih (sound.removeContainer (own removal mem_cons_self))
    intro later member
    exact mem_append_left _ (own later (mem_cons_of_mem _ member))

theorem Sound.cleanup (sound : Sound before) (removes : Nat → Bool) :
    Sound (before.cleanup removes) := by
  apply sound.foldl_removeContainer
  intro removal member
  obtain ⟨id, listed, rfl⟩ := mem_map.mp member
  rcases mem_append.mp listed with failed | tmp
  · exact sound.failed id failed
  · exact sound.tmp id tmp

theorem Sound.start (sound : Sound before) (config : ManagerConfig) :
    Sound (before.start config) where
  containers := sound.containers
  ids := sound.ids
  jobs event member := (sound.jobs event member).trans (Nat.le_succ _)
  failed := nofun
  tmp := nofun
  separate := sound.separate

theorem extends_appendVolumeBind {volume : Volume} :
    Extends before (before.appendVolumeBind volume) :=
  .of_same rfl (List.Subset.refl _) rfl rfl rfl rfl

/-- A call for a volume keeps the invariant; a temporary volume must not use a container
that was there. -/
theorem Sound.volumed {disabled temporary : Bool} {result : Option Error × World}
    (sound : Sound before) (volumed : Volumed hash path before disabled temporary result)
    (vacant : temporary = true → path ∈ before.manager.managedVolumes ∨
      ∀ container ∈ before.host.containers,
        container.name = World.containerName hash before.manager.config path →
          path ∉ container.volumes) : Sound result.2 := by
  cases volumed with
  | disabled | defined => exact sound
  | unresolved => exact sound.extends extends_manage
  | bound => exact sound.extends (extends_manage.trans extends_appendVolumeBind)
  | failed _ provided => exact sound.extends (extends_manage.trans provided.extends)
  | @provided id after unmanaged provided =>
    have grown := extends_manage.trans provided.extends
    have later := sound.extends grown
    cases temporary with
    | false =>
      refine later.append_persistent ?_
      rcases provided.origin with ⟨container, member, rfl, -⟩ | ⟨-, new⟩
      · exact (sound.containers container member).trans_le grown.next
      · exact later.ids _ new
    | true =>
      rcases provided.origin with ⟨container, member, -, named, holds⟩ | ⟨isNext, own⟩
      · exact ((vacant rfl).resolve_left unmanaged container member named holds).elim
      · refine later.append_temporary (grown.job ▸ own) ?_
        intro earlier kept
        obtain ⟨new, same, -⟩ := grown.log
        have keptBefore : .persistent earlier id ∈ before.log := by
          rw [same] at kept
          simpa using kept
        have known : id < before.host.next := sound.ids _ keptBefore
        exact known.ne isNext

theorem Sound.create {spec : List UInt8} (sound : Sound before) :
    Sound (before.create hash answers spec).2 := by
  unfold World.create
  split
  · exact sound
  · split
    · exact sound
    · split
      · exact sound.volumed (@volumed_addHostVolume hash _ _) nofun
      · exact sound.volumed (volumed_addCacheVolume _) nofun
      · exact sound

/-- Every step keeps the invariant if the path of a temporary volume is vacant. -/
theorem Sound.step {action : Action} (sound : Sound before)
    (vacant : TemporaryVacant hash before action)
    (stepTo : step hash before action = some after) : Sound after := by
  cases action with
  | start config =>
    cases stepTo
    exact sound.start config
  | create spec answers =>
    cases stepTo
    exact sound.create
  | createTemporary path answers =>
    cases stepTo
    exact sound.volumed volumed_createTemporary fun _ => vacant
  | cleanup removes =>
    cases stepTo
    exact sound.cleanup removes

end Steps

theorem sound_initial {host : Host} (config : ManagerConfig)
    (known : ∀ container ∈ host.containers, container.id < host.next) :
    Sound (.initial host config) where
  containers := known
  ids := nofun
  jobs := nofun
  failed := nofun
  tmp := nofun
  separate := ⟨nofun, nofun⟩

/-- In every run of jobs on a host in which no container holds the path of a temporary
volume under its name before the volume is created, temporary volumes use no cache of an
earlier job, and every job removes only containers that it has made. -/
theorem temporary_volumes_separate (hash : List UInt8 → List UInt8) (host : Host)
    (known : ∀ container ∈ host.containers, container.id < host.next)
    (config : ManagerConfig) (actions : List Action) (world : World)
    (vacant : MeetsAlong (step hash) (TemporaryVacant hash) (.initial host config) actions)
    (reached : run (step hash) (.initial host config) actions = some world) :
    Separate world.log :=
  (run_invariant Sound (fun _ _ _ sound vacant stepTo => sound.step vacant stepTo)
    (sound_initial config known) vacant reached).separate

def keepThenUse (kept used : String) : List Action :=
  [.create (ascii kept) smoothly, .cleanup fun _ => true, .start projectConfig,
    .createTemporary (ascii used) smoothly, .cleanup fun _ => true]

theorem temporary_volumes_separate_paths :
    ∃ world, run (step id) (.initial emptyHost projectConfig)
        (keepThenUse "/cache" "/builds") = some world ∧
      .temporary 1 1 ∈ world.log ∧ .cleaned 1 1 ∈ world.log ∧ Separate world.log := by
  have reached := Option.eq_some_of_isSome (by decide +kernel :
    (run (step id) (.initial emptyHost projectConfig)
      (keepThenUse "/cache" "/builds")).isSome = true)
  refine ⟨_, reached, by decide +kernel, by decide +kernel,
    temporary_volumes_separate id emptyHost (by decide) projectConfig
      (keepThenUse "/cache" "/builds") _ (by decide +kernel) reached⟩

/-- A job that fetches leaves `/builds` as its cache; the next job clones, takes the
container as its temporary volume and removes it. -/
theorem kept_volume_removed :
    ¬∀ (hash : List UInt8 → List UInt8) (host : Host) (config : ManagerConfig)
      (actions : List Action) (world : World),
      (∀ container ∈ host.containers, container.id < host.next) →
      run (step hash) (.initial host config) actions = some world →
      Separate world.log := by
  intro separate
  have reached := Option.eq_some_of_isSome (by decide +kernel :
    (run (step id) (.initial emptyHost projectConfig)
      (keepThenUse "/builds" "/builds")).isSome = true)
  have apart := separate id emptyHost projectConfig _ _ (by decide) reached
  exact apart.temporary 1 0 (by decide +kernel) 0 (by decide) (by decide +kernel)

end GitlabRunner.Volumes
