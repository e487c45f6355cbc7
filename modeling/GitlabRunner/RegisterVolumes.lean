import GitlabRunner.VolumeMounts

/-!
# The volumes that registration leaves

`askDocker` of `commands/register.go` adds the volume `/cache` unless some volume of the
runner ends in it.  It looks at the last part of a specification, which is the mode if there
is one, while the manager compares destinations.
-/

namespace GitlabRunner.RegisterVolumes

open ByteText SlashPaths Volumes List

def cachePath : List UInt8 := ascii "/cache"

def lastPart (volume : List UInt8) : List UInt8 :=
  (volume.splitOn colon).getLastD []

def askDocker (volumes : List (List UInt8)) : List (List UInt8) :=
  if volumes.any fun volume => lastPart volume = cachePath then volumes
  else volumes ++ [cachePath]

/-- `createVolumes` of the executor.  The system answers its calls one after the other. -/
def createVolumes (hash : List UInt8 → List UInt8) (answers : Nat → Answers) (world : World) :
    List (List UInt8) → Option Error × World
  | [] => (none, world)
  | volume :: rest =>
    match world.create hash (answers 0) volume with
    | (none, world) | (some .cacheVolumesDisabled, world) =>
      createVolumes hash (fun call => answers (call + 1)) world rest
    | (some err, world) => (some err, world)

/-- No call failed because of the system: every cache container that was asked for has been
found or created, and the working directory was known. -/
def CreationSucceeds (result : Option Error) : Prop :=
  result ≠ some .docker ∧ result ≠ some .absolutePath

def MountedWithMode (volumes : List (List UInt8)) (path : List UInt8) : Prop :=
  ∃ spec ∈ volumes, ∃ volume, parseVolume spec = .ok volume ∧ volume.destination = path ∧
    volume.mode ≠ []

section Calls

variable {hash : List UInt8 → List UInt8} {answers : Answers} {name path : List UInt8}
  {world : World}

structure Gives (path : List UInt8) (before after : Manager) : Prop where
  config : after.config = before.config
  managed : after.managedVolumes = path :: before.managedVolumes
  mounted : after.mounted.Perm (path :: before.mounted)

/-- Where cache volumes are not disabled, a call mounts a volume at a new path, unless the
system fails, and refuses a path that it knows. -/
theorem gives_of_volumed {temporary : Bool} {result : Option Error × World}
    (volumed : Volumed hash path world false temporary result) :
    path ∈ world.manager.managedVolumes ∧ result.1 = some (.volumeAlreadyDefined path) ∨
      path ∉ world.manager.managedVolumes ∧
        (result.1 = none ∧ Gives path world.manager result.2.manager ∨
          ¬CreationSucceeds result.1) := by
  cases volumed with
  | disabled off => cases off
  | defined _ managed => exact .inl ⟨managed, rfl⟩
  | unresolved unmanaged => exact .inr ⟨unmanaged, .inr fun succeeds => succeeds.2 rfl⟩
  | bound unmanaged destination =>
    subst destination
    exact .inr ⟨unmanaged, .inl ⟨rfl, rfl, rfl, mounted_appendVolumeBind _⟩⟩
  | failed unmanaged => exact .inr ⟨unmanaged, .inr fun succeeds => succeeds.1 rfl⟩
  | @provided id after unmanaged provided =>
    obtain ⟨config, managed, mounted⟩ := provided.mounted_perm
    obtain ⟨sameConfig, sameManaged, sameMounted⟩ := @use_manager after temporary id
    exact .inr ⟨unmanaged, .inl ⟨rfl, sameConfig.trans config, sameManaged.trans managed,
      sameMounted ▸ mounted⟩⟩

variable {spec : List UInt8} {volume : Volume}

/-- A volume of the Linux parser has a destination from the root, which is kept. -/
theorem getAbsoluteContainerPath_of_parseVolume
    (accepted : parseVolume spec = .ok volume) (config : ManagerConfig) :
    World.getAbsoluteContainerPath config volume.destination = volume.destination := by
  have isDir := isLinuxDir_of_parseVolume accepted
  rw [World.getAbsoluteContainerPath, if_pos]
  cases destination : volume.destination with
  | nil => simp [destination, isLinuxDir] at isDir
  | cons char rest =>
    simp only [destination, isLinuxDir, Bool.and_eq_true, decide_eq_true_eq] at isDir
    simp [rooted, isDir.1]

theorem create_outcome (enabled : world.manager.config.disableCache = false)
    (accepted : parseVolume spec = .ok volume) :
    volume.destination ∈ world.manager.managedVolumes ∧
        (world.create hash answers spec).1 = some (.volumeAlreadyDefined volume.destination) ∨
      volume.destination ∉ world.manager.managedVolumes ∧
        ((world.create hash answers spec).1 = none ∧
          Gives volume.destination world.manager (world.create hash answers spec).2.manager ∨
          ¬CreationSucceeds (world.create hash answers spec).1) := by
  have absolute := getAbsoluteContainerPath_of_parseVolume accepted world.manager.config
  apply @gives_of_volumed hash _ _ false
  have volumed := @Call.volumed hash world (.create spec answers) volume.destination
    (by simp [Call.destination, accepted, absolute])
  simpa [Call.disabled, Call.temporary, Call.perform, accepted, enabled] using volumed

/-- A volume for a new path is mounted there, unless the system fails. -/
theorem create_gives
    (enabled : world.manager.config.disableCache = false) (accepted : parseVolume spec = .ok volume)
    (unmanaged : volume.destination ∉ world.manager.managedVolumes) :
    (world.create hash answers spec).1 = none ∧
        Gives volume.destination world.manager (world.create hash answers spec).2.manager ∨
      ¬CreationSucceeds (world.create hash answers spec).1 :=
  ((create_outcome enabled accepted).resolve_left fun known => unmanaged known.1).2

theorem create_managed
    (enabled : world.manager.config.disableCache = false) (accepted : parseVolume spec = .ok volume)
    (isManaged : volume.destination ∈ world.manager.managedVolumes) :
    (world.create hash answers spec).1 = some (.volumeAlreadyDefined volume.destination) :=
  ((create_outcome enabled accepted).resolve_right fun new => new.1 isManaged).2

/-- A call without an error skips an empty specification or mounts a volume. -/
theorem create_none (enabled : world.manager.config.disableCache = false)
    (works : (world.create hash answers spec).1 = none) :
    spec = [] ∧ (world.create hash answers spec).2 = world ∨
      ∃ volume, parseVolume spec = .ok volume ∧
        volume.destination ∉ world.manager.managedVolumes ∧
        Gives volume.destination world.manager (world.create hash answers spec).2.manager := by
  by_cases empty : spec = []
  · subst empty
    exact .inl ⟨rfl, rfl⟩
  cases accepted : parseVolume spec with
  | error err => simp [World.create, empty, accepted] at works
  | ok volume =>
    by_cases isManaged : volume.destination ∈ world.manager.managedVolumes
    · rw [create_managed enabled accepted isManaged] at works
      cases works
    · rcases create_gives enabled accepted isManaged with ⟨_, gives⟩ | failed
      · exact .inr ⟨volume, rfl, isManaged, gives⟩
      · exact absurd (by simp [works, CreationSucceeds]) failed

theorem create_enabled (enabled : world.manager.config.disableCache = false)
    (works : (world.create hash answers spec).1 = none) :
    (world.create hash answers spec).2.manager.config.disableCache = false := by
  rcases create_none enabled works with ⟨-, same⟩ | ⟨_, -, -, gives⟩
  · rw [same, enabled]
  · rw [gives.config, enabled]

theorem parseVolume_error {err : Error}
    (rejected : parseVolume spec = .error err) : err = .invalidVolumeSpec spec := by
  revert rejected
  fun_cases parseVolume spec with
  | case1 | case3 | case4 | case6 => rintro ⟨⟩
  | case2 | case5 | case7 | case8 =>
    rintro ⟨⟩
    rfl

theorem create_ne_disabled (enabled : world.manager.config.disableCache = false) :
    (world.create hash answers spec).1 ≠ some .cacheVolumesDisabled := by
  by_cases empty : spec = []
  · simp [World.create, empty]
  cases accepted : parseVolume spec with
  | error err => simp [World.create, empty, accepted, parseVolume_error accepted]
  | ok volume =>
    by_cases isManaged : volume.destination ∈ world.manager.managedVolumes
    · simp [create_managed enabled accepted isManaged]
    · rcases @create_gives hash answers world spec volume enabled accepted isManaged with
        ⟨works, -⟩ | failed
      · simp [works]
      · intro disabled
        exact failed (by simp [disabled, CreationSucceeds])

end Calls

def Wanted (volumes : List (List UInt8)) (path : List UInt8) : Prop :=
  ∃ spec ∈ volumes, ∃ volume, parseVolume spec = .ok volume ∧ volume.destination = path

variable {rest : List (List UInt8)}

theorem wanted_cons {spec : List UInt8} {path : List UInt8} :
    Wanted (spec :: rest) path ↔
      (∃ volume, parseVolume spec = .ok volume ∧ volume.destination = path) ∨ Wanted rest path := by
  simp [Wanted]

/-- What a run without errors says of the volumes and does to the manager. -/
structure Accepted (volumes : List (List UInt8)) (before after : Manager) : Prop where
  config : after.config = before.config
  managed : ∀ path, path ∈ after.managedVolumes ↔ path ∈ before.managedVolumes ∨ Wanted volumes path
  mounted : ∀ path, path ∈ after.mounted ↔ path ∈ before.mounted ∨ Wanted volumes path
  new : ∀ path, Wanted volumes path → path ∉ before.managedVolumes
  parsed : ∀ spec ∈ volumes, spec = [] ∨ ∃ volume, parseVolume spec = .ok volume
  unique : ∀ first ∈ volumes, ∀ second ∈ volumes, ∀ volume other,
    parseVolume first = .ok volume → parseVolume second = .ok other →
    volume.destination = other.destination → first = second

theorem Accepted.nil (manager : Manager) : Accepted [] manager manager := by
  constructor <;> simp [Wanted]

theorem Accepted.skip {before after : Manager}
    (accepted : Accepted rest before after) : Accepted ([] :: rest) before after := by
  have wanted : ∀ path, Wanted ([] :: rest) path ↔ Wanted rest path := by
    intro path
    rw [wanted_cons, or_iff_right]
    rintro ⟨volume, parsed, -⟩
    cases parsed
  refine ⟨accepted.config, ?_, ?_, ?_, ?_, ?_⟩
  · simpa only [wanted] using accepted.managed
  · simpa only [wanted] using accepted.mounted
  · simpa only [wanted] using accepted.new
  · simpa using accepted.parsed
  · intro first isFirst second isSecond volume other parsed parsedToo same
    rcases mem_cons.mp isFirst with rfl | earlier
    · cases parsed
    rcases mem_cons.mp isSecond with rfl | later
    · cases parsedToo
    exact accepted.unique first earlier second later volume other parsed parsedToo same

theorem Accepted.give {spec : List UInt8} {volume : Volume}
    {before middle after : Manager} (parsed : parseVolume spec = .ok volume)
    (unmanaged : volume.destination ∉ before.managedVolumes)
    (gives : Gives volume.destination before middle) (accepted : Accepted rest middle after) :
    Accepted (spec :: rest) before after := by
  have wanted : ∀ path, Wanted (spec :: rest) path ↔
      path = volume.destination ∨ Wanted rest path := by
    intro path
    simp [wanted_cons, parsed, eq_comm]
  have managed : ∀ path, path ∈ middle.managedVolumes ↔
      path = volume.destination ∨ path ∈ before.managedVolumes := by
    simp [gives.managed]
  have fresh : ∀ second ∈ rest, ∀ other, parseVolume second = .ok other →
      volume.destination ≠ other.destination := by
    intro second isSecond other parsedToo same
    exact accepted.new _ ⟨second, isSecond, other, parsedToo, rfl⟩
      ((managed _).mpr (.inl same.symm))
  refine ⟨accepted.config.trans gives.config, ?_, ?_, ?_, ?_, ?_⟩
  · intro path
    rw [accepted.managed, managed, wanted, or_assoc, or_left_comm]
  · intro path
    rw [accepted.mounted, gives.mounted.mem_iff, mem_cons, wanted, or_assoc, or_left_comm]
  · intro path isWanted
    rcases (wanted path).mp isWanted with rfl | later
    · exact unmanaged
    · exact fun isManaged => accepted.new path later ((managed path).mpr (.inr isManaged))
  · intro other member
    rcases mem_cons.mp member with rfl | later
    · exact .inr ⟨volume, parsed⟩
    · exact accepted.parsed other later
  · intro first isFirst second isSecond one other parsedOne parsedOther same
    rcases mem_cons.mp isFirst with rfl | earlier
    · rcases mem_cons.mp isSecond with rfl | later
      · rfl
      · cases parsed.symm.trans parsedOne
        exact absurd same (fresh second later other parsedOther)
    · rcases mem_cons.mp isSecond with rfl | later
      · cases parsed.symm.trans parsedOther
        exact absurd same.symm (fresh first earlier one parsedOne)
      · exact accepted.unique first earlier second later one other parsedOne parsedOther same

variable {volumes : List (List UInt8)}

section Runs

variable {hash : List UInt8 → List UInt8} {answers : Nat → Answers} {world : World}

theorem createVolumes_cons
    (enabled : world.manager.config.disableCache = false) (volume : List UInt8)
    (rest : List (List UInt8)) :
    createVolumes hash answers world (volume :: rest) =
      if (world.create hash (answers 0) volume).1 = none then
        createVolumes hash (fun call => answers (call + 1))
          (world.create hash (answers 0) volume).2 rest
      else world.create hash (answers 0) volume := by
  have tolerated := @create_ne_disabled hash (answers 0) world volume enabled
  rw [createVolumes]
  split
  · rename_i created
    simp [created]
  · rename_i created
    simp [created] at tolerated
  · rename_i created
    simp [created]

theorem createVolumes_accepted (enabled : world.manager.config.disableCache = false)
    (works : (createVolumes hash answers world volumes).1 = none) :
    Accepted volumes world.manager (createVolumes hash answers world volumes).2.manager := by
  induction volumes generalizing answers world with
  | nil => exact .nil _
  | cons volume rest ih =>
    rw [createVolumes_cons enabled] at works ⊢
    split at works
    · rename_i created
      rw [if_pos created]
      have ran := ih (create_enabled enabled created) works
      rcases create_none enabled created with ⟨rfl, same⟩ | ⟨parsed, accepted, unmanaged, gives⟩
      · rw [same] at ran ⊢
        exact ran.skip
      · exact .give accepted unmanaged gives ran
    · contradiction

theorem createVolumes_append (enabled : world.manager.config.disableCache = false)
    (works : (createVolumes hash answers world volumes).1 = none) (last : List UInt8) :
    createVolumes hash answers world (volumes ++ [last]) =
      (createVolumes hash answers world volumes).2.create hash (answers volumes.length) last := by
  induction volumes generalizing answers world with
  | nil =>
    rw [nil_append, createVolumes_cons enabled]
    split
    · rename_i created
      exact Prod.ext created.symm rfl
    · rfl
  | cons volume rest ih =>
    rw [cons_append, createVolumes_cons enabled]
    rw [createVolumes_cons enabled] at works ⊢
    split at works
    · rename_i created
      rw [if_pos created, if_pos created]
      exact ih (create_enabled enabled created) works
    · contradiction

end Runs

/-- The last part of a specification is the mode if there is one. -/
theorem lastPart_of_parseVolume {spec : List UInt8} {volume : Volume}
    (accepted : parseVolume spec = .ok volume) :
    lastPart spec = (if volume.mode = [] then volume.destination else volume.mode) ∧
      (volume.mode = [] ∨ isLinuxMode volume.mode = true) := by
  have nonempty : ∀ mode, isLinuxMode mode = true → mode ≠ [] := by
    rintro _ isMode rfl
    exact absurd isMode (by decide)
  revert accepted
  unfold lastPart
  fun_cases parseVolume spec with
  | case1 _ parts | case3 _ _ parts =>
    rintro ⟨⟩
    simp [parts]
  | case4 _ _ parts _ both =>
    rintro ⟨⟩
    have isMode := (Bool.and_eq_true_iff.mp both).2
    simp [parts, isMode, nonempty _ isMode]
  | case6 _ _ _ parts all =>
    rintro ⟨⟩
    have isMode := (Bool.and_eq_true_iff.mp all).2
    simp [parts, isMode, nonempty _ isMode]
  | case2 | case5 | case7 | case8 => rintro ⟨⟩

/-- An accepted specification ends in `/cache` exactly if that is its destination and it has
no mode. -/
theorem lastPart_eq_cachePath {spec : List UInt8} {volume : Volume}
    (accepted : parseVolume spec = .ok volume) :
    lastPart spec = cachePath ↔ volume.destination = cachePath ∧ volume.mode = [] := by
  obtain ⟨last, mode⟩ := lastPart_of_parseVolume accepted
  rw [last]
  split
  · simp_all
  · rename_i hasMode
    have isMode := mode.resolve_left hasMode
    refine iff_of_false ?_ (by simp [hasMode])
    intro same
    rw [same] at isMode
    exact absurd isMode (by decide)

/-- A volume that ends in `/cache` is mounted there, and no other volume is. -/
theorem wanted_of_lastPart {before after : Manager} (accepted : Accepted volumes before after)
    (ends : ∃ spec ∈ volumes, lastPart spec = cachePath) :
    Wanted volumes cachePath ∧ ¬MountedWithMode volumes cachePath := by
  obtain ⟨spec, member, last⟩ := ends
  have nonempty : spec ≠ [] := by
    rintro rfl
    exact absurd last (by decide)
  obtain ⟨volume, parsed⟩ := (accepted.parsed spec member).resolve_left nonempty
  obtain ⟨destination, noMode⟩ := (lastPart_eq_cachePath parsed).mp last
  refine ⟨⟨spec, member, volume, parsed, destination⟩, ?_⟩
  rintro ⟨second, isSecond, other, parsedToo, sameDestination, hasMode⟩
  obtain rfl := accepted.unique spec member second isSecond volume other parsed parsedToo
    (destination.trans sameDestination.symm)
  cases parsed.symm.trans parsedToo
  exact hasMode noMode

/-- If no volume ends in `/cache`, a volume that is mounted there has a mode. -/
theorem mountedWithMode_iff
    (noEnd : ¬∃ spec ∈ volumes, lastPart spec = cachePath) :
    MountedWithMode volumes cachePath ↔ Wanted volumes cachePath := by
  constructor
  · rintro ⟨spec, member, volume, parsed, destination, -⟩
    exact ⟨spec, member, volume, parsed, destination⟩
  · rintro ⟨spec, member, volume, parsed, destination⟩
    refine ⟨spec, member, volume, parsed, destination, ?_⟩
    intro noMode
    exact noEnd ⟨spec, member, (lastPart_eq_cachePath parsed).mpr ⟨destination, noMode⟩⟩

theorem parseVolume_cachePath : parseVolume cachePath = .ok ⟨[], cachePath, []⟩ := by
  rfl

/-- What registration leaves of an accepted list of volumes is accepted and mounts
something at `/cache` exactly if no volume was mounted there with a mode. -/
theorem askDocker_usable_iff (hash : List UInt8 → List UInt8) (answers : Nat → Answers)
    (host : Host) (config : ManagerConfig) (volumes : List (List UInt8))
    (enabled : config.disableCache = false)
    (accepted : (createVolumes hash answers (.initial host config) volumes).1 = none)
    (creates : CreationSucceeds
      (createVolumes hash answers (.initial host config) (askDocker volumes)).1) :
    ((createVolumes hash answers (.initial host config) (askDocker volumes)).1 = none ∧
      cachePath ∈
        (createVolumes hash answers (.initial host config) (askDocker volumes)).2.manager.mounted) ↔
      ¬MountedWithMode volumes cachePath := by
  have ran := createVolumes_accepted enabled accepted
  by_cases ends : ∃ spec ∈ volumes, lastPart spec = cachePath
  · rw [askDocker, if_pos (by simpa using ends)]
    obtain ⟨isWanted, noMode⟩ := wanted_of_lastPart ran ends
    exact iff_of_true ⟨accepted, (ran.mounted _).mpr (.inr isWanted)⟩ noMode
  · have added : askDocker volumes = volumes ++ [cachePath] := by
      rw [askDocker, if_neg (by simpa using ends)]
    rw [added, createVolumes_append enabled accepted] at creates ⊢
    have stillEnabled := (congrArg ManagerConfig.disableCache ran.config).trans enabled
    have managed := (ran.managed cachePath).trans (or_iff_right not_mem_nil)
    rw [mountedWithMode_iff ends, ← managed]
    by_cases isManaged : cachePath ∈
        (createVolumes hash answers (.initial host config) volumes).2.manager.managedVolumes
    · have refused := @create_managed hash (answers volumes.length) _ _ _ stillEnabled
        parseVolume_cachePath isManaged
      simp [refused, isManaged]
    · rcases create_gives stillEnabled parseVolume_cachePath isManaged with ⟨works, gives⟩ | failed
      · exact iff_of_true ⟨works, gives.mounted.mem_iff.mpr mem_cons_self⟩ isManaged
      · exact absurd creates failed

/-- A runner with a volume for its data gets `/cache` too. -/
theorem askDocker_usable_for_data :
    ((createVolumes id (fun _ => smoothly) (.initial emptyHost projectConfig)
        (askDocker [ascii "/host:/data:rw"])).1 = none ∧
      cachePath ∈ (createVolumes id (fun _ => smoothly) (.initial emptyHost projectConfig)
        (askDocker [ascii "/host:/data:rw"])).2.manager.mounted) ↔
      ¬MountedWithMode [ascii "/host:/data:rw"] cachePath :=
  askDocker_usable_iff id (fun _ => smoothly) emptyHost projectConfig [ascii "/host:/data:rw"]
    rfl (by decide) ⟨by decide, by decide⟩

/-- A volume at `/cache` with a mode is accepted, and is refused after registration. -/
theorem askDocker_refused_after_mode : ¬∀ (hash : List UInt8 → List UInt8) (answers : Nat → Answers)
    (host : Host) (config : ManagerConfig) (volumes : List (List UInt8)),
    config.disableCache = false →
    (createVolumes hash answers (.initial host config) volumes).1 = none →
    CreationSucceeds (createVolumes hash answers (.initial host config) (askDocker volumes)).1 →
    (createVolumes hash answers (.initial host config) (askDocker volumes)).1 = none ∧
      cachePath ∈ (createVolumes hash answers (.initial host config)
          (askDocker volumes)).2.manager.mounted := by
  intro usable
  have works := (usable id (fun _ => smoothly) emptyHost projectConfig [ascii "/host:/cache:ro"] rfl
    (by decide) ⟨by decide, by decide⟩).1
  revert works
  decide

end GitlabRunner.RegisterVolumes
