import Mathlib.Data.List.Nodup
import GitlabRunner.VolumesManager

/-!
# One mount per path

The manager keeps the paths of its volumes as they were written and refuses one that it
knows.  As long as a path is not written in two ways, such as `/a` and `/a/`, no two volumes
are mounted at one path.
-/

namespace GitlabRunner.Volumes

open ByteText SlashPaths List

/-- The paths at which something is mounted: the destinations of the bindings and the
paths of the cache containers. -/
def Manager.mounted (manager : Manager) : List (List UInt8) :=
  manager.volumeBindings.map Volume.destination ++
    manager.cacheContainers.map CacheContainer.path

inductive Call where
  | create (spec : List UInt8) (answers : Answers)
  | createTemporary (containerPath : List UInt8) (answers : Answers)

def Call.perform (hash : List UInt8 → List UInt8) (world : World) :
    Call → Option Error × World
  | .create spec answers => world.create hash answers spec
  | .createTemporary containerPath answers =>
    world.createTemporary hash answers containerPath

def performAll (hash : List UInt8 → List UInt8) (world : World) (calls : List Call) : World :=
  calls.foldl (fun world call => (call.perform hash world).2) world

/-- The absolute path that a call asks for, if its specification is accepted. -/
def Call.destination (config : ManagerConfig) : Call → Option (List UInt8)
  | .create spec _ =>
    match parseVolume spec with
    | .ok volume => some (World.getAbsoluteContainerPath config volume.destination)
    | .error _ => none
  | .createTemporary containerPath _ =>
    some (World.getAbsoluteContainerPath config containerPath)

/-- The call asks for a cache volume while these are disabled. -/
def Call.disabled (config : ManagerConfig) : Call → Bool
  | .create spec _ =>
    match parseVolume spec with
    | .ok volume => volume.source = [] && config.disableCache
    | .error _ => false
  | .createTemporary _ _ => false

def destinations (config : ManagerConfig) (calls : List Call) : List (List UInt8) :=
  calls.filterMap (Call.destination config)

def OneSpelling (config : ManagerConfig) (calls : List Call) : Prop :=
  ∀ first ∈ destinations config calls, ∀ second ∈ destinations config calls,
    clean first = clean second → first = second

instance (config : ManagerConfig) (calls : List Call) : Decidable (OneSpelling config calls) :=
  inferInstanceAs (Decidable (∀ first ∈ destinations config calls, ∀ second ∈ _, _ → _))

structure Mounting (path : List UInt8) (before after : Manager) : Prop where
  config : after.config = before.config
  managed : after.managedVolumes ⊆ path :: before.managedVolumes
  mounted : after.mounted = before.mounted ∧ before.managedVolumes ⊆ after.managedVolumes ∨
    path ∉ before.managedVolumes ∧ path :: before.managedVolumes ⊆ after.managedVolumes ∧
      after.mounted.Perm (path :: before.mounted)

theorem Mounting.refl (path : List UInt8) (manager : Manager) : Mounting path manager manager :=
  ⟨rfl, subset_cons_self _ _, .inl ⟨rfl, List.Subset.refl _⟩⟩

section Calls

variable {hash : List UInt8 → List UInt8} {answers : Answers} {name path : List UInt8}
  {world : World}

/-- The paths of a manager after it has got one more volume, which is mounted at the path
or failed. -/
theorem mounting_of_managed {before after : Manager}
    (unmanaged : path ∉ before.managedVolumes) (config : after.config = before.config)
    (managed : after.managedVolumes = path :: before.managedVolumes)
    (mounted : after.mounted = before.mounted ∨ after.mounted.Perm (path :: before.mounted)) :
    Mounting path before after where
  config := config
  managed := managed ▸ List.Subset.refl _
  mounted := by
    rcases mounted with same | new
    · exact .inl ⟨same, managed ▸ subset_cons_self _ _⟩
    · exact .inr ⟨unmanaged, managed ▸ List.Subset.refl _, new⟩

theorem mounted_appendVolumeBind (volume : Volume) :
    (world.appendVolumeBind volume).manager.mounted.Perm
      (volume.destination :: world.manager.mounted) := by
  simp only [Manager.mounted, World.appendVolumeBind, map_append, map_cons,
    map_nil, append_assoc, singleton_append]
  exact perm_middle

theorem mounted_appendCacheContainer (id : Nat) :
    (world.appendCacheContainer id path).manager.mounted.Perm (path :: world.manager.mounted) := by
  simp only [Manager.mounted, World.appendCacheContainer, map_append, map_cons,
    map_nil, ← append_assoc]
  exact perm_append_singleton _ _

theorem Provided.mounted_perm {id : Nat} {after : World}
    (provided : Provided name path world (.ok id, after)) :
    after.manager.config = world.manager.config ∧
      after.manager.managedVolumes = world.manager.managedVolumes ∧
      after.manager.mounted.Perm (path :: world.manager.mounted) := by
  cases provided with
  | found | made => exact ⟨rfl, rfl, mounted_appendCacheContainer _⟩

theorem use_manager (temporary : Bool) (id : Nat) :
    (world.use temporary id).manager.config = world.manager.config ∧
      (world.use temporary id).manager.managedVolumes = world.manager.managedVolumes ∧
      (world.use temporary id).manager.mounted = world.manager.mounted := by
  cases temporary with
  | false | true => exact ⟨rfl, rfl, rfl⟩

theorem Volumed.mounting {disabled temporary : Bool} {result : Option Error × World}
    (volumed : Volumed hash path world disabled temporary result) :
    Mounting path world.manager result.2.manager := by
  cases volumed with
  | disabled | defined => exact .refl _ _
  | unresolved unmanaged => exact mounting_of_managed unmanaged rfl rfl (.inl rfl)
  | bound unmanaged destination =>
    subst destination
    exact mounting_of_managed unmanaged rfl rfl (.inr (mounted_appendVolumeBind _))
  | failed unmanaged provided =>
    cases provided with
    | failed within created =>
      cases created with
      | refused | left | failed => exact mounting_of_managed unmanaged rfl rfl (.inl rfl)
  | @provided id after unmanaged provided =>
    obtain ⟨config, managed, mounted⟩ := provided.mounted_perm
    obtain ⟨sameConfig, sameManaged, sameMounted⟩ := @use_manager after temporary id
    exact mounting_of_managed unmanaged (sameConfig.trans config) (sameManaged.trans managed)
      (.inr (sameMounted ▸ mounted))

/-- The destination of an accepted specification is a path from the root. -/
theorem isLinuxDir_of_parseVolume {spec : List UInt8} {volume : Volume}
    (accepted : parseVolume spec = .ok volume) : isLinuxDir volume.destination = true := by
  revert accepted
  fun_cases parseVolume spec with
  | case1 _ _ isDir =>
    rintro ⟨⟩
    exact isDir
  | case3 _ _ _ both =>
    rintro ⟨⟩
    exact (Bool.and_eq_true_iff.mp both).2
  | case4 _ _ _ _ both =>
    rintro ⟨⟩
    exact (Bool.and_eq_true_iff.mp both).1
  | case6 _ _ _ _ all =>
    rintro ⟨⟩
    exact (Bool.and_eq_true_iff.mp (Bool.and_eq_true_iff.mp all).1).2
  | case2 | case5 | case7 | case8 => nofun

theorem create_of_parseVolume {spec : List UInt8} {volume : Volume}
    (accepted : parseVolume spec = .ok volume) :
    world.create hash answers spec =
      if volume.source = [] then world.addCacheVolume hash answers volume
      else world.addHostVolume volume := by
  have nonempty : spec ≠ [] := by
    rintro rfl
    cases accepted
  have hasDestination : volume.destination ≠ [] := by
    intro empty
    have isDir := isLinuxDir_of_parseVolume accepted
    rw [empty] at isDir
    cases isDir
  rw [World.create, if_neg nonempty, accepted]
  by_cases noSource : volume.source = []
  · simp [Volume.len, noSource, hasDestination]
  · simp [Volume.len, noSource, hasDestination]

end Calls

section Perform

variable {hash : List UInt8 → List UInt8} {world : World} {call : Call}

theorem perform_of_none (noPath : call.destination world.manager.config = none) :
    (call.perform hash world).2 = world := by
  cases call with
  | create spec answers =>
    unfold Call.destination at noPath
    dsimp only at noPath
    split at noPath
    · cases noPath
    · rename_i err rejected
      change (world.create hash answers spec).2 = world
      unfold World.create
      split
      · rfl
      · rw [rejected]
  | createTemporary containerPath answers => cases noPath

def Call.temporary : Call → Bool
  | .create _ _ => false
  | .createTemporary _ _ => true

variable {path : List UInt8}

theorem Call.volumed (asked : call.destination world.manager.config = some path) :
    Volumed hash path world (call.disabled world.manager.config) call.temporary
      (call.perform hash world) := by
  cases call with
  | create spec answers =>
    simp only [Call.destination, Call.disabled, Call.temporary, Call.perform] at asked ⊢
    cases accepted : parseVolume spec with
    | error err =>
      rw [accepted] at asked
      cases asked
    | ok volume =>
      rw [accepted] at asked
      cases asked
      rw [create_of_parseVolume accepted]
      by_cases noSource : volume.source = []
      · simpa [noSource] using volumed_addCacheVolume volume
      · simpa [noSource] using volumed_addHostVolume volume
  | createTemporary containerPath answers =>
    cases asked
    exact volumed_createTemporary

theorem perform_managed (asked : call.destination world.manager.config = some path)
    (isManaged : path ∈ world.manager.managedVolumes) :
    (call.perform hash world).1 =
      some (if call.disabled world.manager.config then .cacheVolumesDisabled
        else .volumeAlreadyDefined path) := by
  have volumed := @Call.volumed hash world call path asked
  generalize call.perform hash world = result at volumed ⊢
  cases volumed with
  | disabled off => rw [if_pos off]
  | defined on => rw [on]; rfl
  | unresolved unmanaged | bound unmanaged _ | failed unmanaged _ | provided unmanaged _ =>
    exact absurd isManaged unmanaged

/-- What holds of a manager whose calls ask for some paths: it knows only these, what is
mounted is known, and nothing is mounted twice. -/
structure Tidy (config : ManagerConfig) (paths : List (List UInt8)) (manager : Manager) :
    Prop where
  config : manager.config = config
  managed : manager.managedVolumes ⊆ paths
  mounted : manager.mounted ⊆ manager.managedVolumes
  nodup : manager.mounted.Nodup

variable {config : ManagerConfig} {paths : List (List UInt8)}

theorem Tidy.mounting {before after : Manager}
    (tidy : Tidy config paths before) (listed : path ∈ paths)
    (mounting : Mounting path before after) : Tidy config paths after where
  config := mounting.config.trans tidy.config
  managed := List.Subset.trans mounting.managed (cons_subset.mpr ⟨listed, tidy.managed⟩)
  mounted := by
    rcases mounting.mounted with ⟨same, kept⟩ | ⟨-, kept, new⟩
    · rw [same]
      exact List.Subset.trans tidy.mounted kept
    · have known := cons_subset_cons path tidy.mounted
      exact List.Subset.trans new.subset (List.Subset.trans known kept)
  nodup := by
    rcases mounting.mounted with ⟨same, -⟩ | ⟨unmanaged, -, new⟩
    · rw [same]
      exact tidy.nodup
    · rw [new.nodup_iff]
      exact nodup_cons.mpr ⟨fun member => unmanaged (tidy.mounted member), tidy.nodup⟩

theorem Tidy.perform (tidy : Tidy config paths world.manager)
    (listed : ∀ path, call.destination config = some path → path ∈ paths) :
    Tidy config paths (call.perform hash world).2.manager := by
  rw [← tidy.config] at listed
  cases asked : call.destination world.manager.config with
  | none =>
    rw [perform_of_none asked]
    exact tidy
  | some path => exact tidy.mounting (listed path asked) (Call.volumed asked).mounting

theorem mem_destinations {calls : List Call} (member : call ∈ calls)
    (asked : call.destination config = some path) : path ∈ destinations config calls :=
  mem_filterMap.mpr ⟨call, member, asked⟩

theorem Tidy.performAll {calls : List Call} (tidy : Tidy config paths world.manager)
    (listed : destinations config calls ⊆ paths) :
    Tidy config paths (performAll hash world calls).manager := by
  induction calls generalizing world with
  | nil => exact tidy
  | cons call calls ih =>
    apply ih
    · apply tidy.perform
      intro path asked
      exact listed (mem_destinations mem_cons_self asked)
    · intro path member
      obtain ⟨later, isLater, asked⟩ := mem_filterMap.mp member
      exact listed (mem_destinations (mem_cons_of_mem _ isLater) asked)

end Perform

/-- For calls that write no path in two ways, the paths at which something is mounted
differ when they are cleaned, and a call for a mounted path is refused: as disabled if it
asks for a cache volume while these are disabled, and else as already defined. -/
theorem one_mount_per_path (hash : List UInt8 → List UInt8) (host : Host)
    (config : ManagerConfig) (calls : List Call) (oneSpelling : OneSpelling config calls) :
    ((performAll hash (.initial host config) calls).manager.mounted.map clean).Nodup ∧
      ∀ earlier call later path, calls = earlier ++ call :: later →
        call.destination config = some path →
        clean path ∈ (performAll hash (.initial host config) earlier).manager.mounted.map clean →
        (call.perform hash (performAll hash (.initial host config) earlier)).1 =
          some (if call.disabled config then .cacheVolumesDisabled
            else .volumeAlreadyDefined path) := by
  have tidyAfter : ∀ done, destinations config done ⊆ destinations config calls →
      Tidy config (destinations config calls)
        (performAll hash (.initial host config) done).manager := by
    intro done listed
    have tidy : Tidy config (destinations config calls) (newManager config) :=
      ⟨rfl, nil_subset _, nil_subset _, nodup_nil⟩
    exact tidy.performAll listed
  constructor
  · have tidy := tidyAfter calls (List.Subset.refl _)
    refine List.Nodup.map_on ?_ tidy.nodup
    intro path isMounted other otherMounted same
    exact oneSpelling path (tidy.managed (tidy.mounted isMounted)) other
      (tidy.managed (tidy.mounted otherMounted)) same
  · rintro earlier call later path rfl asked isMounted
    have tidy := tidyAfter earlier (by
      intro done member
      obtain ⟨call, isEarlier, asked⟩ := mem_filterMap.mp member
      exact mem_destinations (mem_append_left _ isEarlier) asked)
    obtain ⟨mountedPath, member, same⟩ := mem_map.mp isMounted
    have known : mountedPath = path := by
      apply oneSpelling mountedPath (tidy.managed (tidy.mounted member)) path _ same
      exact mem_destinations (mem_append_right _ mem_cons_self) asked
    rw [known] at member
    have refused := @perform_managed hash _ call path (by rw [tidy.config]; exact asked)
      (tidy.mounted member)
    rw [tidy.config] at refused
    exact refused

def threeVolumes : List Call :=
  [.create (ascii "/srv/data:/data:ro") smoothly, .create (ascii "/cache") smoothly,
    .createTemporary (ascii "group") smoothly]

theorem one_mount_of_three_volumes :
    (performAll id (.initial emptyHost projectConfig) threeVolumes).manager.mounted =
        [ascii "/data", ascii "/cache", ascii "/builds/group"] ∧
      ((Call.create (ascii "/srv/cache:/cache") smoothly).perform id
        (performAll id (.initial emptyHost projectConfig) threeVolumes)).1 =
          some (.volumeAlreadyDefined (ascii "/cache")) := by
  refine ⟨by decide +kernel, ?_⟩
  exact (one_mount_per_path id emptyHost projectConfig
    (threeVolumes ++ [.create (ascii "/srv/cache:/cache") smoothly])
    (by decide +kernel)).2 threeVolumes _ [] (ascii "/cache") rfl (by decide +kernel)
    (by decide +kernel)

/-- While cache volumes are disabled, one for a mounted path is refused for that
reason. -/
theorem mounted_cache_volume_disabled :
    ¬∀ (hash : List UInt8 → List UInt8) (host : Host) (config : ManagerConfig) (calls : List Call),
      ((performAll hash (.initial host config) calls).manager.mounted.map clean).Nodup ∧
        ∀ earlier call later path, calls = earlier ++ call :: later →
          call.destination config = some path →
          clean path ∈ (performAll hash (.initial host config) earlier).manager.mounted.map clean →
          (call.perform hash (performAll hash (.initial host config) earlier)).1 =
            some (.volumeAlreadyDefined path) := by
  intro refused
  have answer := (refused id emptyHost { projectConfig with disableCache := true }
    [.create (ascii "/srv/cache:/cache") smoothly, .create (ascii "/cache") smoothly]).2
    [.create (ascii "/srv/cache:/cache") smoothly] (.create (ascii "/cache") smoothly) []
    (ascii "/cache") rfl (by decide +kernel) (by decide +kernel)
  exact absurd answer (by decide +kernel)

end GitlabRunner.Volumes
