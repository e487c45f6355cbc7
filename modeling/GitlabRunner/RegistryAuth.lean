import GitlabRunner.GoStrings

/-!
# The credentials of a registry

`helpers/docker/auth_config.go` looks for the credentials of an image in maps whose keys are
URLs of registries.  `ResolveDockerAuthConfig` reduces each key to its host and returns the
first hit of an iteration over the map.
-/

namespace GitlabRunner.RegistryAuth

open ByteText GoStrings List

def slash : UInt8 := byte '/'

def defaultDockerRegistry : List UInt8 := ascii "docker.io"

def indexDockerRegistry : List UInt8 := ascii "index." ++ defaultDockerRegistry

/-- `index.docker.io` counts as `docker.io`. -/
def canonical (host : List UInt8) : List UInt8 :=
  if host = indexDockerRegistry then defaultDockerRegistry else host

def splitDockerImageName (reposName : List UInt8) : List UInt8 × List UInt8 :=
  match splitTwo reposName slash with
  | [first, rest] =>
    if !first.contains (byte '.') && !first.contains (byte ':') && first != ascii "localhost" then
      (canonical defaultDockerRegistry, reposName)
    else (canonical first, rest)
  | _ => (canonical defaultDockerRegistry, reposName)

def stripScheme (url : List UInt8) : List UInt8 :=
  if startsWith url (ascii "http://") then url.drop 7
  else if startsWith url (ascii "https://") then url.drop 8
  else url

def convertToHostname (url : List UInt8) : List UInt8 :=
  canonical ((splitTwo (stripScheme url) slash).headD [])

section Maps

variable {α : Type}

structure AuthConfigs (α : Type) where
  entries : List (List UInt8 × α)
  distinct : (entries.map Prod.fst).Nodup

/-- The first hit of an iteration over the entries of a map. -/
def resolveDockerAuthConfig (indexName : List UInt8) (order : List (List UInt8 × α)) : Option α :=
  (order.find? fun entry => indexName = convertToHostname entry.1).map Prod.snd

def AuthConfigs.set (configs : AuthConfigs α) (key : List UInt8) (value : α) : AuthConfigs α where
  entries := (key, value) :: configs.entries.filter fun entry => entry.1 != key
  distinct := by
    rw [map_cons, nodup_cons]
    constructor
    · simp
    · exact configs.distinct.sublist (filter_sublist.map Prod.fst)

end Maps

structure AuthConfig where
  username : List UInt8
  password : List UInt8
  serverAddress : List UInt8
  deriving DecidableEq, Repr

structure Credentials where
  type : List UInt8
  url : List UInt8
  username : List UInt8
  password : List UInt8
  deriving DecidableEq, Repr

/-- The map that `getBuildAuthConfiguration` makes of the credentials of a job. -/
def buildAuthConfigs (credentials : List Credentials) : AuthConfigs AuthConfig :=
  credentials.foldl (fun configs entry =>
    if entry.type = ascii "registry" then
      configs.set entry.url ⟨entry.username, entry.password, entry.url⟩
    else configs) ⟨[], nodup_nil⟩

/-- `authority` stands at the front of a URL without a scheme. -/
def HasAuthority (url authority : List UInt8) : Prop :=
  slash ∉ authority ∧ (url = authority ∨ ∃ path, url = authority ++ slash :: path)

/-- A key is a host, with or without a scheme in front and a path behind it. -/
def KeyHost (key host : List UInt8) : Prop :=
  ∃ url authority, HasAuthority url authority ∧ canonical authority = host ∧
    (key = ascii "http://" ++ url ∨ key = ascii "https://" ++ url ∨
      key = url ∧ ¬ascii "http://" <+: key ∧ ¬ascii "https://" <+: key)

/-- The first part of an image's name that is the name of a registry. -/
def NamesRegistry (first : List UInt8) : Prop :=
  byte '.' ∈ first ∨ byte ':' ∈ first ∨ first = ascii "localhost"

/-- The registry of an image: its first part, if that names one. -/
def ImageRegistry (image registry : List UInt8) : Prop :=
  (∃ first rest, image = first ++ slash :: rest ∧ slash ∉ first ∧ NamesRegistry first ∧
      registry = canonical first) ∨
    (∀ first rest, image = first ++ slash :: rest → slash ∉ first → ¬NamesRegistry first) ∧
      registry = defaultDockerRegistry

theorem hasAuthority_iff (url authority : List UInt8) :
    HasAuthority url authority ↔ (splitTwo url slash).headD [] = authority := by
  rcases splitTwo_cases url slash with ⟨missing, split⟩ | ⟨first, rest, rfl, missing, split⟩
  · rw [split, headD_cons]
    constructor
    · rintro ⟨-, same | ⟨path, same⟩⟩
      · exact same
      · rw [same] at missing
        simp at missing
    · rintro rfl
      exact ⟨missing, .inl rfl⟩
  · rw [split, headD_cons]
    constructor
    · rintro ⟨noSlash, same | ⟨path, same⟩⟩
      · rw [← same] at noSlash
        simp at noSlash
      · exact (append_cons_inj_first missing noSlash same).1
    · rintro rfl
      exact ⟨missing, .inr ⟨rest, rfl⟩⟩

theorem stripScheme_eq_iff (key url : List UInt8) :
    stripScheme key = url ↔ key = ascii "http://" ++ url ∨ key = ascii "https://" ++ url ∨
      key = url ∧ ¬ascii "http://" <+: key ∧ ¬ascii "https://" <+: key := by
  by_cases http : ascii "http://" <+: key
  · obtain ⟨rest, rfl⟩ := http
    simp [stripScheme, startsWith, ascii, byte]
  · by_cases https : ascii "https://" <+: key
    · obtain ⟨rest, rfl⟩ := https
      simp [stripScheme, startsWith, ascii, byte]
    · have noHttp : key ≠ ascii "http://" ++ url := fun same => http ⟨url, same.symm⟩
      have noHttps : key ≠ ascii "https://" ++ url := fun same => https ⟨url, same.symm⟩
      simp [stripScheme, startsWith, http, https, noHttp, noHttps]

theorem keyHost_iff (key host : List UInt8) : KeyHost key host ↔ convertToHostname key = host := by
  simp only [KeyHost, ← stripScheme_eq_iff, hasAuthority_iff, convertToHostname]
  constructor
  · rintro ⟨url, authority, rfl, isHost, rfl⟩
    exact isHost
  · intro isHost
    exact ⟨_, _, rfl, isHost, rfl⟩

theorem canonical_default : canonical defaultDockerRegistry = defaultDockerRegistry := by
  decide

theorem imageRegistry_iff (image registry : List UInt8) :
    ImageRegistry image registry ↔ (splitDockerImageName image).1 = registry := by
  unfold ImageRegistry splitDockerImageName
  rcases splitTwo_cases image slash with ⟨missing, split⟩ | ⟨first, rest, rfl, missing, split⟩
  · have noFirst : ∀ first rest, image ≠ first ++ slash :: rest := by
      rintro first rest rfl
      simp at missing
    rw [split]
    simp [noFirst, canonical_default, eq_comm]
  · have only : ∀ other behind, first ++ slash :: rest = other ++ slash :: behind →
        slash ∉ other → first = other := by
      intro other behind same noSlash
      exact (append_cons_inj_first missing noSlash same).1
    have unnamed : (!first.contains (byte '.') && !first.contains (byte ':') &&
        first != ascii "localhost") = true ↔ ¬NamesRegistry first := by
      simp [NamesRegistry, and_assoc]
    rw [split]
    dsimp only
    by_cases names : NamesRegistry first
    · rw [if_neg (by rw [unnamed, not_not]; exact names)]
      constructor
      · rintro (⟨other, behind, same, noSlash, -, rfl⟩ | ⟨none, -⟩)
        · rw [only other behind same noSlash]
        · exact (none first rest rfl missing names).elim
      · rintro rfl
        exact .inl ⟨first, rest, rfl, missing, names, rfl⟩
    · rw [if_pos (unnamed.mpr names), canonical_default]
      constructor
      · rintro (⟨other, behind, same, noSlash, otherNames, -⟩ | ⟨-, rfl⟩)
        · rw [← only other behind same noSlash] at otherNames
          exact (names otherNames).elim
        · rfl
      · rintro rfl
        refine .inr ⟨?_, rfl⟩
        intro other behind same noSlash
        rw [← only other behind same noSlash]
        exact names

section Choice

variable {α : Type}

/-- The credentials of an image do not depend on the order of the iteration, belong to a key
with the host of its registry, and are missing only if no key has that host. -/
structure ChosenByHost (configs : AuthConfigs α) (image : List UInt8) : Prop where
  independent : ∀ first second, first.Perm configs.entries → second.Perm configs.entries →
    resolveDockerAuthConfig (splitDockerImageName image).1 first =
      resolveDockerAuthConfig (splitDockerImageName image).1 second
  belongs : ∀ order, order.Perm configs.entries → ∀ auth,
    resolveDockerAuthConfig (splitDockerImageName image).1 order = some auth →
      ∃ key registry, (key, auth) ∈ configs.entries ∧ ImageRegistry image registry ∧
        KeyHost key registry
  missing : ∀ order, order.Perm configs.entries →
    (resolveDockerAuthConfig (splitDockerImageName image).1 order = none ↔
      ∀ entry ∈ configs.entries, ∀ registry, ImageRegistry image registry →
        ¬KeyHost entry.1 registry)

variable {indexName : List UInt8} {order entries : List (List UInt8 × α)}

theorem resolve_eq_none_iff (perm : order.Perm entries) :
    resolveDockerAuthConfig indexName order = none ↔
      ∀ entry ∈ entries, convertToHostname entry.1 ≠ indexName := by
  rw [resolveDockerAuthConfig, Option.map_eq_none_iff, List.find?_eq_none]
  simp [perm.mem_iff, eq_comm]

theorem resolve_eq_some (perm : order.Perm entries) {auth : α}
    (found : resolveDockerAuthConfig indexName order = some auth) :
    ∃ key, (key, auth) ∈ entries ∧ convertToHostname key = indexName := by
  obtain ⟨⟨key, value⟩, isFirst, rfl⟩ := Option.map_eq_some_iff.mp found
  have hit := List.find?_some isFirst
  rw [decide_eq_true_eq] at hit
  exact ⟨key, perm.mem_iff.mp (mem_of_find?_eq_some isFirst), hit.symm⟩

theorem exists_order {entry : List UInt8 × α} (member : entry ∈ order)
    (hit : convertToHostname entry.1 = indexName) :
    ∃ other, other.Perm order ∧ resolveDockerAuthConfig indexName other = some entry.2 := by
  obtain ⟨front, back, rfl⟩ := append_of_mem member
  refine ⟨entry :: (front ++ back), perm_middle.symm, ?_⟩
  simp [resolveDockerAuthConfig, hit]

/-- The choice is determined exactly if all keys with the host of the image's registry have
the same credentials. -/
theorem chosenByHost_iff (configs : AuthConfigs α) (image : List UInt8) :
    ChosenByHost configs image ↔
      ∀ first ∈ configs.entries, ∀ second ∈ configs.entries, ∀ registry,
        ImageRegistry image registry → KeyHost first.1 registry → KeyHost second.1 registry →
          first.2 = second.2 := by
  simp only [imageRegistry_iff, forall_eq', keyHost_iff]
  constructor
  · intro chosen first isFirst second isSecond firstHost secondHost
    obtain ⟨firstOrder, firstPerm, firstFound⟩ := exists_order isFirst firstHost
    obtain ⟨secondOrder, secondPerm, secondFound⟩ := exists_order isSecond secondHost
    have same := chosen.independent firstOrder secondOrder firstPerm secondPerm
    rw [firstFound, secondFound] at same
    exact Option.some.inj same
  · intro alike
    constructor
    · intro first second firstPerm secondPerm
      cases found : resolveDockerAuthConfig (splitDockerImageName image).1 first with
      | none =>
        rw [resolve_eq_none_iff firstPerm, ← resolve_eq_none_iff secondPerm] at found
        exact found.symm
      | some auth =>
        obtain ⟨key, member, isHost⟩ := resolve_eq_some firstPerm found
        cases other : resolveDockerAuthConfig (splitDockerImageName image).1 second with
        | none => exact ((resolve_eq_none_iff secondPerm).mp other _ member isHost).elim
        | some otherAuth =>
          obtain ⟨otherKey, otherMember, otherHost⟩ := resolve_eq_some secondPerm other
          exact congrArg some (alike _ member _ otherMember isHost otherHost)
    · intro order perm auth found
      obtain ⟨key, member, isHost⟩ := resolve_eq_some perm found
      exact ⟨key, _, member, (imageRegistry_iff _ _).mpr rfl, (keyHost_iff _ _).mpr isHost⟩
    · intro order perm
      simp only [imageRegistry_iff, forall_eq', keyHost_iff]
      exact resolve_eq_none_iff perm

end Choice

def twoCredentials : List Credentials :=
  [⟨ascii "registry", ascii "registry.example.com", ascii "alice", ascii "first"⟩,
    ⟨ascii "registry", ascii "https://registry.example.com", ascii "bob", ascii "second"⟩]

/-- The order of the iteration decides which of two keys with one host is used. -/
theorem two_keys_undetermined :
    ¬∀ (configs : AuthConfigs AuthConfig) (image : List UInt8), ChosenByHost configs image := by
  intro chosen
  have same := (chosen (buildAuthConfigs twoCredentials)
    (ascii "registry.example.com/group/image")).independent _
      (buildAuthConfigs twoCredentials).entries.reverse (List.Perm.refl _) (reverse_perm _)
  revert same
  decide

/-- What `getAuthConfig` finds: the user's map, the one of the home directory and the one of
the job are searched in this order.  A map that cannot be read is missing. -/
def getAuthConfig (user home : Option (List (List UInt8 × AuthConfig)))
    (build : List (List UInt8 × AuthConfig)) (imageName : List UInt8) : Option AuthConfig :=
  let indexName := (splitDockerImageName imageName).1
  (user.bind (resolveDockerAuthConfig indexName)).or
    ((home.bind (resolveDockerAuthConfig indexName)).or
      (resolveDockerAuthConfig indexName build))

/-- If the choice is determined in each of the three maps, it is determined as a whole. -/
theorem getAuthConfig_determined {user home : Option (AuthConfigs AuthConfig)}
    {build : AuthConfigs AuthConfig} {image : List UInt8}
    (fromUser : ∀ configs ∈ user, ChosenByHost configs image)
    (fromHome : ∀ configs ∈ home, ChosenByHost configs image) (fromBuild : ChosenByHost build image)
    {first second : AuthConfigs AuthConfig → List (List UInt8 × AuthConfig)}
    (firstPerm : ∀ configs, (first configs).Perm configs.entries)
    (secondPerm : ∀ configs, (second configs).Perm configs.entries) :
    getAuthConfig (user.map first) (home.map first) (first build) image =
      getAuthConfig (user.map second) (home.map second) (second build) image := by
  have alike (configs : AuthConfigs AuthConfig) (chosen : ChosenByHost configs image) :=
    chosen.independent (first configs) (second configs) (firstPerm configs) (secondPerm configs)
  have optional (configs : Option (AuthConfigs AuthConfig))
      (chosen : ∀ given ∈ configs, ChosenByHost given image) :
      (configs.map first).bind (resolveDockerAuthConfig (splitDockerImageName image).1) =
        (configs.map second).bind (resolveDockerAuthConfig (splitDockerImageName image).1) := by
    cases configs with
    | none => rfl
    | some given => exact alike given (chosen given rfl)
  simp only [getAuthConfig, optional user fromUser, optional home fromHome, alike build fromBuild]

end GitlabRunner.RegistryAuth
