import GitlabRunner.ByteText
import Mathlib.Data.List.Nodup

/-!
# The services of the docker executor

`splitServiceAndVersion` and the loop of `createServices` in
`executors/docker/executor_docker.go`.  The expression for references is a parameter that
splits what its grammar accepts.  All calls of Docker succeed, and every container is new.
-/

namespace GitlabRunner.DockerServices

open ByteText List

def isDigit (char : UInt8) : Bool :=
  byte '0' ≤ char && char ≤ byte '9'

structure Name where
  host : List UInt8
  port : List UInt8
  path : List UInt8
  host_ne_nil : host ≠ []
  host_plain : ∀ char ∈ host, char ≠ byte ':' ∧ char ≠ byte '/' ∧ char ≠ byte '\n'
  port_digits : ∀ char ∈ port, isDigit char = true
  path_rooted : path = [] ∨ ∃ rest, path = byte '/' :: rest ∧ byte '\n' ∉ rest

def Name.text (name : Name) : List UInt8 :=
  name.host ++ ((if name.port = [] then [] else byte ':' :: name.port) ++ name.path)

structure Reference where
  name : Name
  tag : List UInt8
  digest : List UInt8

def Reference.text (reference : Reference) : List UInt8 :=
  reference.name.text ++ (if reference.tag = [] then [] else byte ':' :: reference.tag) ++
    if reference.digest = [] then [] else byte '@' :: reference.digest

def latest : List UInt8 := ascii "latest"

structure ReferenceRegexp where
  accepts : Reference → Prop
  findStringSubmatch : List UInt8 → Option Reference
  splits : ∀ reference, accepts reference → findStringSubmatch reference.text = some reference
  accepts_latest : ∀ reference, accepts reference → accepts ⟨reference.name, latest, []⟩

/-- `(|/.*)$`. -/
def isPath : List UInt8 → Bool
  | [] => true
  | char :: rest => char = byte '/' && !rest.contains (byte '\n')

/-- The third group of `(|:[0-9]+)(|/.*)$`. -/
def behindPort (text : List UInt8) : Option (List UInt8) :=
  if isPath text then some text
  else match text with
    | [] => none
    | char :: rest =>
      let path := rest.dropWhile isDigit
      if char = byte ':' ∧ rest.takeWhile isDigit ≠ [] ∧ isPath path then some path else none

/-- `ReferenceRegexpNoPort`: the first and the third group.  The first one is as short as it can
be. -/
def withoutPort : List UInt8 → Option (List UInt8)
  | [] => behindPort []
  | char :: rest =>
    match behindPort (char :: rest) with
    | some path => some path
    | none => if char = byte '\n' then none else (withoutPort rest).map (char :: ·)

structure Split where
  service : List UInt8
  version : List UInt8
  imageName : List UInt8
  linkNames : List (List UInt8)
  deriving DecidableEq

def replaceSlashes (text new : List UInt8) : List UInt8 :=
  text.flatMap fun char => if char = byte '/' then new else [char]

/-- `splitServiceAndVersion`; without a match for the port it panics. -/
def splitServiceAndVersion (regexp : ReferenceRegexp) (description : List UInt8) :
    Option Split :=
  match regexp.findStringSubmatch description with
  | none => some ⟨[], latest, description, []⟩
  | some found => do
    let service ← withoutPort found.name.text
    let linkName := replaceSlashes service (ascii "__")
    let alternativeName := replaceSlashes service (ascii "-")
    some ⟨service, if found.tag ≠ [] then found.tag else latest,
      if found.tag ≠ [] then description else found.name.text ++ byte ':' :: latest,
      linkName :: if linkName ≠ alternativeName then [alternativeName] else []⟩

theorem isPath_path (name : Name) : isPath name.path = true := by
  rcases name.path_rooted with path | ⟨rest, path, free⟩
  · rw [path]
    rfl
  · simp [path, isPath, free]

theorem behindPort_path (name : Name) :
    behindPort ((if name.port = [] then [] else byte ':' :: name.port) ++ name.path) =
      some name.path := by
  have isPath := isPath_path name
  by_cases noPort : name.port = []
  · simp [noPort, behindPort, isPath]
  · have noDigit : name.path.takeWhile isDigit = [] ∧ name.path.dropWhile isDigit = name.path := by
      rcases name.path_rooted with path | ⟨rest, path, -⟩
      · simp [path]
      · rw [path]
        exact ⟨rfl, rfl⟩
    have digits : (name.port ++ name.path).takeWhile isDigit = name.port := by
      rw [takeWhile_append_of_pos name.port_digits, noDigit.1, append_nil]
    have rest : (name.port ++ name.path).dropWhile isDigit = name.path := by
      rw [dropWhile_append_of_pos name.port_digits, noDigit.2]
    have noPath : DockerServices.isPath (byte ':' :: (name.port ++ name.path)) = false := rfl
    simp [noPort, behindPort, noPath, digits, rest, isPath]

theorem withoutPort_append {host rest path : List UInt8}
    (plain : ∀ char ∈ host, char ≠ byte ':' ∧ char ≠ byte '/' ∧ char ≠ byte '\n')
    (behind : behindPort rest = some path) : withoutPort (host ++ rest) = some (host ++ path) := by
  induction host with
  | nil =>
    cases rest with
    | nil => exact behind
    | cons char rest => simp [withoutPort, behind]
  | cons char host ih =>
    obtain ⟨⟨noColon, noSlash, noBreak⟩, plain⟩ := forall_mem_cons.mp plain
    have notBehind : behindPort (char :: (host ++ rest)) = none := by
      simp [behindPort, isPath, noColon, noSlash]
    rw [cons_append, withoutPort, notBehind]
    simp [noBreak, ih plain]

theorem withoutPort_text (name : Name) : withoutPort name.text = some (name.host ++ name.path) :=
  withoutPort_append name.host_plain (behindPort_path name)

section Images

variable {regexp : ReferenceRegexp} {reference : Reference}

def Reference.imageName (reference : Reference) : List UInt8 :=
  if reference.tag ≠ [] then reference.text else reference.name.text ++ byte ':' :: latest

theorem splitServiceAndVersion_text (accepted : regexp.accepts reference) :
    splitServiceAndVersion regexp reference.text =
      let service := reference.name.host ++ reference.name.path
      let linkName := replaceSlashes service (ascii "__")
      let alternativeName := replaceSlashes service (ascii "-")
      some ⟨service, if reference.tag ≠ [] then reference.tag else latest, reference.imageName,
        linkName :: if linkName ≠ alternativeName then [alternativeName] else []⟩ := by
  simp only [splitServiceAndVersion, regexp.splits reference accepted, withoutPort_text]
  rfl

def Reference.image (reference : Reference) : Reference :=
  if reference.tag = [] ∧ reference.digest = [] then { reference with tag := latest }
  else reference

/-- `createService` is given an image name that denotes what the description denotes. -/
def RunsDescribedImage (regexp : ReferenceRegexp) (reference : Reference) : Prop :=
  ∃ split, splitServiceAndVersion regexp reference.text = some split ∧
    regexp.findStringSubmatch split.imageName = some reference.image

def postgres : Name where
  host := ascii "postgres"
  port := []
  path := []
  host_ne_nil := by decide
  host_plain := by
    simp [ascii, byte]
  port_digits := by
    simp
  path_rooted := .inl rfl

def postgresReferences : List Reference :=
  [⟨postgres, [], []⟩, ⟨postgres, latest, []⟩, ⟨postgres, [], ascii "sha256:ab"⟩]

def postgresRegexp : ReferenceRegexp where
  accepts reference := reference ∈ postgresReferences
  findStringSubmatch text := postgresReferences.find? fun reference => reference.text = text
  splits := by
    simp only [postgresReferences, forall_mem_cons]
    exact ⟨rfl, rfl, rfl, nofun⟩
  accepts_latest := by
    simp [postgresReferences]

end Images

structure Definition where
  name : List UInt8
  aliasName : List UInt8

structure Container where
  id : Nat
  image : List UInt8
  deriving DecidableEq

/-- The state of `createServices`.  Docker has given out the ids below `nextID`. -/
structure Executor where
  services : List Container
  temporary : List Nat
  linksMap : List UInt8 → Option Container
  nextID : Nat
  known : (∀ container ∈ services, container.id < nextID) ∧ ∀ id ∈ temporary, id < nextID

/-- `createService` for an image, and the two assignments behind it. -/
def Executor.create (executor : Executor) (image : List UInt8) : Executor where
  services := executor.services ++ [⟨executor.nextID, image⟩]
  temporary := executor.temporary ++ [executor.nextID]
  linksMap := executor.linksMap
  nextID := executor.nextID + 1
  known := by
    obtain ⟨services, temporary⟩ := executor.known
    simp only [forall_mem_append, forall_mem_singleton]
    exact ⟨⟨fun container member => Nat.lt_succ_of_lt (services container member),
        Nat.lt_succ_self _⟩,
      fun id member => Nat.lt_succ_of_lt (temporary id member), Nat.lt_succ_self _⟩

def Executor.link (executor : Executor) (linkName : List UInt8) (container : Container) :
    Executor where
  services := executor.services
  temporary := executor.temporary
  linksMap name := if name = linkName then some container else executor.linksMap name
  nextID := executor.nextID
  known := executor.known

/-- The loop of `createFromServiceDefinition`; a service without a name is an error. -/
def linkEach (split : Split) :
    Option Container → List (List UInt8) → Executor → Option Executor
  | _, [], executor => some executor
  | container, linkName :: linkNames, executor =>
    if (executor.linksMap linkName).isSome then linkEach split container linkNames executor
    else match container with
      | some container =>
        linkEach split (some container) linkNames (executor.link linkName container)
      | none =>
        if split.service = [] then none
        else
          let container : Container := ⟨executor.nextID, split.imageName⟩
          linkEach split (some container) linkNames
            ((executor.create split.imageName).link linkName container)

def createFromServiceDefinition (regexp : ReferenceRegexp) (executor : Executor)
    (definition : Definition) : Option Executor := do
  let split ← splitServiceAndVersion regexp definition.name
  linkEach split none (if definition.aliasName ≠ [] then split.linkNames ++ [definition.aliasName]
    else split.linkNames) executor

def createServices (regexp : ReferenceRegexp) (definitions : List Definition)
    (executor : Executor) : Option Executor :=
  definitions.foldlM (createFromServiceDefinition regexp)
    { executor with linksMap := fun _ => none }

section Links

structure Service (regexp : ReferenceRegexp) where
  reference : Reference
  aliasName : List UInt8
  accepted : regexp.accepts reference

variable {regexp : ReferenceRegexp}

def Service.definition (service : Service regexp) : Definition :=
  ⟨service.reference.text, service.aliasName⟩

def Service.repository (service : Service regexp) : List UInt8 :=
  service.reference.name.host ++ service.reference.name.path

def Service.linkNames (service : Service regexp) : List (List UInt8) :=
  [replaceSlashes service.repository (ascii "__"), replaceSlashes service.repository (ascii "-")] ++
    if service.aliasName ≠ [] then [service.aliasName] else []

/-- A container under the names that are not taken. -/
def Executor.linkAll (executor : Executor) (linkNames : List (List UInt8))
    (container : Container) : Executor where
  services := executor.services
  temporary := executor.temporary
  linksMap name := (executor.linksMap name).or
    (if linkNames.contains name then some container else none)
  nextID := executor.nextID
  known := executor.known

variable {executor : Executor} {split : Split} {first : List UInt8} {linkNames : List (List UInt8)}

theorem linkAll_taken (container : Container) (taken : (executor.linksMap first).isSome) :
    executor.linkAll (first :: linkNames) container = executor.linkAll linkNames container := by
  obtain ⟨linked, found⟩ := Option.isSome_iff_exists.mp taken
  simp only [Executor.linkAll, Executor.mk.injEq, true_and, and_true]
  funext name
  by_cases same : name = first
  · simp [same, found]
  · simp [same]

theorem linkAll_free (container : Container) (free : executor.linksMap first = none) :
    (executor.link first container).linkAll linkNames container =
      executor.linkAll (first :: linkNames) container := by
  simp only [Executor.linkAll, Executor.link, Executor.mk.injEq, true_and, and_true]
  funext name
  by_cases same : name = first
  · simp [same, free]
  · simp [same]

theorem linkEach_some (container : Container) :
    linkEach split (some container) linkNames executor =
      some (executor.linkAll linkNames container) := by
  induction linkNames generalizing executor with
  | nil => simp [linkEach, Executor.linkAll]
  | cons first linkNames ih =>
    by_cases taken : (executor.linksMap first).isSome
    · rw [linkEach, if_pos taken, ih, linkAll_taken container taken]
    · rw [linkEach, if_neg taken, ih,
        linkAll_free container (Option.not_isSome_iff_eq_none.mp taken)]

theorem linkEach_none (named : split.service ≠ []) :
    linkEach split none linkNames executor =
      some (if ∀ linkName ∈ linkNames, (executor.linksMap linkName).isSome then executor
        else (executor.create split.imageName).linkAll linkNames
          ⟨executor.nextID, split.imageName⟩) := by
  induction linkNames with
  | nil => simp [linkEach]
  | cons first linkNames ih =>
    by_cases taken : (executor.linksMap first).isSome
    · rw [linkEach, if_pos taken, ih]
      simp only [forall_mem_cons, taken, true_and]
      rw [linkAll_taken]
      exact taken
    · have notAll : ¬ ∀ linkName ∈ first :: linkNames, (executor.linksMap linkName).isSome :=
        fun all => taken (all first mem_cons_self)
      rw [linkEach, if_neg taken, if_neg named, linkEach_some, linkAll_free, if_neg notAll]
      exact Option.not_isSome_iff_eq_none.mp taken

/-- What a definition with some link names adds. -/
structure Adds (linkNames : List (List UInt8)) (executor : Executor)
    (container : Option Container) (next : Executor) : Prop where
  creates : container.isSome ↔ ∃ linkName ∈ linkNames, executor.linksMap linkName = none
  links : ∀ linkName, next.linksMap linkName = (executor.linksMap linkName).or
    (if linkNames.contains linkName then container else none)
  services : next.services = executor.services ++ container.toList
  temporary : next.temporary = executor.temporary ++ container.toList.map Container.id
  new : ∀ made ∈ container, made.id = executor.nextID
  nextID : next.nextID = executor.nextID + container.toList.length

theorem linkEach_adds (named : split.service ≠ []) (linkNames : List (List UInt8))
    (executor : Executor) :
    ∃ next container, linkEach split none linkNames executor = some next ∧
      Adds linkNames executor container next := by
  rw [linkEach_none named]
  split
  · rename_i taken
    refine ⟨executor, none, rfl, ?_, by simp, by simp, by simp, nofun, rfl⟩
    simpa [Option.isSome_iff_ne_none] using taken
  · rename_i free
    refine ⟨_, some ⟨executor.nextID, split.imageName⟩, rfl, ?_, fun _ => rfl, rfl, rfl, ?_, rfl⟩
    · simpa [Option.isSome_iff_ne_none] using free
    · rintro made ⟨⟩
      rfl

theorem Adds.congr {others : List (List UInt8)} {container : Option Container} {next : Executor}
    (adds : Adds linkNames executor container next)
    (same : ∀ linkName, linkName ∈ others ↔ linkName ∈ linkNames) :
    Adds others executor container next := by
  refine ⟨?_, ?_, adds.services, adds.temporary, adds.new, adds.nextID⟩
  · simp only [adds.creates, same]
  · intro linkName
    simp only [adds.links, contains_iff_mem, same]

theorem mem_names {name linkName alternativeName : List UInt8} :
    (name ∈ linkName :: if linkName ≠ alternativeName then [alternativeName] else []) ↔
      name = linkName ∨ name = alternativeName := by
  by_cases same : linkName = alternativeName
  · simp [same]
  · simp [same]

theorem createFromServiceDefinition_adds (executor : Executor) (service : Service regexp) :
    ∃ next container,
      createFromServiceDefinition regexp executor service.definition = some next ∧
      Adds service.linkNames executor container next := by
  obtain ⟨split, isSplit, sameService, sameNames⟩ : ∃ split,
      splitServiceAndVersion regexp service.reference.text = some split ∧
        split.service = service.repository ∧ ∀ name, name ∈ split.linkNames ↔
          name = replaceSlashes service.repository (ascii "__") ∨
            name = replaceSlashes service.repository (ascii "-") :=
    ⟨_, splitServiceAndVersion_text service.accepted, rfl, fun _ => mem_names⟩
  have named : split.service ≠ [] := by
    simp [sameService, Service.repository, service.reference.name.host_ne_nil]
  rw [createFromServiceDefinition, Service.definition, isSplit]
  obtain ⟨next, container, result, adds⟩ := linkEach_adds named (if service.aliasName ≠ [] then
    split.linkNames ++ [service.aliasName] else split.linkNames) executor
  refine ⟨next, container, result, adds.congr ?_⟩
  intro name
  by_cases noAlias : service.aliasName = []
  · simp [Service.linkNames, noAlias, sameNames]
  · simp [Service.linkNames, noAlias, sameNames, or_assoc]

/-- The services with the containers created for them.  A service has a container if it
claims a name, and all names that it claims are linked to it. -/
structure Linked (made : List (Service regexp × Option Container)) (start last : Executor) :
    Prop where
  links : ∀ before service container after, made = before ++ (service, container) :: after →
    (container.isSome ↔ ∃ linkName ∈ service.linkNames,
      ∀ earlier ∈ before, linkName ∉ earlier.1.linkNames) ∧
    ∀ linkName ∈ service.linkNames, (∀ earlier ∈ before, linkName ∉ earlier.1.linkNames) →
      last.linksMap linkName = container
  services : last.services = start.services ++ made.filterMap Prod.snd
  temporary : last.temporary = start.temporary ++ (made.filterMap Prod.snd).map Container.id

structure Linking (made : List (Service regexp × Option Container)) (start last : Executor) :
    Prop extends Linked made start last where
  free : ∀ linkName, last.linksMap linkName = none ↔
    ∀ entry ∈ made, linkName ∉ entry.1.linkNames
  ids : ((made.filterMap Prod.snd).map Container.id).Nodup
  range : ∀ container ∈ made.filterMap Prod.snd,
    start.nextID ≤ container.id ∧ container.id < last.nextID
  nextID : start.nextID ≤ last.nextID

variable {made : List (Service regexp × Option Container)} {start next last : Executor}
  {service : Service regexp} {container : Option Container}

theorem Linking.step (linking : Linking made start executor)
    (adds : Adds service.linkNames executor container next) :
    Linking (made ++ [(service, container)]) start next := by
  have filtered : (made ++ [(service, container)]).filterMap Prod.snd =
      made.filterMap Prod.snd ++ container.toList := by
    cases container <;> simp
  refine ⟨⟨?_, ?_, ?_⟩, ?_, ?_, ?_, ?_⟩
  · intro before other otherContainer after place
    rcases after.eq_nil_or_concat with rfl | ⟨after, final, rfl⟩
    · obtain ⟨rfl, same⟩ := append_inj' place rfl
      cases same
      simp only [← linking.free]
      refine ⟨adds.creates, ?_⟩
      intro linkName member free
      simp [adds.links, free, member]
    · rw [concat_eq_append, ← cons_append, ← append_assoc] at place
      obtain ⟨rfl, -⟩ := append_inj' place rfl
      obtain ⟨creates, links⟩ := linking.links before other otherContainer after rfl
      refine ⟨creates, ?_⟩
      intro linkName member first
      have present := creates.mpr ⟨linkName, member, first⟩
      rw [adds.links, links linkName member first, Option.or_of_isSome present]
  · rw [adds.services, linking.services, filtered, append_assoc]
  · rw [adds.temporary, linking.temporary, filtered, map_append, append_assoc]
  · intro linkName
    rw [adds.links, Option.or_eq_none_iff, linking.free, forall_mem_append, forall_mem_singleton]
    refine and_congr_right fun unclaimed => ?_
    by_cases member : linkName ∈ service.linkNames
    · have present := adds.creates.mpr ⟨linkName, member, (linking.free linkName).mpr unclaimed⟩
      simp [member, Option.isSome_iff_ne_none.mp present]
    · simp [member]
  · rw [filtered, map_append, nodup_append]
    refine ⟨linking.ids, ?_, ?_⟩
    · cases container <;> simp
    · intro id earlier new isNew
      obtain ⟨made, member, rfl⟩ := mem_map.mp earlier
      obtain ⟨added, isAdded, rfl⟩ := mem_map.mp isNew
      rw [adds.new added (Option.mem_toList.mp isAdded)]
      exact Nat.ne_of_lt (linking.range made member).2
  · rw [filtered, adds.nextID]
    intro made member
    rcases mem_append.mp member with earlier | new
    · obtain ⟨lower, upper⟩ := linking.range made earlier
      exact ⟨lower, Nat.lt_add_right _ upper⟩
    · rw [Option.mem_toList] at new
      rw [adds.new made new, new]
      exact ⟨linking.nextID, Nat.lt_succ_self _⟩
  · rw [adds.nextID]
    exact Nat.le_add_right_of_le linking.nextID

theorem Linking.run (linking : Linking made start executor) (services : List (Service regexp)) :
    ∃ last more, (services.map Service.definition).foldlM (createFromServiceDefinition regexp)
        executor = some last ∧ more.map Prod.fst = services ∧
          Linking (made ++ more) start last := by
  induction services generalizing made executor with
  | nil => exact ⟨executor, [], rfl, rfl, by simpa using linking⟩
  | cons service services ih =>
    obtain ⟨next, container, result, adds⟩ := createFromServiceDefinition_adds executor service
    obtain ⟨last, more, results, same, done⟩ := ih (linking.step adds)
    refine ⟨last, (service, container) :: more, ?_, by simp [same], by simpa using done⟩
    rw [map_cons, foldlM_cons, result]
    exact results

theorem Linking.count (linking : Linking made start last) {container : Container}
    (member : container ∈ made.filterMap Prod.snd) :
    last.services.count container = 1 ∧ last.temporary.count container.id = 1 := by
  have new := (linking.range container member).1
  have inServices : container ∉ start.services := fun earlier =>
    Nat.not_lt.mpr new (start.known.1 container earlier)
  have inTemporary : container.id ∉ start.temporary := fun earlier =>
    Nat.not_lt.mpr new (start.known.2 container.id earlier)
  constructor
  · rw [linking.services, count_append, count_eq_zero_of_not_mem inServices,
      count_eq_one_of_mem (List.Nodup.of_map _ linking.ids) member]
  · rw [linking.temporary, count_append, count_eq_zero_of_not_mem inTemporary,
      count_eq_one_of_mem linking.ids (mem_map_of_mem member)]

/-- For all services with valid references: what is created, what the names are linked to,
and that every container is in both lists once. -/
theorem createServices_links (services : List (Service regexp)) (start : Executor) :
    ∃ last made, createServices regexp (services.map Service.definition) start = some last ∧
      made.map Prod.fst = services ∧ Linked made start last ∧
      ∀ container ∈ made.filterMap Prod.snd,
        last.services.count container = 1 ∧ last.temporary.count container.id = 1 := by
  have begin : @Linking regexp [] start { start with linksMap := fun _ => none } := by
    refine ⟨⟨?_, by simp, by simp⟩, by simp, by simp, nofun, Nat.le_refl _⟩
    intro before service container after place
    simp at place
  obtain ⟨last, made, result, same, linking⟩ := begin.run services
  refine ⟨last, made, result, same, linking.toLinked, ?_⟩
  intro container member
  exact linking.count member

end Links

end GitlabRunner.DockerServices
