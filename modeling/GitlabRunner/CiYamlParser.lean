import GitlabRunner.JobVariables
import GitlabRunner.StrconvQuote

/-!
# The parser of `.gitlab-ci.yml`

`ParseYaml` fills a job from a YAML document.  Its first steps report what does not fit; the
others take the values of the document for what they should be, and panic.
-/

namespace GitlabRunner.CiYaml

open ByteText Strconv Variables

/-- A scalar of a document.  A number or a time is known by what is printed for it. -/
inductive Scalar where
  | null
  | bool (value : Bool)
  | text (value : List UInt8)
  | other (printed : List UInt8)

/-- A value of a document.  The maps of the YAML library have arbitrary keys (`map`);
`convertMapToStringMap` makes maps with string keys of them (`bag`). -/
inductive Value where
  | scalar (value : Scalar)
  | list (elements : List Value)
  | map (entries : List (Scalar × Value))
  | bag (entries : List (List UInt8 × Value))

abbrev DataBag := List (List UInt8 × Value)

def Scalar.text? : Scalar → Option (List UInt8)
  | .text value => some value
  | _ => none

def Scalar.printed : Scalar → List UInt8
  | .null => ascii "<nil>"
  | .bool value => if value then ascii "true" else ascii "false"
  | .text value | .other value => value

def Value.text? : Value → Option (List UInt8)
  | .scalar value => value.text?
  | _ => none

def Value.bool? : Value → Option Bool
  | .scalar (.bool value) => some value
  | _ => none

def Value.bag? : Value → Option DataBag
  | .bag entries => some entries
  | _ => none

mutual

/-- The maps inside of lists stay as they are. -/
def convertMapToStringMap : Value → Except (List UInt8) Value
  | .bag entries => .bag <$> sanitize entries
  | .map entries => .bag <$> convertMap entries
  | value => pure value

def convertMap : List (Scalar × Value) → Except (List UInt8) DataBag
  | [] => pure []
  | (.text key, value) :: rest => do
    let converted ← convertMapToStringMap value
    pure ((key, converted) :: (← convertMap rest))
  | (key, _) :: _ => throw (ascii "failed to convert " ++ key.printed ++ ascii " to string")

def sanitize : List (List UInt8 × Value) → Except (List UInt8) DataBag
  | [] => pure []
  | (key, value) :: rest => do
    let converted ← convertMapToStringMap value
    pure ((key, converted) :: (← sanitize rest))

end

section Lookups

variable (bag : DataBag) (key : List UInt8)

/-- The elements at a key, where nothing and a null have none.  Any other value panics. -/
def getSlice : Option (Option (List Value)) :=
  match bag.lookup key with
  | none | some (.scalar .null) => some none
  | some (.list elements) => some (some elements)
  | some _ => none

def getStringSlice : Option (List (List UInt8)) :=
  (getSlice bag key).map fun slice => (slice.getD []).filterMap Value.text?

def getSubOptions : Option DataBag :=
  (bag.lookup key).bind Value.bag?

def getString : Option (List UInt8) :=
  (bag.lookup key).bind Value.text?

end Lookups

def getOptionsMap (key : List UInt8) (primary secondary : DataBag) : DataBag :=
  (getSubOptions primary key).getD ((getSubOptions secondary key).getD [])

def getOptions (key : List UInt8) (primary secondary : DataBag) :
    Option (Option (List Value)) := do
  match ← getSlice primary key with
  | some elements => pure (some elements)
  | none => getSlice secondary key

/-! ## The steps that report -/

structure Step where
  name : List UInt8
  script : List (List UInt8)
  timeout : Nat
  when : List UInt8
  allowFailure : Bool

structure Image where
  name : List UInt8
  aliasName : List UInt8 := []
  command : List (List UInt8) := []
  entrypoint : List (List UInt8) := []

structure Artifact where
  name : List UInt8
  untracked : Bool
  paths : List (List UInt8)
  when : List UInt8
  expireIn : List UInt8

structure Cache where
  key : List UInt8
  untracked : Bool
  paths : List (List UInt8)

/-- The fields of a job that the parser reads or writes. -/
structure JobResponse where
  id : Int
  token : List UInt8
  repoURL : List UInt8
  sha : List UInt8
  beforeSha : List UInt8
  ref : List UInt8
  projectID : Int
  name : List UInt8
  stage : List UInt8
  steps : List Step
  jobVariables : JobVariables
  image : Image
  services : List Image
  artifacts : List Artifact
  cache : List Cache

def prepareJobInfo (jobName : List UInt8) (jobConfig : DataBag) (job : JobResponse) :
    JobResponse :=
  { job with
    projectID := 0
    name := jobName
    stage := (getString jobConfig (ascii "stage")).getD (ascii "test") }

def getCommands : Option Value → Except (List UInt8) (List (List UInt8))
  | none | some (.scalar .null) => pure []
  | some (.list lines) => match lines.mapM Value.text? with
    | some steps => pure steps
    | none => throw (ascii "unsupported script")
  | some (.scalar (.text text)) => pure (text.splitOn 10)
  | some _ => throw (ascii "unsupported script")

def prepareSteps (jobConfig config : DataBag) : Except (List UInt8) (List Step) := do
  match jobConfig.lookup (ascii "script") with
  | none | some (.scalar .null) => throw (ascii "missing 'script' for job")
  | _ => pure ()
  let beforeScript ← getCommands (config.lookup (ascii "before_script"))
  let jobBeforeScript ← getCommands (jobConfig.lookup (ascii "before_script"))
  let script ← getCommands (jobConfig.lookup (ascii "script"))
  let afterScript ← getCommands (jobConfig.lookup (ascii "after_script"))
  let first := if jobBeforeScript.length < 1 then beforeScript else jobBeforeScript
  pure [⟨ascii "script", first ++ script, 3600, ascii "on_success", false⟩,
    ⟨ascii "after_script", afterScript, 3600, ascii "always", false⟩]

def buildDefaultVariables (job : JobResponse) : JobVariables :=
  [(ascii "CI", ascii "true"), (ascii "GITLAB_CI", ascii "true"),
    (ascii "CI_SERVER_NAME", ascii "GitLab CI"), (ascii "CI_SERVER_VERSION", []),
    (ascii "CI_SERVER_REVISION", []), (ascii "CI_PROJECT_ID", itoa job.projectID),
    (ascii "CI_JOB_ID", itoa job.id), (ascii "CI_JOB_NAME", job.name),
    (ascii "CI_JOB_STAGE", job.stage), (ascii "CI_JOB_TOKEN", job.token),
    (ascii "CI_REPOSITORY_URL", job.repoURL), (ascii "CI_COMMIT_SHA", job.sha),
    (ascii "CI_COMMIT_BEFORE_SHA", job.beforeSha), (ascii "CI_COMMIT_REF_NAME", job.ref)].map
  fun (key, value) => ⟨key, value, true, true, false, false⟩

variable (isPrint : Char → Bool)

/-- Of the variables that are not texts the last one is named. -/
def buildVariables : Option Value → Except (List UInt8) JobVariables
  | none | some (.scalar .null) => pure []
  | some (.bag entries) => match entries.reverse.find? (·.2.text?.isNone) with
    | some (key, _) => throw (ascii "invalid value for variable " ++ quote isPrint key)
    | none => pure (entries.filterMap fun (key, value) =>
        value.text?.map (⟨key, ·, true, false, false, false⟩))
  | some _ => throw (ascii "unsupported variables")

def prepareVariables (jobConfig config : DataBag) (job : JobResponse) :
    Except (List UInt8) JobVariables := do
  let globalVariables ← buildVariables isPrint (config.lookup (ascii "variables"))
  let jobVariables ← buildVariables isPrint (jobConfig.lookup (ascii "variables"))
  pure (buildDefaultVariables job ++ globalVariables ++ jobVariables)

def loadJob (jobName : List UInt8) (config : DataBag) : Except (List UInt8) DataBag :=
  match getSubOptions config jobName with
  | some jobConfig => pure jobConfig
  | none => throw (ascii "no job named " ++ quote isPrint jobName)

/-! ## The steps that panic -/

def definedImage (config : DataBag) : Option (Option Image) :=
  match getString config (ascii "image"), getSubOptions config (ascii "image") with
  | some name, _ => some (some { name })
  | none, some definition => do
    let name := (getString definition (ascii "name")).getD []
    pure (some { name, entrypoint := ← getStringSlice definition (ascii "entrypoint") })
  | none, none => some none

def prepareImage (jobConfig config : DataBag) : Option Image := do
  match ← definedImage jobConfig with
  | some image => pure image
  | none => pure ((← definedImage config).getD { name := [] })

def parseExtendedServiceDefinitionMap (entries : List (Scalar × Value)) : Option Image := do
  let service ← entries.mapM fun (key, value) => key.text?.map (·, value)
  let command ← getStringSlice service (ascii "command")
  let entrypoint ← getStringSlice service (ascii "entrypoint")
  pure ⟨(getString service (ascii "name")).getD [], (getString service (ascii "alias")).getD [],
    command, entrypoint⟩

def serviceImages : Value → Option (List Image)
  | .scalar (.text name) => some [{ name }]
  | .map definition => (parseExtendedServiceDefinitionMap definition).map ([·])
  | _ => some []

def prepareServices (jobConfig config : DataBag) : Option (List Image) := do
  let services ← getOptions (ascii "services") jobConfig config
  let images ← (services.getD []).mapM serviceImages
  pure images.flatten

def archivePaths (options : DataBag) : Option (List (List UInt8)) := do
  let paths ← getSlice options (ascii "paths")
  (paths.getD []).mapM Value.text?

def archiveUntracked (options : DataBag) : Option Bool :=
  ((options.lookup (ascii "untracked")).getD (.scalar (.bool false))).bool?

def prepareArtifacts (jobConfig config : DataBag) : Option Artifact := do
  let options := getOptionsMap (ascii "artifacts") jobConfig config
  let paths ← archivePaths options
  let untracked ← archiveUntracked options
  pure ⟨(getString options (ascii "name")).getD [], untracked, paths,
    (getString options (ascii "when")).getD (ascii "on_success"),
    (getString options (ascii "expireIn")).getD []⟩

def prepareCache (jobConfig config : DataBag) : Option Cache := do
  let options := getOptionsMap (ascii "cache") jobConfig config
  let paths ← archivePaths options
  let untracked ← archiveUntracked options
  pure ⟨(getString options (ascii "key")).getD [], untracked, paths⟩

/-- An error ends the parsing, and what a step returns is for the steps after it. -/
def unlessError {α β : Type} (step : Except (List UInt8) α)
    (next : α → Option (Except (List UInt8) β)) : Option (Except (List UInt8) β) :=
  match step with
  | .error message => some (.error message)
  | .ok result => next result

/-- What `ParseYaml` returns for a document, unless it panics. -/
def parseYaml (document : DataBag) (jobName : List UInt8) (job : JobResponse) :
    Option (Except (List UInt8) JobResponse) :=
  unlessError (sanitize document) fun config =>
  unlessError (loadJob isPrint jobName config) fun jobConfig =>
  let job := prepareJobInfo jobName jobConfig job
  unlessError (prepareSteps jobConfig config) fun steps =>
  unlessError (prepareVariables isPrint jobConfig config job) fun jobVariables => do
    let image ← prepareImage jobConfig config
    let services ← prepareServices jobConfig config
    let artifact ← prepareArtifacts jobConfig config
    let cache ← prepareCache jobConfig config
    pure (.ok { job with
      steps, jobVariables, image, services, artifacts := [artifact], cache := [cache] })

/-! ## Documents that do not crash the parser -/

/-- Nothing, a null or a list stands at the key. -/
def sliceAt (bag : DataBag) (key : List UInt8) : Bool :=
  (bag.lookup key).all fun
    | .scalar .null | .list _ => true
    | _ => false

def elementsAt (bag : DataBag) (key : List UInt8) : List Value :=
  match bag.lookup key with
  | some (.list elements) => elements
  | _ => []

def definitionTyped : Value → Bool
  | .map entries =>
    let service := entries.filterMap fun (key, value) => key.text?.map (·, value)
    entries.all (·.1.text?.isSome) && sliceAt service (ascii "command") &&
      sliceAt service (ascii "entrypoint")
  | _ => true

def archiveTyped (options : DataBag) : Bool :=
  sliceAt options (ascii "paths") && (elementsAt options (ascii "paths")).all (·.text?.isSome) &&
    (options.lookup (ascii "untracked")).all (·.bool?.isSome)

/-- What the steps that panic take a configuration for: lists where they read lists, texts for
the paths and for the keys of a service, and booleans for `untracked`. -/
structure WellTyped (bag : DataBag) : Prop where
  image : (getSubOptions bag (ascii "image")).all (sliceAt · (ascii "entrypoint")) = true
  services : sliceAt bag (ascii "services") = true
  definitions : (elementsAt bag (ascii "services")).all definitionTyped = true
  artifacts : (getSubOptions bag (ascii "artifacts")).all archiveTyped = true
  cache : (getSubOptions bag (ascii "cache")).all archiveTyped = true

section Returns

variable {bag jobConfig config options : DataBag} {key : List UInt8}

theorem getSlice_of_sliceAt (typed : sliceAt bag key = true) :
    ∃ slice, getSlice bag key = some slice ∧ slice.getD [] = elementsAt bag key := by
  unfold getSlice elementsAt
  unfold sliceAt at typed
  generalize bag.lookup key = found at typed
  match found with
  | none | some (.scalar .null) => exact ⟨none, rfl, rfl⟩
  | some (.list elements) => exact ⟨some elements, rfl, rfl⟩

theorem getStringSlice_of_sliceAt (typed : sliceAt bag key = true) :
    ∃ texts, getStringSlice bag key = some texts := by
  obtain ⟨slice, same, -⟩ := getSlice_of_sliceAt typed
  exact ⟨_, congrArg _ same⟩

theorem mapM_eq_filterMap {α β : Type} {f : α → Option β} {list : List α}
    (returns : ∀ element ∈ list, (f element).isSome = true) :
    list.mapM f = some (list.filterMap f) := by
  induction list with
  | nil => rfl
  | cons first rest ih =>
    obtain ⟨result, same⟩ := Option.isSome_iff_exists.mp (returns first (by simp))
    rw [List.mapM_cons, ih fun element member => returns element (by simp [member]),
      List.filterMap_cons, same]
    rfl

theorem definedImage_returns (typed : WellTyped bag) : ∃ image, definedImage bag = some image := by
  have entrypoint := typed.image
  unfold definedImage
  generalize getSubOptions bag (ascii "image") = found at entrypoint
  match getString bag (ascii "image"), found with
  | some name, _ | none, none => exact ⟨_, rfl⟩
  | none, some definition =>
    obtain ⟨texts, same⟩ := getStringSlice_of_sliceAt entrypoint
    simp [same]

theorem prepareImage_returns (job : WellTyped jobConfig) (file : WellTyped config) :
    ∃ image, prepareImage jobConfig config = some image := by
  obtain ⟨image, ofJob⟩ := definedImage_returns job
  obtain ⟨fallback, ofFile⟩ := definedImage_returns file
  cases image <;> simp [prepareImage, ofJob, ofFile]

theorem serviceImages_isSome {value : Value} (typed : definitionTyped value = true) :
    (serviceImages value).isSome = true := by
  match value with
  | .map entries =>
    simp only [definitionTyped, Bool.and_eq_true, List.all_eq_true] at typed
    obtain ⟨⟨keys, command⟩, entrypoint⟩ := typed
    obtain ⟨commands, sameCommand⟩ := getStringSlice_of_sliceAt command
    obtain ⟨texts, sameEntrypoint⟩ := getStringSlice_of_sliceAt entrypoint
    have service : ∀ entry ∈ entries, (entry.1.text?.map (·, entry.2)).isSome = true :=
      fun entry member => by simpa using keys entry member
    simp [serviceImages, parseExtendedServiceDefinitionMap, mapM_eq_filterMap service, sameCommand,
      sameEntrypoint]
  | .scalar .null | .scalar (.bool _) | .scalar (.text _) | .scalar (.other _) | .list _
  | .bag _ => rfl

theorem prepareServices_returns (job : WellTyped jobConfig) (file : WellTyped config) :
    ∃ images, prepareServices jobConfig config = some images := by
  obtain ⟨slice, ofJob, inJob⟩ := getSlice_of_sliceAt job.services
  obtain ⟨fallback, ofFile, inFile⟩ := getSlice_of_sliceAt file.services
  have read : ∃ services, getOptions (ascii "services") jobConfig config = some services ∧
      (services.getD []).all definitionTyped = true := by
    cases slice with
    | some elements => exact ⟨some elements, by simp [getOptions, ofJob], inJob ▸ job.definitions⟩
    | none => exact ⟨fallback, by simp [getOptions, ofJob, ofFile], inFile ▸ file.definitions⟩
  obtain ⟨services, same, typed⟩ := read
  have images := mapM_eq_filterMap fun element member =>
    serviceImages_isSome (List.all_eq_true.mp typed element member)
  simp [prepareServices, same, images]

theorem archive_returns (typed : archiveTyped options = true) :
    (∃ paths, archivePaths options = some paths) ∧
      ∃ untracked, archiveUntracked options = some untracked := by
  simp only [archiveTyped, Bool.and_eq_true, List.all_eq_true] at typed
  obtain ⟨⟨listed, texts⟩, untracked⟩ := typed
  obtain ⟨slice, same, elements⟩ := getSlice_of_sliceAt listed
  constructor
  · simp [archivePaths, same, elements, mapM_eq_filterMap texts]
  · unfold archiveUntracked
    cases found : options.lookup (ascii "untracked") with
    | none => exact ⟨false, rfl⟩
    | some value => exact Option.isSome_iff_exists.mp (by simpa [found] using untracked)

theorem archiveTyped_getOptionsMap (job : (getSubOptions jobConfig key).all archiveTyped = true)
    (file : (getSubOptions config key).all archiveTyped = true) :
    archiveTyped (getOptionsMap key jobConfig config) = true := by
  unfold getOptionsMap
  generalize getSubOptions jobConfig key = primary, getSubOptions config key = secondary at job file
  match primary, secondary with
  | some options, _ => exact job
  | none, some options => exact file
  | none, none => rfl

end Returns

variable {isPrint}

theorem unlessError_returns {α β : Type} {step : Except (List UInt8) α}
    {next : α → Option (Except (List UInt8) β)}
    (returns : ∀ result, step = .ok result → ∃ final, next result = some final) :
    ∃ final, unlessError step next = some final := by
  cases step with
  | error message => exact ⟨_, rfl⟩
  | ok result => exact returns result rfl

theorem getSubOptions_of_loadJob {jobName : List UInt8} {config jobConfig : DataBag}
    (loaded : loadJob isPrint jobName config = .ok jobConfig) :
    getSubOptions config jobName = some jobConfig := by
  unfold loadJob at loaded
  split at loaded
  · rename_i found
    rw [found, Except.ok.inj loaded]
  · nomatch loaded

/-- A file whose only job has a script and artifacts at the given path. -/
def archiving (path : Value) : DataBag :=
  [(ascii "job", .map [(.text (ascii "script"), .list [.scalar (.text (ascii "make"))]),
    (.text (ascii "artifacts"), .map [(.text (ascii "paths"), .list [path])])])]

def emptyJob : JobResponse :=
  ⟨0, [], [], [], [], [], 0, [], [], [], [], ⟨[], [], [], []⟩, [], [], []⟩

end GitlabRunner.CiYaml
