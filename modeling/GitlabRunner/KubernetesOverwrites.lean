import GitlabRunner.JobVariables
import Mathlib.Data.List.Infix

/-!
# Overwrites of the kubernetes settings

`executors/kubernetes/overwrites.go`: a job may replace the namespace, the service account,
the bearer token and the pod annotations of its runner, as far as the administrator allows
it with a regular expression.
-/

namespace GitlabRunner.Kubernetes

open ByteText Variables Function

abbrev StringMap := List UInt8 → Option (List UInt8)

/-- The packages `regexp` and `strconv`, as far as the overwrites use them: the compiled
expression decides which texts match, and `quote` is the verb `%q`. -/
structure Packages where
  compile : List UInt8 → Except (List UInt8) (List UInt8 → Bool)
  quote : List UInt8 → List UInt8

structure KubernetesConfig where
  nameSpace : List UInt8
  namespaceOverwriteAllowed : List UInt8
  serviceAccount : List UInt8
  serviceAccountOverwriteAllowed : List UInt8
  bearerToken : List UInt8
  bearerTokenOverwriteAllowed : Bool
  podAnnotations : StringMap
  podAnnotationsOverwriteAllowed : List UInt8

structure Overwrites where
  nameSpace : List UInt8
  serviceAccount : List UInt8
  bearerToken : List UInt8
  podAnnotations : StringMap

def namespaceOverwriteVariableName : List UInt8 := ascii "KUBERNETES_NAMESPACE_OVERWRITE"

def serviceAccountOverwriteVariableName : List UInt8 :=
  ascii "KUBERNETES_SERVICE_ACCOUNT_OVERWRITE"

def bearerTokenOverwriteVariableValue : List UInt8 := ascii "KUBERNETES_BEARER_TOKEN"

def podAnnotationsOverwriteVariablePrefix : List UInt8 := ascii "KUBERNETES_POD_ANNOTATIONS_"

section Source

variable (packages : Packages)

def overwriteRegexCheck (regex value : List UInt8) : Except (List UInt8) Unit := do
  let matchString ← packages.compile regex
  if matchString value then pure ()
  else
    throw (ascii "Provided value " ++ packages.quote value ++ ascii " does not match regex " ++
      packages.quote regex)

def evaluateOverwrite (value regex overwriteValue : List UInt8) :
    Except (List UInt8) (List UInt8) :=
  if regex = [] then pure value
  else if overwriteValue = [] then pure value
  else do
    overwriteRegexCheck packages regex overwriteValue
    pure overwriteValue

/-- The expression that `evaluateBoolControlledOverwrite` takes. -/
def boolControlledRegex (canOverride : Bool) : List UInt8 :=
  if canOverride then ascii ".+" else []

def evaluateBoolControlledOverwrite (value : List UInt8) (canOverride : Bool)
    (overwriteValue : List UInt8) : Except (List UInt8) (List UInt8) :=
  evaluateOverwrite packages value (boolControlledRegex canOverride) overwriteValue

def splitMapOverwrite (text : List UInt8) : Except (List UInt8) (List UInt8 × List UInt8) :=
  if text.contains equalsSign then
    pure (text.takeWhile fun char => char ≠ equalsSign,
      (text.dropWhile fun char => char ≠ equalsSign).drop 1)
  else
    throw (ascii "Provided value " ++ packages.quote text ++
      ascii " is malformed, does not match k=v")

def evaluateMapEntry (regex variablesSelector : List UInt8) (finalValues : StringMap)
    (entry : JobVariable) : Except (List UInt8) StringMap :=
  if variablesSelector.isPrefixOf entry.key then do
    overwriteRegexCheck packages regex entry.value
    let (key, value) ← splitMapOverwrite packages entry.value
    pure (update finalValues key (some value))
  else pure finalValues

def evaluateMapOverwrite (values : StringMap) (regex : List UInt8)
    (jobVariables : JobVariables) (variablesSelector : List UInt8) :
    Except (List UInt8) StringMap :=
  if regex = [] then pure values
  else jobVariables.foldlM (evaluateMapEntry packages regex variablesSelector) values

def createOverwrites (config : KubernetesConfig) (jobVariables : JobVariables) :
    Except (List UInt8) Overwrites := do
  let nameSpace ← evaluateOverwrite packages config.nameSpace config.namespaceOverwriteAllowed
    (jobVariables.expand.get namespaceOverwriteVariableName)
  let serviceAccount ← evaluateOverwrite packages config.serviceAccount
    config.serviceAccountOverwriteAllowed
    (jobVariables.expand.get serviceAccountOverwriteVariableName)
  let bearerToken ← evaluateBoolControlledOverwrite packages config.bearerToken
    config.bearerTokenOverwriteAllowed
    (jobVariables.expand.get bearerTokenOverwriteVariableValue)
  let podAnnotations ← evaluateMapOverwrite packages config.podAnnotations
    config.podAnnotationsOverwriteAllowed jobVariables podAnnotationsOverwriteVariablePrefix
  pure ⟨nameSpace, serviceAccount, bearerToken, podAnnotations⟩

def buildPodAnnotations (overwrites : Overwrites) (jobVariables : JobVariables) : StringMap :=
  fun key => (overwrites.podAnnotations key).map jobVariables.expandValue

end Source

theorem bind_eq_ok {α β ε : Type} {first : Except ε α} {next : α → Except ε β} {result : β}
    (ok : first.bind next = .ok result) : ∃ value, first = .ok value ∧ next value = .ok result := by
  cases first with
  | error message => cases ok
  | ok value => exact ⟨value, rfl, ok⟩

def Matches (packages : Packages) (regex value : List UInt8) : Prop :=
  ∃ matchString, packages.compile regex = .ok matchString ∧ matchString value = true

/-- A setting under an expression: without one it is the configured value, and otherwise the
configured value or one that matches. -/
def Controlled (packages : Packages) (value regex result : List UInt8) : Prop :=
  (regex = [] → result = value) ∧ (result = value ∨ Matches packages regex result)
variable {packages : Packages} {regex : List UInt8}

theorem matches_of_overwriteRegexCheck {value : List UInt8}
    (ok : overwriteRegexCheck packages regex value = .ok ()) : Matches packages regex value := by
  obtain ⟨matchString, compiled, checked⟩ := bind_eq_ok ok
  refine ⟨matchString, compiled, ?_⟩
  cases verdict : matchString value with
  | true => rfl
  | false => simp [verdict, throw, throwThe, MonadExceptOf.throw] at checked

theorem evaluateOverwrite_controlled {value overwriteValue result : List UInt8}
    (ok : evaluateOverwrite packages value regex overwriteValue = .ok result) :
    Controlled packages value regex result := by
  unfold evaluateOverwrite at ok
  split at ok
  · obtain rfl := Except.ok.inj ok
    exact ⟨fun _ => rfl, .inl rfl⟩
  · rename_i allowed
    split at ok
    · obtain rfl := Except.ok.inj ok
      exact ⟨fun _ => rfl, .inl rfl⟩
    · obtain ⟨_, checked, same⟩ := bind_eq_ok ok
      obtain rfl := Except.ok.inj same
      exact ⟨fun disabled => (allowed disabled).elim, .inr (matches_of_overwriteRegexCheck checked)⟩

def annotationKey (text : List UInt8) : List UInt8 :=
  text.takeWhile fun char => char ≠ equalsSign

def annotationValue (text : List UInt8) : List UInt8 :=
  (text.dropWhile fun char => char ≠ equalsSign).drop 1

/-- The value that the job variables ask for under an annotation key: the last of the
annotation variables counts. -/
def requestedEntry : JobVariables → StringMap
  | [], _ => none
  | entry :: entries, key =>
    (requestedEntry entries key).or
      (if podAnnotationsOverwriteVariablePrefix.isPrefixOf entry.key ∧
          annotationKey entry.value = key then
        some (annotationValue entry.value)
      else none)

theorem evaluateMapEntry_ok {variablesSelector : List UInt8}
    {entry : JobVariable} {values finalValues : StringMap}
    (ok : evaluateMapEntry packages regex variablesSelector values entry = .ok finalValues) :
    finalValues =
      if variablesSelector.isPrefixOf entry.key then
        update values (annotationKey entry.value) (some (annotationValue entry.value))
      else values := by
  unfold evaluateMapEntry at ok
  split at ok
  · rename_i selected
    obtain ⟨_, _, rest⟩ := bind_eq_ok ok
    obtain ⟨parts, partsOk, same⟩ := bind_eq_ok rest
    unfold splitMapOverwrite at partsOk
    split at partsOk
    · obtain rfl := Except.ok.inj partsOk
      rw [if_pos selected]
      exact (Except.ok.inj same).symm
    · cases partsOk
  · rename_i other
    rw [if_neg other]
    exact (Except.ok.inj ok).symm

variable {jobVariables : JobVariables}

theorem evaluateMapEntries {values finalValues : StringMap}
    (ok : jobVariables.foldlM (evaluateMapEntry packages regex
      podAnnotationsOverwriteVariablePrefix) values = .ok finalValues) (key : List UInt8) :
    finalValues key = (requestedEntry jobVariables key).or (values key) := by
  induction jobVariables generalizing values with
  | nil =>
    obtain rfl := Except.ok.inj ok
    rfl
  | cons entry entries ih =>
    rw [List.foldlM_cons] at ok
    obtain ⟨between, entryOk, rest⟩ := bind_eq_ok ok
    rw [ih rest, requestedEntry, Option.or_assoc, evaluateMapEntry_ok entryOk]
    congr 1
    by_cases selected : podAnnotationsOverwriteVariablePrefix.isPrefixOf entry.key = true
    · by_cases sameKey : annotationKey entry.value = key
      · rw [if_pos selected, if_pos ⟨selected, sameKey⟩, sameKey, update_self]
        rfl
      · rw [if_pos selected, if_neg (fun both => sameKey both.2), update_of_ne (Ne.symm sameKey)]
        rfl
    · rw [if_neg selected, if_neg (fun both => selected both.1)]
      rfl

/-- Every annotation on the pod comes from the configuration, or matches the administrator's
expression as it stands there. -/
def AnnotationsAllowed (packages : Packages) (config : KubernetesConfig)
    (jobVariables : JobVariables) (annotations : StringMap) : Prop :=
  ∀ key value, annotations key = some value →
    (∃ configured, config.podAnnotations key = some configured ∧
      value = jobVariables.expandValue configured) ∨
    Matches packages config.podAnnotationsOverwriteAllowed (key ++ equalsSign :: value)

/-- The annotation that the job variables ask for under a key, with its references expanded,
still matches the administrator's expression, or is what the configuration gives. -/
def ExpansionsAllowed (packages : Packages) (config : KubernetesConfig)
    (jobVariables : JobVariables) : Prop :=
  config.podAnnotationsOverwriteAllowed ≠ [] →
    ∀ key value, requestedEntry jobVariables key = some value →
      (∃ configured, config.podAnnotations key = some configured ∧
        jobVariables.expandValue value = jobVariables.expandValue configured) ∨
      Matches packages config.podAnnotationsOverwriteAllowed
        (key ++ equalsSign :: jobVariables.expandValue value)

/-- The annotations of the overwrites: those that the job variables ask for, if that is
allowed at all, and else the configured ones. -/
theorem evaluateMapOverwrite_ok {values finalValues : StringMap}
    (ok : evaluateMapOverwrite packages values regex jobVariables
      podAnnotationsOverwriteVariablePrefix = .ok finalValues) (key : List UInt8) :
    finalValues key =
      if regex = [] then values key else (requestedEntry jobVariables key).or (values key) := by
  unfold evaluateMapOverwrite at ok
  split at ok
  · rename_i disabled
    rw [if_pos disabled]
    exact congrFun (Except.ok.inj ok).symm key
  · rename_i allowed
    rw [if_neg allowed]
    exact evaluateMapEntries ok key

/-- The annotations on the pod are allowed exactly if the requested ones still are after their
expansion. -/
theorem annotationsAllowed_iff {config : KubernetesConfig} {overwrites : Overwrites}
    (ok : evaluateMapOverwrite packages config.podAnnotations
      config.podAnnotationsOverwriteAllowed jobVariables podAnnotationsOverwriteVariablePrefix =
        .ok overwrites.podAnnotations) :
    AnnotationsAllowed packages config jobVariables (buildPodAnnotations overwrites jobVariables) ↔
      ExpansionsAllowed packages config jobVariables := by
  constructor
  · intro allowed enabled key value requested
    apply allowed key
    rw [buildPodAnnotations, evaluateMapOverwrite_ok ok, if_neg enabled, requested]
    rfl
  · intro expansions key value onPod
    rw [buildPodAnnotations, evaluateMapOverwrite_ok ok] at onPod
    split at onPod
    · obtain ⟨configured, configuredEq, same⟩ := Option.map_eq_some_iff.mp onPod
      exact .inl ⟨configured, configuredEq, same.symm⟩
    · rename_i enabled
      cases requested : requestedEntry jobVariables key with
      | none =>
        rw [requested] at onPod
        obtain ⟨configured, configuredEq, same⟩ := Option.map_eq_some_iff.mp onPod
        exact .inl ⟨configured, configuredEq, same.symm⟩
      | some raw =>
        rw [requested] at onPod
        obtain rfl : jobVariables.expandValue raw = value := Option.some.inj onPod
        exact expansions enabled key raw requested

/-- Expressions without special characters, which match the texts they occur in. -/
def literals : Packages where
  compile regex := .ok fun text => decide (regex <:+: text)
  quote text := byte '"' :: text ++ [byte '"']

def plainVariable (key value : String) : JobVariable :=
  ⟨ascii key, ascii value, false, false, false, false⟩

def annotating (regex : String) : KubernetesConfig where
  nameSpace := ascii "runners"
  namespaceOverwriteAllowed := []
  serviceAccount := []
  serviceAccountOverwriteAllowed := []
  bearerToken := []
  bearerTokenOverwriteAllowed := false
  podAnnotations := fun _ => none
  podAnnotationsOverwriteAllowed := ascii regex

def plainRequest : JobVariables :=
  [plainVariable "KUBERNETES_POD_ANNOTATIONS_1" "role=dev"]

def expandingRequest : JobVariables :=
  [plainVariable "dev" "admin", plainVariable "KUBERNETES_POD_ANNOTATIONS_1" "role=$dev"]

end GitlabRunner.Kubernetes
