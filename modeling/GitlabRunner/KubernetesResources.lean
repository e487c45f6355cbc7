import GitlabRunner.ByteText

/-!
# Limits and requests of Kubernetes containers

`setupResources` of the Kubernetes executor turns twelve settings into six resource lists
with `limits` of `executors/kubernetes/util.go`.
-/

namespace GitlabRunner.KubernetesResources

open ByteText

/-- A quantity as a Go value: its amount in units of 10⁻⁹, the text it was made from and
its format. -/
structure Quantity where
  nanos : Int
  cached : List UInt8
  format : List UInt8
  deriving DecidableEq, Repr

def Quantity.empty : Quantity := ⟨0, [], []⟩

/-- An `api.ResourceList` with its two possible keys. -/
structure ResourceList where
  cpu : Option Quantity
  memory : Option Quantity
  deriving DecidableEq, Repr

inductive Error where
  | parsingResourceLimit (text : List UInt8)
  | invalid (setting : String) (cause : Error)
  deriving DecidableEq, Repr

structure KubernetesConfig where
  cpuLimit : List UInt8
  memoryLimit : List UInt8
  serviceCPULimit : List UInt8
  serviceMemoryLimit : List UInt8
  helperCPULimit : List UInt8
  helperMemoryLimit : List UInt8
  cpuRequest : List UInt8
  memoryRequest : List UInt8
  serviceCPURequest : List UInt8
  serviceMemoryRequest : List UInt8
  helperCPURequest : List UInt8
  helperMemoryRequest : List UInt8
  deriving DecidableEq, Repr

structure Resources where
  buildLimits : ResourceList
  serviceLimits : ResourceList
  helperLimits : ResourceList
  buildRequests : ResourceList
  serviceRequests : ResourceList
  helperRequests : ResourceList
  deriving DecidableEq, Repr

variable (parseQuantity : List UInt8 → Option Quantity)

def parse (text : List UInt8) : Except Error Quantity :=
  if text.length = 0 then .ok .empty
  else match parseQuantity text with
    | none => .error (.parsingResourceLimit text)
    | some quantity => .ok quantity

def entry (quantity : Quantity) : Option Quantity :=
  if quantity ≠ .empty then some quantity else none

def limits (cpu memory : List UInt8) : Except Error ResourceList :=
  match parse parseQuantity cpu with
  | .error _ => .ok ⟨none, none⟩
  | .ok rCPU =>
    match parse parseQuantity memory with
    | .error _ => .ok ⟨none, none⟩
    | .ok rMem => .ok ⟨entry rCPU, entry rMem⟩

/-- One list of `setupResources`, with the name of it in the error. -/
def setting (name : String) (cpu memory : List UInt8) : Except Error ResourceList :=
  (limits parseQuantity cpu memory).mapError (.invalid name)

def setupResources (config : KubernetesConfig) : Except Error Resources := do
  let buildLimits ← setting parseQuantity "build limits" config.cpuLimit config.memoryLimit
  let serviceLimits ← setting parseQuantity "service limits" config.serviceCPULimit
    config.serviceMemoryLimit
  let helperLimits ← setting parseQuantity "helper limits" config.helperCPULimit
    config.helperMemoryLimit
  let buildRequests ← setting parseQuantity "build requests" config.cpuRequest
    config.memoryRequest
  let serviceRequests ← setting parseQuantity "service requests" config.serviceCPURequest
    config.serviceMemoryRequest
  let helperRequests ← setting parseQuantity "helper requests" config.helperCPURequest
    config.helperMemoryRequest
  return ⟨buildLimits, serviceLimits, helperLimits, buildRequests, serviceRequests,
    helperRequests⟩

section Specification

variable (config : KubernetesConfig)

def KubernetesConfig.texts : List (List UInt8) :=
  [config.cpuLimit, config.memoryLimit, config.serviceCPULimit, config.serviceMemoryLimit,
    config.helperCPULimit, config.helperMemoryLimit, config.cpuRequest, config.memoryRequest,
    config.serviceCPURequest, config.serviceMemoryRequest, config.helperCPURequest,
    config.helperMemoryRequest]

/-- The quantity that a text sets, unless it is zero. -/
def configured (text : List UInt8) : Option Quantity :=
  if text = [] then none else (parseQuantity text).filter fun quantity => quantity.nanos ≠ 0

def resourcesOf (list : List UInt8 → List UInt8 → ResourceList) : Resources where
  buildLimits := list config.cpuLimit config.memoryLimit
  serviceLimits := list config.serviceCPULimit config.serviceMemoryLimit
  helperLimits := list config.helperCPULimit config.helperMemoryLimit
  buildRequests := list config.cpuRequest config.memoryRequest
  serviceRequests := list config.serviceCPURequest config.serviceMemoryRequest
  helperRequests := list config.helperCPURequest config.helperMemoryRequest

structure ReportsInvalid : Prop where
  error : (∃ err, setupResources parseQuantity config = .error err) ↔
    ∃ text ∈ config.texts, text ≠ [] ∧ parseQuantity text = none
  listed : ∀ resources, setupResources parseQuantity config = .ok resources →
    resources = resourcesOf config fun cpu memory =>
      ⟨configured parseQuantity cpu, configured parseQuantity memory⟩

/-- A text that is empty or a quantity, and one that is zero only as `Quantity{}`. -/
def Plain (text : List UInt8) : Prop :=
  text ≠ [] → ∃ quantity, parseQuantity text = some quantity ∧
    (quantity.nanos = 0 → quantity = .empty)

end Specification

variable {parseQuantity} {text : List UInt8}

/-- The list that `limits` returns, which is never an error. -/
def listOf (parseQuantity : List UInt8 → Option Quantity) (cpu memory : List UInt8) :
    ResourceList :=
  match parse parseQuantity cpu, parse parseQuantity memory with
  | .ok rCPU, .ok rMem => ⟨entry rCPU, entry rMem⟩
  | _, _ => ⟨none, none⟩

theorem setting_eq (name : String) (cpu memory : List UInt8) :
    setting parseQuantity name cpu memory = .ok (listOf parseQuantity cpu memory) := by
  unfold setting limits listOf
  cases parse parseQuantity cpu with
  | error => rfl
  | ok =>
    cases parse parseQuantity memory with
    | error | ok => rfl

theorem setupResources_eq (config : KubernetesConfig) :
    setupResources parseQuantity config = .ok (resourcesOf config (listOf parseQuantity)) := by
  simp only [setupResources, setting_eq]
  rfl

def Valid (parseQuantity : List UInt8 → Option Quantity) (text : List UInt8) : Prop :=
  text ≠ [] → parseQuantity text ≠ none

theorem parse_eq_ok (valid : Valid parseQuantity text) :
    ∃ quantity, parse parseQuantity text = .ok quantity ∧
      (entry quantity = configured parseQuantity text ↔ Plain parseQuantity text) := by
  by_cases isEmpty : text = []
  · subst isEmpty
    exact ⟨.empty, rfl, fun _ => nofun, fun _ => rfl⟩
  · obtain ⟨quantity, parsed⟩ := Option.ne_none_iff_exists'.mp (valid isEmpty)
    refine ⟨quantity, by simp [parse, isEmpty, parsed], ?_⟩
    by_cases zero : quantity.nanos = 0
    · simp [entry, configured, Plain, isEmpty, parsed, zero, Option.filter]
    · have nonempty : quantity ≠ .empty := by
        rintro rfl
        exact zero rfl
      simp [entry, configured, Plain, isEmpty, parsed, zero, nonempty, Option.filter]

theorem listOf_eq_configured_iff {cpu memory : List UInt8} (validCPU : Valid parseQuantity cpu)
    (validMemory : Valid parseQuantity memory) :
    listOf parseQuantity cpu memory =
        ⟨configured parseQuantity cpu, configured parseQuantity memory⟩ ↔
      Plain parseQuantity cpu ∧ Plain parseQuantity memory := by
  obtain ⟨rCPU, parsedCPU, isCPU⟩ := parse_eq_ok validCPU
  obtain ⟨rMem, parsedMemory, isMemory⟩ := parse_eq_ok validMemory
  simp only [listOf, parsedCPU, parsedMemory, ResourceList.mk.injEq, isCPU, isMemory]

/-- Invalid settings are reported and the lists are those that were configured, if and only
if every setting is empty, a quantity other than zero, or the zero of `Quantity{}`. -/
theorem reportsInvalid_iff (parseQuantity : List UInt8 → Option Quantity)
    (config : KubernetesConfig) :
    ReportsInvalid parseQuantity config ↔ ∀ text ∈ config.texts, Plain parseQuantity text := by
  have noError : ¬ ∃ err, setupResources parseQuantity config = .error err := by
    rw [setupResources_eq]
    rintro ⟨err, same⟩
    cases same
  have lists (valid : ∀ text ∈ config.texts, Valid parseQuantity text) :
      (∀ resources, setupResources parseQuantity config = .ok resources →
        resources = resourcesOf config fun cpu memory =>
          ⟨configured parseQuantity cpu, configured parseQuantity memory⟩) ↔
      ∀ text ∈ config.texts, Plain parseQuantity text := by
    simp only [KubernetesConfig.texts, List.forall_mem_cons] at valid ⊢
    obtain ⟨a, b, c, d, e, f, g, h, i, j, k, l, -⟩ := valid
    simp only [setupResources_eq, Except.ok.injEq, forall_eq', resourcesOf,
      Resources.mk.injEq, listOf_eq_configured_iff, a, b, c, d, e, f, g, h, i, j, k, l, and_assoc]
    simp
  constructor
  · intro reports
    refine (lists fun text member notEmpty invalid => ?_).mp reports.listed
    exact noError (reports.error.mpr ⟨text, member, notEmpty, invalid⟩)
  · intro plain
    have valid : ∀ text ∈ config.texts, Valid parseQuantity text := by
      intro text member notEmpty invalid
      obtain ⟨quantity, parsed, _⟩ := plain text member notEmpty
      rw [parsed] at invalid
      cases invalid
    refine ⟨⟨fun fails => (noError fails).elim, ?_⟩, (lists valid).mpr plain⟩
    rintro ⟨text, member, notEmpty, invalid⟩
    exact (valid text member notEmpty invalid).elim

/-- A limit that is not a quantity, and a limit of zero. -/
theorem invalid_and_zero_limits :
    ¬ ReportsInvalid (fun _ => none) ⟨ascii "100j", [], [], [], [], [], [], [], [], [], [], []⟩ ∧
    ¬ ReportsInvalid (fun text => some ⟨0, text, ascii "DecimalSI"⟩)
      ⟨ascii "0", [], [], [], [], [], [], [], [], [], [], []⟩ := by
  constructor
  · intro reports
    obtain ⟨err, fails⟩ := reports.error.mpr ⟨ascii "100j", List.mem_cons_self, nofun, rfl⟩
    cases fails
  · intro reports
    have listed := reports.listed _ rfl
    exact absurd listed (by decide)

end GitlabRunner.KubernetesResources
