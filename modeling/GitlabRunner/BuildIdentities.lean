import GitlabRunner.ActionRuns
import GitlabRunner.ByteText
import Mathlib.Data.List.Nodup
import Mathlib.Data.List.Perm.Subperm

/-!
# Identities of the running builds

`addBuild` of `commands/builds_helper.go` gives every build the first `RunnerID` that no
listed build of the same token has, and the first `ProjectRunnerID` that no listed build of
the same token and project has.
-/

namespace GitlabRunner.Identity

open ByteText List ActionRuns

def shortenToken (token : List UInt8) : List UInt8 :=
  if 8 ≤ token.length then token.take 8 else token

structure Build where
  token : List UInt8
  projectID : Int
  runnerID : Nat
  projectRunnerID : Nat
  deriving DecidableEq, Repr

def Build.shortDescription (build : Build) : List UInt8 :=
  shortenToken build.token

def Build.projectUniqueName (build : Build) : List UInt8 :=
  ascii "runner-" ++ build.shortDescription ++ ascii "-project-" ++ itoa build.projectID ++
    ascii "-concurrent-" ++ itoa build.projectRunnerID

/-- The list of builds of `buildsHelper`.  A build is known by its address, and
`heap` has the fields of the build at each address. -/
structure Builds where
  heap : Nat → Build
  builds : List Nat

/-- The loop that counts an id up while it is taken.  Ids that are all taken are at
most as many as the listed builds, so the loop ends within that many steps. -/
def countUp (taken : List Nat) : Nat → Nat → Nat
  | 0, id => id
  | steps + 1, id => if taken.contains id then countUp taken steps (id + 1) else id

namespace Builds

def runners (helper : Builds) (build : Build) : List Nat :=
  ((helper.builds.map helper.heap).filter (fun other => other.token = build.token)).map
    Build.runnerID

def projectRunners (helper : Builds) (build : Build) : List Nat :=
  ((helper.builds.map helper.heap).filter (fun other =>
    other.token = build.token ∧ other.projectID = build.projectID)).map Build.projectRunnerID

def assign (helper : Builds) (build : Build) : Build :=
  { build with
    runnerID :=
      countUp (helper.runners build) (helper.runners build).length build.runnerID
    projectRunnerID :=
      countUp (helper.projectRunners build) (helper.projectRunners build).length
        build.projectRunnerID }

/-- `addBuild`; the address of a `nil` build is `none`. -/
def addBuild (helper : Builds) : Option Nat → Builds
  | none => helper
  | some address =>
    { heap := Function.update helper.heap address (helper.assign (helper.heap address))
      builds := helper.builds ++ [address] }

/-- `removeBuild`: the first entry with the address is removed. -/
def removeBuild (helper : Builds) (address : Nat) : Builds × Bool :=
  ({ helper with builds := helper.builds.erase address }, helper.builds.contains address)

end Builds

inductive Action where
  | add (address : Option Nat)
  | remove (address : Nat)
  deriving DecidableEq, Repr

/-- One call.  The lock of the helper makes every call one step. -/
def step (helper : Builds) : Action → Option Builds
  | .add address => some (helper.addBuild address)
  | .remove address => some (helper.removeBuild address).1

def start (token : Nat → List UInt8) (projectID : Nat → Int) : Builds where
  heap := fun address => ⟨token address, projectID address, 0, 0⟩
  builds := []

/-- The condition on a call: no listed build of the project of an added build has
another token that starts with the same bytes. -/
def addsApart (helper : Builds) : Action → Prop
  | .add (some address) => ∀ other ∈ helper.builds,
    (helper.heap other).projectID = (helper.heap address).projectID →
    (helper.heap other).shortDescription = (helper.heap address).shortDescription →
    (helper.heap other).token = (helper.heap address).token
  | .add none => True
  | .remove _ => True

instance (helper : Builds) : (action : Action) → Decidable (addsApart helper action)
  | .add (some _) => inferInstanceAs (Decidable (∀ other ∈ helper.builds, _))
  | .add none => instDecidableTrue
  | .remove _ => instDecidableTrue

/-- The listed builds have their own identities. -/
structure Builds.Distinct (helper : Builds) : Prop where
  runnerID : ∀ first ∈ helper.builds, ∀ second ∈ helper.builds, first ≠ second →
    (helper.heap first).token = (helper.heap second).token →
    (helper.heap first).runnerID ≠ (helper.heap second).runnerID
  projectRunnerID : ∀ first ∈ helper.builds, ∀ second ∈ helper.builds, first ≠ second →
    (helper.heap first).token = (helper.heap second).token →
    (helper.heap first).projectID = (helper.heap second).projectID →
    (helper.heap first).projectRunnerID ≠ (helper.heap second).projectRunnerID

def Builds.NamesDistinct (helper : Builds) : Prop :=
  ∀ first ∈ helper.builds, ∀ second ∈ helper.builds, first ≠ second →
    (helper.heap first).projectUniqueName ≠ (helper.heap second).projectUniqueName

/-- The ids that `addBuild` would assign to a build are the smallest that no listed
build of its token, or of its token and project, has. -/
structure Builds.AssignsSmallest (helper : Builds) (build : Build) : Prop where
  runnerID : (helper.assign build).runnerID ∉ helper.runners build ∧
    ∀ id < (helper.assign build).runnerID, id ∈ helper.runners build
  projectRunnerID : (helper.assign build).projectRunnerID ∉ helper.projectRunners build ∧
    ∀ id < (helper.assign build).projectRunnerID, id ∈ helper.projectRunners build

theorem mem_of_lt_countUp {taken : List Nat} {steps id other : Nat} (started : id ≤ other)
    (below : other < countUp taken steps id) : other ∈ taken := by
  induction steps generalizing id with
  | zero =>
    simp only [countUp] at below
    omega
  | succ steps ih =>
    simp only [countUp] at below
    split at below
    · rename_i isTaken
      by_cases isFirst : id = other
      · rw [← isFirst]
        exact contains_iff_mem.mp isTaken
      · apply ih _ below
        omega
    · omega

theorem mem_of_countUp_mem {taken : List Nat} {steps id : Nat}
    (stuck : countUp taken steps id ∈ taken) {distance : Nat} (near : distance ≤ steps) :
    id + distance ∈ taken := by
  induction steps generalizing id distance with
  | zero =>
    have atStart : distance = 0 := by omega
    rw [atStart]
    exact stuck
  | succ steps ih =>
    simp only [countUp] at stuck
    split at stuck
    · rename_i isTaken
      cases distance with
      | zero => exact contains_iff_mem.mp isTaken
      | succ distance =>
        have later := ih stuck (Nat.le_of_succ_le_succ near)
        rw [Nat.add_assoc, Nat.add_comm 1 distance] at later
        exact later
    · rename_i isFree
      exact (isFree (contains_iff_mem.mpr stuck)).elim

/-- The loop leaves the taken ids: they are too few to fill all its steps. -/
theorem countUp_not_mem (taken : List Nat) (id : Nat) : countUp taken taken.length id ∉ taken := by
  intro stuck
  have included : (List.range (taken.length + 1)).map (id + ·) ⊆ taken := by
    intro other member
    obtain ⟨distance, inRange, rfl⟩ := mem_map.mp member
    rw [mem_range] at inRange
    exact mem_of_countUp_mem stuck (by omega)
  have nodup : ((List.range (taken.length + 1)).map (id + ·)).Nodup := by
    apply List.Nodup.map _ nodup_range
    intro first second same
    exact Nat.add_left_cancel same
  have bounded := (subperm_of_subset nodup included).length_le
  rw [length_map, length_range] at bounded
  omega

namespace Builds
variable {helper : Builds}

theorem assignsSmallest {build : Build} (runnerZero : build.runnerID = 0)
    (projectZero : build.projectRunnerID = 0) : helper.AssignsSmallest build where
  runnerID := by
    refine ⟨countUp_not_mem _ _, ?_⟩
    intro id below
    apply mem_of_lt_countUp _ below
    omega
  projectRunnerID := by
    refine ⟨countUp_not_mem _ _, ?_⟩
    intro id below
    apply mem_of_lt_countUp _ below
    omega

@[simp]
theorem heap_addBuild_self (helper : Builds) (address : Nat) :
    (helper.addBuild (some address)).heap address = helper.assign (helper.heap address) := by
  simp [addBuild]

theorem heap_addBuild_of_ne (helper : Builds) {address other : Nat} (different : other ≠ address) :
    (helper.addBuild (some address)).heap other = helper.heap other := by
  simp [addBuild, Function.update_of_ne different]

/-- A symmetric relation between the listed builds survives `addBuild` if the added
build is related to the others. -/
theorem pairwise_addBuild (Related : Build → Build → Prop) {address : Nat}
    (symmetric : ∀ first second, Related first second → Related second first)
    (listed : ∀ first ∈ helper.builds, ∀ second ∈ helper.builds, first ≠ second →
      Related (helper.heap first) (helper.heap second))
    (added : ∀ other ∈ helper.builds, other ≠ address →
      Related (helper.heap other) (helper.assign (helper.heap address))) :
    ∀ first ∈ (helper.addBuild (some address)).builds,
      ∀ second ∈ (helper.addBuild (some address)).builds, first ≠ second →
      Related ((helper.addBuild (some address)).heap first)
        ((helper.addBuild (some address)).heap second) := by
  have old : ∀ other ∈ (helper.addBuild (some address)).builds, other ≠ address →
      other ∈ helper.builds := by
    intro other member different
    rcases mem_append.mp member with isListed | isAdded
    · exact isListed
    · exact (different (mem_singleton.mp isAdded)).elim
  intro first firstListed second secondListed different
  by_cases firstAdded : first = address
  · have secondOld : second ≠ address := fun isAdded => different (firstAdded.trans isAdded.symm)
    rw [firstAdded, heap_addBuild_self, heap_addBuild_of_ne helper secondOld]
    apply symmetric
    exact added second (old second secondListed secondOld) secondOld
  · rw [heap_addBuild_of_ne helper firstAdded]
    by_cases secondAdded : second = address
    · rw [secondAdded, heap_addBuild_self]
      exact added first (old first firstListed firstAdded) firstAdded
    · rw [heap_addBuild_of_ne helper secondAdded]
      exact listed first (old first firstListed firstAdded) second
        (old second secondListed secondAdded) different

theorem Distinct.add (distinct : helper.Distinct) (address : Nat) :
    (helper.addBuild (some address)).Distinct where
  runnerID := by
    apply pairwise_addBuild
      (fun first second => first.token = second.token → first.runnerID ≠ second.runnerID)
    · intro first second related sameToken
      exact (related sameToken.symm).symm
    · exact distinct.runnerID
    · intro other listed _ sameToken same
      apply countUp_not_mem (helper.runners _) (helper.heap address).runnerID
      exact mem_map.mpr ⟨_, mem_filter.mpr ⟨mem_map_of_mem listed, decide_eq_true sameToken⟩, same⟩
  projectRunnerID := by
    apply pairwise_addBuild (fun first second => first.token = second.token →
        first.projectID = second.projectID → first.projectRunnerID ≠ second.projectRunnerID)
    · intro first second related sameToken sameProject
      exact (related sameToken.symm sameProject.symm).symm
    · exact distinct.projectRunnerID
    · intro other listed _ sameToken sameProject same
      apply countUp_not_mem (helper.projectRunners _) (helper.heap address).projectRunnerID
      exact mem_map.mpr ⟨_, mem_filter.mpr ⟨mem_map_of_mem listed,
        decide_eq_true ⟨sameToken, sameProject⟩⟩, same⟩

theorem Distinct.remove (distinct : helper.Distinct) (address : Nat) :
    (helper.removeBuild address).1.Distinct where
  runnerID first firstListed second secondListed :=
    distinct.runnerID first (mem_of_mem_erase firstListed) second (mem_of_mem_erase secondListed)
  projectRunnerID first firstListed second secondListed :=
    distinct.projectRunnerID first (mem_of_mem_erase firstListed) second
      (mem_of_mem_erase secondListed)

theorem Distinct.step {next : Builds} {action : Action} (distinct : helper.Distinct)
    (stepTo : Identity.step helper action = some next) : next.Distinct := by
  cases action with
  | add address =>
    cases stepTo
    cases address with
    | none => exact distinct
    | some address => exact distinct.add address
  | remove address =>
    cases stepTo
    exact distinct.remove address

/-- The listed builds of one project whose tokens start alike have one token. -/
def Apart (helper : Builds) : Prop :=
  ∀ first ∈ helper.builds, ∀ second ∈ helper.builds, first ≠ second →
    (helper.heap first).projectID = (helper.heap second).projectID →
    (helper.heap first).shortDescription = (helper.heap second).shortDescription →
    (helper.heap first).token = (helper.heap second).token

theorem Apart.step {next : Builds} {action : Action} (apart : helper.Apart)
    (condition : addsApart helper action) (stepTo : Identity.step helper action = some next) :
    next.Apart := by
  cases action with
  | add address =>
    cases stepTo
    cases address with
    | none => exact apart
    | some address =>
      apply pairwise_addBuild (fun first second => first.projectID = second.projectID →
          first.shortDescription = second.shortDescription → first.token = second.token)
      · intro first second related sameProject sameStart
        exact (related sameProject.symm sameStart.symm).symm
      · exact apart
      · intro other listed _
        exact condition other listed
  | remove address =>
    cases stepTo
    intro first firstListed second secondListed
    exact apart first (mem_of_mem_erase firstListed) second (mem_of_mem_erase secondListed)

end Builds

/-- The part of a name before the last number ends differently for a negative
project id. -/
theorem projectPart_inj {first second : List UInt8} {firstID secondID : Int}
    (same : first ++ ascii "-project-" ++ itoa firstID =
      second ++ ascii "-project-" ++ itoa secondID) : first = second ∧ firstID = secondID := by
  -- The sign of a negative project is the last dash.
  have shape (text : List UInt8) (value : Int) : text ++ ascii "-project-" ++ itoa value =
      (text ++ if value < 0 then ascii "-project-" else ascii "-project") ++
        minus :: digits value.natAbs := by
    cases value with
    | ofNat value =>
      have unsigned : ¬ Int.ofNat value < 0 := Int.not_lt.mpr (Int.natCast_nonneg value)
      rw [if_neg unsigned, append_assoc, append_assoc]
      rfl
    | negSucc value =>
      rw [if_pos (Int.negSucc_lt_zero value)]
      rfl
  have mixed (text other : List UInt8) : text ++ ascii "-project" ≠ other ++ ascii "-project-" := by
    intro sameText
    have lastBytes := congrArg List.getLast? sameText
    rw [List.getLast?_append_of_ne_nil _ (by decide),
      List.getLast?_append_of_ne_nil _ (by decide)] at lastBytes
    revert lastBytes
    decide
  rw [shape, shape] at same
  obtain ⟨texts, values⟩ := append_cons_inj_last (minus_not_mem_digits _)
    (minus_not_mem_digits _) same
  have sizes := digits_inj values
  split at texts <;> split at texts
  · exact ⟨append_cancel_right texts, by omega⟩
  · exact (mixed _ _ texts.symm).elim
  · exact (mixed _ _ texts).elim
  · exact ⟨append_cancel_right texts, by omega⟩

theorem projectUniqueName_inj {first second : Build}
    (same : first.projectUniqueName = second.projectUniqueName) :
    first.shortDescription = second.shortDescription ∧ first.projectID = second.projectID ∧
      first.projectRunnerID = second.projectRunnerID := by
  have shape : ∀ build : Build, build.projectUniqueName =
      ((ascii "runner-" ++ build.shortDescription) ++ ascii "-project-" ++
        itoa build.projectID ++ ascii "-concurrent") ++ minus :: digits build.projectRunnerID := by
    intro build
    simp only [Build.projectUniqueName, append_assoc]
    rfl
  rw [shape, shape] at same
  obtain ⟨projects, ids⟩ := append_cons_inj_last (minus_not_mem_digits _)
    (minus_not_mem_digits _) same
  obtain ⟨tokens, sameProject⟩ := projectPart_inj (append_cancel_right projects)
  exact ⟨append_cancel_left tokens, sameProject, digits_inj ids⟩

theorem Builds.namesDistinct {helper : Builds} (distinct : helper.Distinct)
    (apart : helper.Apart) : helper.NamesDistinct := by
  intro first firstListed second secondListed different sameName
  obtain ⟨sameStart, sameProject, sameID⟩ := projectUniqueName_inj sameName
  have sameToken := apart first firstListed second secondListed different sameProject sameStart
  exact distinct.projectRunnerID first firstListed second secondListed different sameToken
    sameProject sameID

theorem heap_run {helper last : Builds} {actions : List Action} {address : Nat}
    (notAdded : Action.add (some address) ∉ actions)
    (reached : run step helper actions = some last) : last.heap address = helper.heap address := by
  induction actions generalizing helper with
  | nil =>
    cases reached
    rfl
  | cons action actions ih =>
    obtain ⟨next, stepTo, reachedNext⟩ := run_cons_eq_some.mp reached
    rw [mem_cons, not_or] at notAdded
    rw [ih notAdded.2 reachedNext]
    cases action with
    | remove removed =>
      cases stepTo
      rfl
    | add added =>
      cases stepTo
      cases added with
      | none => rfl
      | some added =>
        apply Builds.heap_addBuild_of_ne
        rintro rfl
        exact notAdded.1 rfl

/-- In every run of calls in which no build is added beside one of its project with
another token that starts alike, the listed builds have distinct ids and names in
every state reached, and a build that was not added before gets the smallest free
ids. -/
theorem builds_distinct {token : Nat → List UInt8} {projectID : Nat → Int}
    {actions : List Action} {helper : Builds}
    (condition : MeetsAlong step addsApart (start token projectID) actions)
    (reached : run step (start token projectID) actions = some helper) :
    helper.Distinct ∧ helper.NamesDistinct ∧
      ∀ address, Action.add (some address) ∉ actions →
        helper.AssignsSmallest (helper.heap address) := by
  have initially : (start token projectID).Distinct ∧ (start token projectID).Apart :=
    ⟨⟨nofun, nofun⟩, nofun⟩
  have invariant := run_invariant
    (fun helper : Builds => helper.Distinct ∧ helper.Apart)
    (fun helper action next holds meets stepTo =>
      ⟨holds.1.step stepTo, holds.2.step meets stepTo⟩)
    initially condition reached
  refine ⟨invariant.1, Builds.namesDistinct invariant.1 invariant.2, ?_⟩
  intro address notAdded
  have unchanged := heap_run notAdded reached
  apply Builds.assignsSmallest
  · rw [unchanged]
    rfl
  · rw [unchanged]
    rfl

/-- Builds of one runner: the id of a removed build is given to the next one. -/
theorem builds_distinct_reuse :
    ∃ helper, run step (start (fun _ => ascii "token-of-runner") (fun _ => 7))
        [.add (some 0), .add (some 1), .remove 0, .add (some 2)] = some helper ∧
      (helper.heap 2).projectRunnerID = 0 ∧ helper.builds = [1, 2] ∧
      helper.NamesDistinct := by
  obtain ⟨helper, reached, fields⟩ := Option.map_eq_some_iff.mp (by decide :
    (run step (start (fun _ => ascii "token-of-runner") (fun _ => 7))
      [.add (some 0), .add (some 1), .remove 0, .add (some 2)]).map
        (fun helper => ((helper.heap 2).projectRunnerID, helper.builds)) = some (0, [1, 2]))
  injection fields with id listed
  have condition : MeetsAlong step addsApart
      (start (fun _ => ascii "token-of-runner") (fun _ => 7))
      [.add (some 0), .add (some 1), .remove 0, .add (some 2)] := by decide
  exact ⟨helper, reached, id, listed, (builds_distinct condition reached).2.1⟩

/-- Without the condition two builds get one name: the tokens differ only behind
their first eight bytes, and each of the builds is the first one of its token. -/
theorem name_shared :
    ¬ ∀ (token : Nat → List UInt8) (projectID : Nat → Int) (actions : List Action)
      (helper : Builds), run step (start token projectID) actions = some helper →
      helper.Distinct ∧ helper.NamesDistinct ∧
        ∀ address, Action.add (some address) ∉ actions →
          helper.AssignsSmallest (helper.heap address) := by
  intro always
  obtain ⟨helper, reached, fields⟩ := Option.map_eq_some_iff.mp (by decide :
    (run step (start
      (fun address => if address = 0 then ascii "registered-one" else ascii "registered-two")
      (fun _ => 7)) [.add (some 0), .add (some 1)]).map
        (fun helper => (helper.builds, decide ((helper.heap 0).projectUniqueName =
          (helper.heap 1).projectUniqueName))) = some ([0, 1], true))
  injection fields with listed same
  have names := (always _ _ _ helper reached).2.1
  apply names 0 (by rw [listed]; decide) 1 (by rw [listed]; decide) (by decide)
  exact of_decide_eq_true same

end GitlabRunner.Identity
