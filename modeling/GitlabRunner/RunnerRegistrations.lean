import GitlabRunner.HttpClients

/-!
# Unregistering and verifying runners

The commands of `commands/unregister.go` and `commands/verify.go` ask the coordinator
about runners of the configuration and save those that stay.
-/

namespace GitlabRunner.RunnerRegistrations

open ByteText HttpClients List

/-- An entry of `config.Runners`, which holds pointers.  The coordinator is asked about an
entry at most once, so its answers are given by address. -/
structure Runner (Settings : Type) where
  address : Nat
  name : List UInt8
  credentials : Credentials
  settings : Settings
  deriving DecidableEq, Repr

def sameAs (credentials other : Credentials) : Bool :=
  credentials.url = other.url && credentials.token = other.token

inductive Outcome (Settings : Type) where
  | fatal
  | unchanged
  | saved (runners : List (Runner Settings))

variable {Settings : Type} (runners : List (Runner Settings))

def Outcome.file : Outcome Settings → List (Runner Settings)
  | .fatal => runners
  | .unchanged => runners
  | .saved kept => kept

section Unregister

structure UnregisterCommand where
  name : List UInt8
  credentials : Credentials
  allRunners : Bool
  deriving DecidableEq, Repr

/-- What `UnregisterRunner` answers: for each entry, and for the credentials of a single
runner. -/
structure Answers where
  each : Nat → Bool
  single : Bool

variable (command : UnregisterCommand) (answers : Answers)

def unregisterAllRunners : List (Runner Settings) :=
  runners.filter fun runner => !answers.each runner.address

def runnerByName (name : List UInt8) : Option (Runner Settings) :=
  runners.find? fun runner => runner.name = name

/-- The credentials that `unregisterSingleRunner` unregisters, if there are any. -/
def singleCredentials : Option Credentials :=
  if command.name.length > 0 then (runnerByName runners command.name).map (·.credentials)
  else some command.credentials

def unregisterSingleRunner : Option (List (Runner Settings)) :=
  match singleCredentials runners command with
  | none => none
  | some credentials =>
    if answers.single then
      some (runners.filter fun runner => !decide (runner.credentials = credentials))
    else none

def unregister : Outcome Settings :=
  let kept := if command.allRunners then some (unregisterAllRunners runners answers)
    else unregisterSingleRunner runners command answers
  match kept with
  | none => .fatal
  | some kept => if runners.length = kept.length then .unchanged else .saved kept

def unregistered : List Credentials :=
  if command.allRunners then
    (runners.filter fun runner => answers.each runner.address).map (·.credentials)
  else if answers.single then (singleCredentials runners command).toList else []

def ForgetsExactly : Prop :=
  (unregister runners command answers).file runners =
    runners.filter fun runner =>
      !(unregistered runners command answers).any (sameAs runner.credentials)

/-- Whoever has the URL and the token of unregistered credentials has all of these
credentials, or was unregistered as well if this was asked for all runners. -/
def Uniform : Prop :=
  ∀ runner ∈ runners, ∀ credentials ∈ unregistered runners command answers,
    sameAs runner.credentials credentials = true →
      if command.allRunners then answers.each runner.address = true
      else runner.credentials = credentials

variable {runners} {command} {answers}

theorem sameAs_self (credentials : Credentials) : sameAs credentials credentials = true := by
  simp [sameAs]

theorem file_of_filter {keep : Runner Settings → Bool} {kept : List (Runner Settings)}
    (isKept : kept = runners.filter keep) :
    (if runners.length = kept.length then Outcome.unchanged else .saved kept).file runners =
      runners.filter keep := by
  subst isKept
  split
  · rename_i same
    exact (filter_sublist.eq_of_length same.symm).symm
  · rfl

/-- Two filters keep the same if one keeps whatever the other one keeps. -/
theorem filter_eq_filter_iff {keep other : Runner Settings → Bool}
    (included : ∀ runner ∈ runners, other runner = true → keep runner = true) :
    runners.filter keep = runners.filter other ↔
      ∀ runner ∈ runners, keep runner = true → other runner = true := by
  constructor
  · intro same runner member keeps
    have kept : runner ∈ runners.filter keep := mem_filter.mpr ⟨member, keeps⟩
    rw [same] at kept
    exact (mem_filter.mp kept).2
  · intro keeps
    refine filter_congr fun runner member => ?_
    exact Bool.eq_iff_iff.mpr ⟨keeps runner member, included runner member⟩

theorem forgetsExactly_all_iff (all : command.allRunners = true) :
    ForgetsExactly runners command answers ↔ Uniform runners command answers := by
  have file : (unregister runners command answers).file runners =
      runners.filter fun runner => !answers.each runner.address := by
    unfold unregister
    rw [if_pos all]
    exact file_of_filter rfl
  rw [ForgetsExactly, file, filter_eq_filter_iff]
  · simp only [Uniform, if_pos all, Bool.not_eq_true', any_eq_false]
    constructor
    · intro kept runner member credentials isForgotten same
      by_contra failed
      exact kept runner member (Bool.eq_false_iff.mpr failed) credentials isForgotten same
    · intro uniform runner member failed credentials isForgotten same
      rw [uniform runner member credentials isForgotten same] at failed
      cases failed
  · intro runner member kept
    rw [Bool.not_eq_true', any_eq_false] at kept
    by_contra asked
    rw [Bool.not_eq_true', Bool.not_eq_false] at asked
    refine kept runner.credentials ?_ (sameAs_self _)
    rw [unregistered, if_pos all]
    exact mem_map_of_mem (mem_filter.mpr ⟨member, asked⟩)

theorem forgetsExactly_single_iff (one : command.allRunners = false) :
    ForgetsExactly runners command answers ↔ Uniform runners command answers := by
  have single : ¬ command.allRunners = true := by simp [one]
  cases chosen : singleCredentials runners command with
  | none =>
    simp [ForgetsExactly, Uniform, unregistered, unregister, unregisterSingleRunner, one, chosen,
      Outcome.file]
  | some credentials =>
    cases answered : answers.single with
    | false =>
      simp [ForgetsExactly, Uniform, unregistered, unregister, unregisterSingleRunner, one,
        chosen, answered, Outcome.file]
    | true =>
      have forgotten : unregistered runners command answers = [credentials] := by
        simp [unregistered, one, answered, chosen]
      have file : (unregister runners command answers).file runners =
          runners.filter fun runner => !decide (runner.credentials = credentials) := by
        unfold unregister unregisterSingleRunner
        rw [if_neg single, chosen]
        dsimp only
        rw [if_pos answered]
        exact file_of_filter rfl
      rw [ForgetsExactly, file, forgotten, filter_eq_filter_iff]
      · simp only [Uniform, if_neg single, forgotten, mem_singleton, forall_eq,
          any_cons, any_nil, Bool.or_false, Bool.not_eq_true',
          decide_eq_false_iff_not]
        refine forall₂_congr fun runner member => ?_
        rw [← Bool.not_eq_true, not_imp_not]
      · intro runner member kept
        rw [Bool.not_eq_true', decide_eq_false_iff_not]
        rintro rfl
        simp [sameAs_self] at kept

end Unregister

/-- The file forgets exactly what was unregistered if and only if no runner with the URL
and the token of an unregistered one differs from it in its other credentials or in the
answer of the coordinator. -/
theorem forgetsExactly_iff (runners : List (Runner Settings)) (command : UnregisterCommand)
    (answers : Answers) :
    ForgetsExactly runners command answers ↔ Uniform runners command answers := by
  cases all : command.allRunners with
  | true => exact forgetsExactly_all_iff all
  | false => exact forgetsExactly_single_iff all

/-- A second entry of the same runner with a certificate of its own. -/
theorem certificate_entry_kept :
    ¬ ForgetsExactly [⟨0, ascii "one", ⟨ascii "u", ascii "t", [], [], []⟩, ()⟩,
        ⟨1, ascii "two", ⟨ascii "u", ascii "t", ascii "ca", [], []⟩, ()⟩]
      ⟨ascii "one", ⟨[], [], [], [], []⟩, false⟩ ⟨fun _ => true, true⟩ := by
  unfold ForgetsExactly
  decide

section Verify

structure VerifyCommand where
  name : List UInt8
  credentials : Credentials
  deleteNonExisting : Bool
  deriving DecidableEq, Repr

variable (command : VerifyCommand) (runners : List (Runner Settings))

def selectorPresent : Bool :=
  command.name ≠ [] || command.credentials.url ≠ [] || command.credentials.token ≠ []

def selects (runner : Runner Settings) : Bool :=
  !selectorPresent command || runner.name = command.name ||
    sameAs runner.credentials command.credentials

/-- The runners to verify, the other ones, and whether no runner matches the selectors. -/
def selectRunners : List (Runner Settings) × List (Runner Settings) × Bool :=
  let toVerify := runners.filter (selects command)
  (toVerify, runners.filter fun runner => !selects command runner,
    selectorPresent command && toVerify.length = 0)

/-- The runners that were not selected, and the selected ones that `VerifyRunner` confirms. -/
def okRunners (verified : Nat → Bool) : List (Runner Settings) :=
  (selectRunners command runners).2.1 ++
    (selectRunners command runners).1.filter fun runner => verified runner.address

def verify (verified : Nat → Bool) : Outcome Settings :=
  if (selectRunners command runners).2.2 then .fatal
  else if runners.length = (okRunners command runners verified).length then .unchanged
  else if !command.deleteNonExisting then .fatal
  else .saved (okRunners command runners verified)

/-- Without a selector every runner is wanted; with one, those with the name that is given
or with the URL and the token. -/
def wanted (runner : Runner Settings) : Bool :=
  !selectorPresent command || (command.name ≠ [] && runner.name = command.name) ||
    sameAs runner.credentials command.credentials

structure VerifiesExactly : Prop where
  split : ((selectRunners command runners).1 ++ (selectRunners command runners).2.1).Perm runners
  disjoint : ∀ runner ∈ (selectRunners command runners).1,
    runner ∉ (selectRunners command runners).2.1
  selected : ∀ runner ∈ runners,
    runner ∈ (selectRunners command runners).1 ↔ wanted command runner = true
  deleted : command.deleteNonExisting = true → ∀ verified : Nat → Bool,
    ((verify command runners verified).file runners).Perm
      (runners.filter fun runner => !wanted command runner || verified runner.address)

/-- No runner is taken for its empty name. -/
def NamesApart : Prop :=
  selectorPresent command = true → command.name = [] →
    ∀ runner ∈ runners, runner.name = [] → sameAs runner.credentials command.credentials = true

variable {command} {runners}

theorem selects_eq_wanted (apart : NamesApart command runners) {runner : Runner Settings}
    (member : runner ∈ runners) : selects command runner = wanted command runner := by
  unfold selects wanted
  by_cases named : command.name = []
  · cases present : selectorPresent command with
    | false => rfl
    | true =>
      by_cases nameless : runner.name = []
      · simp [apart present named runner member nameless]
      · simp [named, nameless]
  · simp [named]

theorem filter_perm (chosen stays : Runner Settings → Bool) :
    ((runners.filter fun runner => !chosen runner) ++ (runners.filter chosen).filter stays).Perm
      (runners.filter fun runner => !chosen runner || stays runner) := by
  induction runners with
  | nil => exact .refl _
  | cons runner runners ih =>
    cases isChosen : chosen runner with
    | false => simpa [isChosen] using ih.cons runner
    | true =>
      cases isStaying : stays runner with
      | false => simpa [isChosen, isStaying] using ih
      | true => simpa [isChosen, isStaying] using perm_middle.trans (ih.cons runner)

theorem verify_file_perm (deletes : command.deleteNonExisting = true) (verified : Nat → Bool) :
    ((verify command runners verified).file runners).Perm
      (runners.filter fun runner => !selects command runner || verified runner.address) := by
  have kept : (okRunners command runners verified).Perm
      (runners.filter fun runner => !selects command runner || verified runner.address) :=
    filter_perm _ _
  unfold verify
  split
  · rename_i fails
    simp only [selectRunners, Bool.and_eq_true, decide_eq_true_eq] at fails
    have empty := filter_eq_nil_iff.mp (length_eq_zero_iff.mp fails.2)
    refine .of_eq (filter_eq_self.mpr fun runner member => ?_).symm
    simp [empty runner member]
  · split
    · rename_i same
      rw [kept.length_eq] at same
      exact .of_eq (filter_sublist.eq_of_length same.symm).symm
    · rw [deletes]
      exact kept

end Verify

end GitlabRunner.RunnerRegistrations
