import Mathlib.Data.List.Induction
import GitlabRunner.BuildIdentities
import GitlabRunner.BuildSlots

/-!
# The metrics of the runners

`Collect` of `commands/builds_helper.go` exports the counters of the requests under the
shortened tokens.
-/

namespace GitlabRunner.Runner

open BuildsHelper ByteText

inductive RequestCall where
  | acquire (thread : Nat) (runner : RunnerConfig)
  | release (thread : Nat) (runner : RunnerConfig)

def RequestCall.token : RequestCall → String
  | acquire _ runner | release _ runner => runner.token

def RequestCall.perform (helper : BuildsHelper) : RequestCall → BuildsHelper
  | acquire thread runner => (helper.acquireRequest thread runner).1
  | release thread runner => (helper.releaseRequest thread runner).1

def afterCalls (calls : List RequestCall) : BuildsHelper :=
  calls.foldl RequestCall.perform start

/-- An order in which `range` may go over the map: every call made a counter for its token. -/
def IsOrder (calls : List RequestCall) (order : List String) : Prop :=
  order.Nodup ∧ ∀ token, token ∈ order ↔ token ∈ calls.map RequestCall.token

def total (value : RunnerCounter → Nat) (counters : List RunnerCounter) : Nat :=
  counters.foldr (fun counter sum => value counter + sum) 0

section Labels

-- The counters are kept by the names of the tokens, and `bytes` has the text of each name.
variable (bytes : String → List UInt8)

/-- An assignment to a map. -/
def setCounter (data : List (List UInt8 × RunnerCounter)) (label : List UInt8)
    (counter : RunnerCounter) : List (List UInt8 × RunnerCounter) :=
  (data.filter fun entry => entry.1 ≠ label) ++ [(label, counter)]

def runnersCounters (helper : BuildsHelper) (order : List String) :
    List (List UInt8 × RunnerCounter) :=
  order.foldl (fun data token =>
    setCounter data (Identity.shortenToken (bytes token)) (helper.counters token)) []

/-- No two tokens have the same first eight bytes. -/
def Apart (tokens : List String) : Prop :=
  tokens.Pairwise fun first second =>
    Identity.shortenToken (bytes first) ≠ Identity.shortenToken (bytes second)

variable {bytes}

theorem runnersCounters_of_apart (helper : BuildsHelper) {order : List String}
    (apart : Apart bytes order) : runnersCounters bytes helper order =
      order.map fun token => (Identity.shortenToken (bytes token), helper.counters token) := by
  induction order using List.reverseRecOn with
  | nil => rfl
  | append_singleton order token ih =>
    obtain ⟨before, -, last⟩ := List.pairwise_append.mp apart
    rw [runnersCounters, List.foldl_append, ← runnersCounters, ih before, List.map_append]
    refine congrArg (· ++ _) (List.filter_eq_self.mpr ?_)
    intro entry member
    obtain ⟨other, isOther, rfl⟩ := List.mem_map.mp member
    exact decide_eq_true (last other isOther token (List.mem_singleton_self token))

/-- Every counter is exported once, if the shortened tokens tell the runners apart. -/
theorem runnersCounters_conserves {calls : List RequestCall} {order other : List String}
    (isOrder : IsOrder calls order) (isOther : IsOrder calls other)
    (apart : Apart bytes order) :
    let helper := afterCalls calls
    (runnersCounters bytes helper order).Perm (runnersCounters bytes helper other) ∧
      ∀ value, total value ((runnersCounters bytes helper order).map Prod.snd) =
        total value (order.map helper.counters) := by
  have same : order.Perm other := (List.perm_ext_iff_of_nodup isOrder.1 isOther.1).mpr
    fun token => (isOrder.2 token).trans (isOther.2 token).symm
  dsimp only
  rw [runnersCounters_of_apart _ apart, runnersCounters_of_apart _
    ((same.pairwise_iff Ne.symm).mp apart)]
  refine ⟨same.map _, ?_⟩
  intro value
  rw [List.map_map]
  rfl

theorem runnersCounters_conserves_two :
    let helper := afterCalls [.acquire 0 ⟨"a", 0, 0⟩, .acquire 1 ⟨"b", 0, 0⟩]
    (runnersCounters ascii helper ["a", "b"]).Perm (runnersCounters ascii helper ["b", "a"]) ∧
      ∀ value, total value ((runnersCounters ascii helper ["a", "b"]).map Prod.snd) =
        total value (["a", "b"].map helper.counters) :=
  runnersCounters_conserves ⟨by decide, fun _ => Iff.rfl⟩
    ⟨by decide, fun _ => (List.Perm.swap "a" "b" []).mem_iff⟩ (by unfold Apart; decide)

/-- The second token takes the label of the first one. -/
theorem same_label_replaced :
    ∃ calls order other, IsOrder calls order ∧ IsOrder calls other ∧
      ¬(runnersCounters ascii (afterCalls calls) order).Perm
        (runnersCounters ascii (afterCalls calls) other) ∧
      total RunnerCounter.requests ((runnersCounters ascii (afterCalls calls) order).map Prod.snd) ≠
        total RunnerCounter.requests (order.map (afterCalls calls).counters) := by
  refine ⟨[.acquire 0 ⟨"abcdefgh1", 0, 0⟩, .release 0 ⟨"abcdefgh2", 0, 0⟩],
    ["abcdefgh1", "abcdefgh2"], ["abcdefgh2", "abcdefgh1"], ⟨by decide, fun _ => Iff.rfl⟩,
    ⟨by decide, fun _ => (List.Perm.swap "abcdefgh1" "abcdefgh2" []).mem_iff⟩, ?_, ?_⟩
  · decide
  · decide

end Labels

end GitlabRunner.Runner
