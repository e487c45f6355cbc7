import GitlabRunner.HolderCounts
import GitlabRunner.ProcessRunner

/-!
# The slots of builds and requests

`commands/builds_helper.go` counts for each token the builds and the requests of its runner.
-/

namespace GitlabRunner.Runner

open Concurrent ActionRuns
open Program (call)
open HolderCounts (Exact)

structure RunnerConfig where
  token : String
  limit : Int
  requestConcurrency : Int
  deriving DecidableEq, Repr

def RunnerConfig.getRequestConcurrency (runner : RunnerConfig) : Int :=
  if runner.requestConcurrency ≤ 0 then 1 else runner.requestConcurrency

structure RunnerCounter where
  builds : Nat
  requests : Nat
  requestConcurrencyExceeded : Nat
  deriving DecidableEq, Repr

inductive ProviderEvent where
  | acquired (executorData : Nat)
  | released (executorData : Nat)
  deriving DecidableEq, Repr

/-- `buildsHelper`; a token without a counter counts zero.  The other fields have
no counterpart in the code and are never read by it: the calls between a
successful `acquireBuild` and `releaseBuild`, the calls between a successful
`acquireRequest` and `releaseRequest`, the releases that did nothing, and what
each call did with the provider. -/
structure BuildsHelper where
  counters : String → RunnerCounter
  building : List (Nat × String)
  requesting : List (Nat × String)
  idleReleases : Nat
  events : Nat → List ProviderEvent

namespace BuildsHelper

def start : BuildsHelper where
  counters _ := ⟨0, 0, 0⟩
  building := []
  requesting := []
  idleReleases := 0
  events _ := []

def getRunnerCounter (helper : BuildsHelper) (runner : RunnerConfig) : RunnerCounter :=
  helper.counters runner.token

def setRunnerCounter (helper : BuildsHelper) (runner : RunnerConfig)
    (counter : RunnerCounter) : BuildsHelper :=
  { helper with
    counters := fun token => if token = runner.token then counter else helper.counters token }

def acquireBuild (thread : Nat) (runner : RunnerConfig) (helper : BuildsHelper) :
    BuildsHelper × Bool :=
  let counter := helper.getRunnerCounter runner
  if runner.limit > 0 ∧ (counter.builds : Int) ≥ runner.limit then (helper, false)
  else
    ({ helper.setRunnerCounter runner { counter with builds := counter.builds + 1 } with
       building := (thread, runner.token) :: helper.building }, true)

def releaseBuild (thread : Nat) (runner : RunnerConfig) (helper : BuildsHelper) :
    BuildsHelper × Bool :=
  let counter := helper.getRunnerCounter runner
  let building := helper.building.erase (thread, runner.token)
  if counter.builds > 0 then
    ({ helper.setRunnerCounter runner { counter with builds := counter.builds - 1 } with
       building := building }, true)
  else ({ helper with building := building, idleReleases := helper.idleReleases + 1 }, false)

def acquireRequest (thread : Nat) (runner : RunnerConfig) (helper : BuildsHelper) :
    BuildsHelper × Bool :=
  let counter := helper.getRunnerCounter runner
  if (counter.requests : Int) ≥ runner.getRequestConcurrency then
    (helper.setRunnerCounter runner
      { counter with requestConcurrencyExceeded := counter.requestConcurrencyExceeded + 1 },
      false)
  else
    ({ helper.setRunnerCounter runner { counter with requests := counter.requests + 1 } with
       requesting := (thread, runner.token) :: helper.requesting }, true)

def releaseRequest (thread : Nat) (runner : RunnerConfig) (helper : BuildsHelper) :
    BuildsHelper × Bool :=
  let counter := helper.getRunnerCounter runner
  let requesting := helper.requesting.erase (thread, runner.token)
  if counter.requests > 0 then
    ({ helper.setRunnerCounter runner { counter with requests := counter.requests - 1 } with
       requesting := requesting }, true)
  else
    ({ helper with requesting := requesting, idleReleases := helper.idleReleases + 1 }, false)

def record (thread : Nat) (event : ProviderEvent) (helper : BuildsHelper) : BuildsHelper :=
  { helper with
    events := fun other =>
      if other = thread then helper.events other ++ [event] else helper.events other }

end BuildsHelper

inductive Outcome where
  | createSession
  | requestJob
  | newBuild
  | run
  deriving DecidableEq, Repr

inductive SlotCommand : Type → Type where
  | acquire : SlotCommand (Option Nat)
  | release (executorData : Nat) : SlotCommand Unit
  | acquireBuild (runner : RunnerConfig) : SlotCommand Bool
  | releaseBuild (runner : RunnerConfig) : SlotCommand Bool
  | acquireRequest (runner : RunnerConfig) : SlotCommand Bool
  | releaseRequest (runner : RunnerConfig) : SlotCommand Bool
  | outcome (outcome : Outcome) : SlotCommand Bool

inductive SlotInput where
  | nothing
  | data (executorData : Option Nat)
  | answer (holds : Bool)
  deriving DecidableEq, Repr

def executeSlot (self _fresh : Nat) : {β : Type} → SlotCommand β → SlotInput → BuildsHelper →
    Option (BuildsHelper × β × Option Empty)
  | _, .acquire, .data none, helper => some (helper, none, none)
  | _, .acquire, .data (some executorData), helper =>
    some (helper.record self (.acquired executorData), some executorData, none)
  | _, .release executorData, .nothing, helper =>
    some (helper.record self (.released executorData), (), none)
  | _, .acquireBuild runner, .nothing, helper =>
    let (helper, acquired) := helper.acquireBuild self runner
    some (helper, acquired, none)
  | _, .releaseBuild runner, .nothing, helper =>
    let (helper, released) := helper.releaseBuild self runner
    some (helper, released, none)
  | _, .acquireRequest runner, .nothing, helper =>
    let (helper, acquired) := helper.acquireRequest self runner
    some (helper, acquired, none)
  | _, .releaseRequest runner, .nothing, helper =>
    let (helper, released) := helper.releaseRequest self runner
    some (helper, released, none)
  | _, .outcome _, .answer holds, helper => some (helper, holds, none)
  | _, _, _, _ => none

def slotSemantics : Semantics BuildsHelper SlotCommand SlotInput Empty where
  execute := executeSlot
  body job := nomatch job

def slotRuntime (runner : RunnerConfig) : Runtime SlotCommand Nat where
  acquire := call .acquire
  release executorData := call (.release executorData)
  acquireBuild := call (.acquireBuild runner)
  releaseBuild := do let _ ← call (.releaseBuild runner)
  createSession := call (.outcome .createSession)
  acquireRequest := call (.acquireRequest runner)
  releaseRequest := do let _ ← call (.releaseRequest runner)
  requestJob := call (.outcome .requestJob)
  newBuild := call (.outcome .newBuild)
  run _ := call (.outcome .run)

def startCalls (runners : List RunnerConfig) : Pool BuildsHelper SlotCommand where
  state := BuildsHelper.start
  threads := runners.map fun runner => do let _ ← processRunner (slotRuntime runner)

/-- The counters are exact and within their limits, and no release did nothing. -/
structure BuildsHelper.Counted (runners : List RunnerConfig) (helper : BuildsHelper) :
    Prop where
  builds : Exact (fun token => (helper.counters token).builds) helper.building
  requests : Exact (fun token => (helper.counters token).requests) helper.requesting
  buildLimit : ∀ runner ∈ runners, 0 < runner.limit →
    ((helper.counters runner.token).builds : Int) ≤ runner.limit
  requestLimit : ∀ runner ∈ runners,
    ((helper.counters runner.token).requests : Int) ≤ runner.getRequestConcurrency
  effective : helper.idleReleases = 0

/-- What one call holds and what it did with the provider. -/
structure Position (thread : Nat) (started requested : Option String)
    (events : List ProviderEvent) (helper : BuildsHelper) : Prop where
  building : ∀ token, (thread, token) ∈ helper.building ↔ token ∈ started
  requesting : ∀ token, (thread, token) ∈ helper.requesting ↔ token ∈ requested
  events : helper.events thread = events

structure KeepsPosition (thread : Nat) (helper later : BuildsHelper) : Prop where
  building : ∀ token, (thread, token) ∈ later.building ↔ (thread, token) ∈ helper.building
  requesting : ∀ token,
    (thread, token) ∈ later.requesting ↔ (thread, token) ∈ helper.requesting
  events : later.events thread = helper.events thread

def slotsCounted (runners : List RunnerConfig) : Discipline slotSemantics where
  allowed _ _ _ _ _ := true
  Invariant _ helper := helper.Counted runners
  Rely := KeepsPosition
  Spawned _ _ _ := True
  rely_refl _ _ := ⟨fun _ => Iff.rfl, fun _ => Iff.rfl, rfl⟩
  rely_trans _ _ _ _ first second :=
    ⟨fun token => (second.building token).trans (first.building token),
      fun token => (second.requesting token).trans (first.requesting token),
      second.events.trans first.events⟩

variable {runners : List RunnerConfig} {runner : RunnerConfig} {self : Nat}
  {started requested : Option String} {events : List ProviderEvent} {helper : BuildsHelper}

theorem Position.stable (started requested : Option String) (events : List ProviderEvent) :
    (slotsCounted runners).Stable self (Position self started requested events) :=
  fun _ _ others position =>
    ⟨fun token => (others.building token).trans (position.building token),
      fun token => (others.requesting token).trans (position.requesting token),
      others.events.trans position.events⟩

open BuildsHelper

@[simp] theorem setRunnerCounter_self (counter : RunnerCounter) :
    (helper.setRunnerCounter runner counter).counters runner.token = counter := by
  simp [setRunnerCounter]

@[simp] theorem setRunnerCounter_of_ne (counter : RunnerCounter) {token : String}
    (other : token ≠ runner.token) :
    (helper.setRunnerCounter runner counter).counters token = helper.counters token := by
  simp [setRunnerCounter, other]

/-- One kind of slots: its counters are exact and within the bounds of the runners. -/
structure Slots (measure : RunnerCounter → Nat) (limited : RunnerConfig → Prop)
    (bound : RunnerConfig → Int) (runners : List RunnerConfig)
    (counters : String → RunnerCounter) (holders : List (Nat × String)) : Prop where
  exact : Exact (fun token => measure (counters token)) holders
  within : ∀ runner ∈ runners, limited runner →
    (measure (counters runner.token) : Int) ≤ bound runner

/-- One thread comes to hold a slot of a token, or none. -/
structure Moves (thread : Nat) (held : Option String) (before after : List (Nat × String)) :
    Prop where
  own : ∀ token, (thread, token) ∈ after ↔ token ∈ held
  others : ∀ other, other ≠ thread → ∀ token, (other, token) ∈ after ↔ (other, token) ∈ before

section Slots

variable {measure : RunnerCounter → Nat} {limited : RunnerConfig → Prop}
  {bound : RunnerConfig → Int} {holders : List (Nat × String)}
  (slots : Slots measure limited bound runners helper.counters holders)
  (constant : ∀ other ∈ runners, other.token = runner.token → other = runner)

include slots constant

theorem Slots.set {counter : RunnerCounter} {after : List (Nat × String)}
    (exact : Exact (fun token => measure ((helper.setRunnerCounter runner counter).counters token))
      after) (now : limited runner → (measure counter : Int) ≤ bound runner) :
    Slots measure limited bound runners
      (helper.setRunnerCounter runner counter).counters after := by
  refine ⟨exact, ?_⟩
  intro other member isLimited
  by_cases same : other.token = runner.token
  · obtain rfl := constant other member same
    rw [setRunnerCounter_self]
    exact now isLimited
  · rw [setRunnerCounter_of_ne _ same]
    exact slots.within other member isLimited

theorem Slots.enter (counter : RunnerCounter)
    (free : ∀ token, (self, token) ∈ holders ↔ token ∈ (none : Option String))
    (more : measure counter = measure (helper.counters runner.token) + 1)
    (now : limited runner → (measure counter : Int) ≤ bound runner) :
    Slots measure limited bound runners (helper.setRunnerCounter runner counter).counters
        ((self, runner.token) :: holders) ∧
      Moves self (some runner.token) holders ((self, runner.token) :: holders) := by
  have new : ∀ token, (self, token) ∉ holders := fun token isHolder =>
    nomatch (free token).mp isHolder
  refine ⟨slots.set constant (slots.exact.enter new ?_ ?_) now, ⟨?_, ?_⟩⟩
  · rw [setRunnerCounter_self, more]
  · intro token other
    rw [setRunnerCounter_of_ne _ other]
  · intro token
    simp [new, eq_comm]
  · intro other different token
    simp [different]

variable (member : runner ∈ runners)

include member

theorem Slots.keep (counter : RunnerCounter)
    (same : measure counter = measure (helper.counters runner.token)) :
    Slots measure limited bound runners (helper.setRunnerCounter runner counter).counters
      holders := by
  refine slots.set constant (slots.exact.congr ?_) ?_
  · intro token
    by_cases own : token = runner.token
    · rw [own, setRunnerCounter_self, same]
    · rw [setRunnerCounter_of_ne _ own]
  · rw [same]
    exact slots.within runner member

theorem Slots.leave (counter : RunnerCounter)
    (held : ∀ token, (self, token) ∈ holders ↔ token ∈ some runner.token)
    (fewer : measure counter = measure (helper.counters runner.token) - 1) :
    Slots measure limited bound runners (helper.setRunnerCounter runner counter).counters
        (holders.erase (self, runner.token)) ∧
      Moves self none holders (holders.erase (self, runner.token)) := by
  have isHolder := (held runner.token).mpr rfl
  have left := slots.exact.mem_erase isHolder
  refine ⟨slots.set constant (slots.exact.leave isHolder ?_ ?_) ?_, ⟨?_, ?_⟩⟩
  · rw [setRunnerCounter_self, fewer]
  · intro token other
    rw [setRunnerCounter_of_ne _ other]
  · intro isLimited
    have := slots.within runner member isLimited
    omega
  · intro token
    simp [left]
  · intro other different token
    simp [left, different]

end Slots

open RunnerConfig

theorem BuildsHelper.Counted.buildSlots (counted : helper.Counted runners) :
    Slots RunnerCounter.builds (0 < ·.limit) limit runners helper.counters helper.building :=
  ⟨counted.builds, counted.buildLimit⟩

theorem BuildsHelper.Counted.requestSlots (counted : helper.Counted runners) :
    Slots RunnerCounter.requests (fun _ => True) getRequestConcurrency runners
      helper.counters helper.requesting :=
  ⟨counted.requests, fun runner member _ => counted.requestLimit runner member⟩

theorem counted_of_slots
    (builds : Slots RunnerCounter.builds (0 < ·.limit) limit runners helper.counters
      helper.building)
    (requests : Slots RunnerCounter.requests (fun _ => True) getRequestConcurrency
      runners helper.counters helper.requesting) (effective : helper.idleReleases = 0) :
    helper.Counted runners :=
  ⟨builds.exact, requests.exact, builds.within,
    fun runner member => requests.within runner member trivial, effective⟩

/-- A command that starts no goroutine and keeps the positions of the others. -/
theorem triple_slot {β : Type} {command : SlotCommand β} {post : β → BuildsHelper → Prop}
    (leads : ∀ fresh input helper after response job,
      Position self started requested events helper → helper.Counted runners →
      executeSlot self fresh command input helper = some (after, response, job) →
      after.Counted runners ∧ (∀ other, other ≠ self → KeepsPosition other helper after) ∧
        post response after) :
    (slotsCounted runners).Triple self (Position self started requested events) (call command)
      post := by
  refine .call (Position.stable started requested events) ?_
  intro threads helper input after response job holds counted running _ executed
  obtain ⟨still, others, ends⟩ := leads threads input helper after response job holds counted
    executed
  exact ⟨still, fun other _ different => others other different, fun _ _ => trivial, ends⟩

/-- An operation of `buildsHelper` on one runner is performed in one step. -/
theorem triple_operation {command : SlotCommand Bool} {post : Bool → BuildsHelper → Prop}
    (operation : BuildsHelper → BuildsHelper × Bool)
    (performs : ∀ fresh input helper after response job,
      executeSlot self fresh command input helper = some (after, response, job) →
      operation helper = (after, response))
    (leads : ∀ helper, Position self started requested events helper → helper.Counted runners →
      (operation helper).1.Counted runners ∧
        (∀ other, other ≠ self → KeepsPosition other helper (operation helper).1) ∧
        post (operation helper).2 (operation helper).1) :
    (slotsCounted runners).Triple self (Position self started requested events) (call command)
      post := by
  refine triple_slot ?_
  intro fresh input helper after response job position counted executed
  have performed := performs fresh input helper after response job executed
  have leads := leads helper position counted
  rwa [performed] at leads

section Commands

variable (member : runner ∈ runners)
  (constant : ∀ other ∈ runners, other.token = runner.token → other = runner)

include member constant

theorem triple_acquireBuild :
    (slotsCounted runners).Triple self (Position self none requested events)
      (call (.acquireBuild runner)) fun acquired =>
        Position self (if acquired then some runner.token else none) requested events := by
  refine triple_operation (acquireBuild self runner) ?_ ?_
  · intro fresh input helper after response job executed
    cases input <;> cases executed
    rfl
  intro helper position counted
  fun_cases acquireBuild self runner helper with
  | case1 => exact ⟨counted, fun other _ => (slotsCounted runners).rely_refl other helper, position⟩
  | case2 counter room =>
    obtain ⟨builds, moves⟩ := counted.buildSlots.enter constant
      { counter with builds := counter.builds + 1 } position.building rfl (by dsimp only; omega)
    exact ⟨counted_of_slots builds (counted.requestSlots.keep constant member _ rfl)
        counted.effective,
      fun other different => ⟨moves.others other different, fun _ => Iff.rfl, rfl⟩,
      moves.own, position.requesting, position.events⟩

theorem triple_releaseBuild :
    (slotsCounted runners).Triple self (Position self (some runner.token) requested events)
      (call (.releaseBuild runner)) fun _ => Position self none requested events := by
  refine triple_operation (releaseBuild self runner) ?_ ?_
  · intro fresh input helper after response job executed
    cases input <;> cases executed
    rfl
  intro helper position counted
  have counts := counted.builds.pos ((position.building runner.token).mpr rfl)
  fun_cases releaseBuild self runner helper with
  | case1 counter =>
    obtain ⟨builds, moves⟩ := counted.buildSlots.leave constant member
      { counter with builds := counter.builds - 1 } position.building rfl
    exact ⟨counted_of_slots builds (counted.requestSlots.keep constant member _ rfl)
        counted.effective,
      fun other different => ⟨moves.others other different, fun _ => Iff.rfl, rfl⟩,
      moves.own, position.requesting, position.events⟩
  | case2 _ _ idle => exact absurd counts idle

theorem triple_acquireRequest :
    (slotsCounted runners).Triple self (Position self started none events)
      (call (.acquireRequest runner)) fun acquired =>
        Position self started (if acquired then some runner.token else none) events := by
  refine triple_operation (acquireRequest self runner) ?_ ?_
  · intro fresh input helper after response job executed
    cases input <;> cases executed
    rfl
  intro helper position counted
  fun_cases acquireRequest self runner helper with
  | case1 =>
    exact ⟨counted_of_slots (counted.buildSlots.keep constant member _ rfl)
        (counted.requestSlots.keep constant member _ rfl) counted.effective,
      fun other _ => ⟨fun _ => Iff.rfl, fun _ => Iff.rfl, rfl⟩,
      position.building, position.requesting, position.events⟩
  | case2 counter room =>
    obtain ⟨requests, moves⟩ := counted.requestSlots.enter constant
      { counter with requests := counter.requests + 1 } position.requesting rfl
      (by dsimp only; omega)
    exact ⟨counted_of_slots (counted.buildSlots.keep constant member _ rfl) requests
        counted.effective,
      fun other different => ⟨fun _ => Iff.rfl, moves.others other different, rfl⟩,
      position.building, moves.own, position.events⟩

theorem triple_releaseRequest :
    (slotsCounted runners).Triple self (Position self started (some runner.token) events)
      (call (.releaseRequest runner)) fun _ => Position self started none events := by
  refine triple_operation (releaseRequest self runner) ?_ ?_
  · intro fresh input helper after response job executed
    cases input <;> cases executed
    rfl
  intro helper position counted
  have counts := counted.requests.pos ((position.requesting runner.token).mpr rfl)
  fun_cases releaseRequest self runner helper with
  | case1 counter =>
    obtain ⟨requests, moves⟩ := counted.requestSlots.leave constant member
      { counter with requests := counter.requests - 1 } position.requesting rfl
    exact ⟨counted_of_slots (counted.buildSlots.keep constant member _ rfl) requests
        counted.effective,
      fun other different => ⟨fun _ => Iff.rfl, moves.others other different, rfl⟩,
      position.building, moves.own, position.events⟩
  | case2 _ _ idle => exact absurd counts idle

end Commands

/-- The calls of the provider and the other outcomes leave the slots alone. -/
theorem record_counted (counted : helper.Counted runners) (thread : Nat)
    (event : ProviderEvent) : (helper.record thread event).Counted runners :=
  ⟨counted.builds, counted.requests, counted.buildLimit, counted.requestLimit, counted.effective⟩

theorem record_keepsPosition (event : ProviderEvent) {other : Nat} (different : other ≠ self) :
    KeepsPosition other helper (helper.record self event) :=
  ⟨fun _ => Iff.rfl, fun _ => Iff.rfl, by simp [record, different]⟩

theorem Position.record (position : Position self started requested events helper)
    (event : ProviderEvent) :
    Position self started requested (events ++ [event]) (helper.record self event) :=
  ⟨position.building, position.requesting, by simp [BuildsHelper.record, position.events]⟩

theorem triple_acquireProvider :
    (slotsCounted runners).Triple self (Position self started requested []) (call .acquire)
      fun result => Position self started requested (result.toList.map .acquired) := by
  refine triple_slot ?_
  intro fresh input helper after response job position counted executed
  cases input with
  | nothing | answer => cases executed
  | data executorData =>
    cases executorData with
    | none =>
      cases executed
      exact ⟨counted, fun other _ => (slotsCounted runners).rely_refl other helper, position⟩
    | some executorData =>
      cases executed
      exact ⟨record_counted counted _ _, fun other => record_keepsPosition _, position.record _⟩

theorem triple_releaseProvider (executorData : Nat) :
    (slotsCounted runners).Triple self (Position self started requested events)
      (call (.release executorData))
      fun _ => Position self started requested (events ++ [.released executorData]) := by
  refine triple_slot ?_
  intro fresh input helper after response job position counted executed
  cases input <;> cases executed
  exact ⟨record_counted counted _ _, fun other => record_keepsPosition _, position.record _⟩

theorem triple_outcome (outcome : Outcome) :
    (slotsCounted runners).Triple self (Position self started requested events)
      (call (.outcome outcome)) fun _ => Position self started requested events := by
  refine triple_slot ?_
  intro fresh input helper after response job position counted executed
  cases input <;> cases executed
  exact ⟨counted, fun other _ => (slotsCounted runners).rely_refl other helper, position⟩

def Balanced (events : List ProviderEvent) : Prop :=
  events = [] ∨ ∃ executorData, events = [.acquired executorData, .released executorData]

def Settled (thread : Nat) (helper : BuildsHelper) : Prop :=
  ∃ events, Balanced events ∧ Position thread none none events helper

theorem Settled.stable (thread : Nat) : (slotsCounted runners).Stable thread (Settled thread) := by
  rintro helper later others ⟨events, balanced, position⟩
  exact ⟨events, balanced, Position.stable none none events helper later others position⟩

theorem slotRuntime_keeps (member : runner ∈ runners)
    (constant : ∀ other ∈ runners, other.token = runner.token → other = runner) :
    (slotRuntime runner).Keeps (slotsCounted runners) self
      (Position self none none []) (Settled self)
      (fun executorData => Position self none none [.acquired executorData])
      (fun executorData => Position self (some runner.token) none [.acquired executorData])
      (fun executorData => Position self (some runner.token) (some runner.token)
        [.acquired executorData]) where
  acquire helper position := by
    refine (triple_acquireProvider helper position).mono ?_
    intro result later position
    cases result with
    | none => exact ⟨[], .inl rfl, position⟩
    | some executorData => exact position
  release executorData helper position := by
    refine (triple_releaseProvider executorData helper position).mono ?_
    intro _ later position
    exact ⟨_, .inr ⟨executorData, rfl⟩, position⟩
  acquireBuild executorData helper position := by
    refine (triple_acquireBuild member constant helper position).mono ?_
    intro acquired later position
    cases acquired with
    | true | false => exact position
  releaseBuild executorData :=
    (triple_releaseBuild member constant).bind fun _ _ position => position
  createSession executorData := triple_outcome .createSession
  acquireRequest executorData helper position := by
    refine (triple_acquireRequest member constant helper position).mono ?_
    intro acquired later position
    cases acquired with
    | true | false => exact position
  requestJob executorData := triple_outcome .requestJob
  releaseRequest executorData :=
    (triple_releaseRequest member constant).bind fun _ _ position => position
  newBuild executorData := triple_outcome .newBuild
  run executorData := triple_outcome .run

theorem start_counted (runners : List RunnerConfig) : start.Counted runners := by
  refine ⟨Exact.empty, Exact.empty, ?_, ?_, rfl⟩
  · intro runner _ limited
    simp only [start]
    omega
  · intro runner _
    simp only [start, getRequestConcurrency]
    split <;> omega

theorem startCalls_safe
    (constant : ∀ first ∈ runners, ∀ second ∈ runners, first.token = second.token →
      first = second) : (startCalls runners).Safe (slotsCounted runners) Settled := by
  refine ⟨start_counted runners, ?_⟩
  intro index program position
  obtain ⟨runner, member, rfl⟩ := List.mem_map.mp (List.mem_of_getElem? position)
  have free : Position index none none [] start :=
    ⟨by simp [start], by simp [start], rfl⟩
  have keeps : (slotRuntime runner).Keeps (slotsCounted runners) index _ _ _ _ _ :=
    slotRuntime_keeps member fun other isRunner same => constant other isRunner runner member same
  exact (keeps.processRunner _ free).bind fun _ _ settled => settled

/-- In every state that any number of `processRunner` calls reach, each counter is
the number of calls that hold a slot and is within its limit, no release did
nothing, and the calls that have returned have released exactly what they
acquired. -/
theorem slots_counted {runners : List RunnerConfig} {actions : List (Nat × SlotInput)}
    {pool : Pool BuildsHelper SlotCommand}
    (constant : ∀ first ∈ runners, ∀ second ∈ runners, first.token = second.token →
      first = second)
    (reached : run (Pool.step slotSemantics) (startCalls runners) actions = some pool) :
    ((∀ token, (pool.state.counters token).builds =
          pool.state.building.countP fun entry => entry.2 = token) ∧
        (pool.state.building.map Prod.fst).Nodup ∧
        ∀ runner ∈ runners, 0 < runner.limit →
          ((pool.state.counters runner.token).builds : Int) ≤ runner.limit) ∧
      ((∀ token, (pool.state.counters token).requests =
          pool.state.requesting.countP fun entry => entry.2 = token) ∧
        (pool.state.requesting.map Prod.fst).Nodup ∧
        ∀ runner ∈ runners, ((pool.state.counters runner.token).requests : Int) ≤
          runner.getRequestConcurrency) ∧
      pool.state.idleReleases = 0 ∧
      ∀ thread, pool.threads[thread]?.any Program.isDone = true →
        pool.state.events thread = [] ∨ ∃ executorData,
          pool.state.events thread = [.acquired executorData, .released executorData] := by
  have safe : pool.Safe (slotsCounted runners) Settled := by
    refine (startCalls_safe constant).run Settled.stable (fun job => nomatch job)
      (meetsAlong_of_forall ?_ _) reached
    intro action _ pool
    unfold Pool.meets
    split <;> rfl
  have counted := safe.invariant
  refine ⟨⟨counted.builds.counts, counted.builds.once, counted.buildLimit⟩,
    ⟨counted.requests.counts, counted.requests.once, counted.requestLimit⟩,
    counted.effective, ?_⟩
  intro thread returned
  obtain ⟨events, balanced, position⟩ := safe.reaches returned
  rw [position.events]
  exact balanced

def oneSlotRunner : RunnerConfig where
  token := "token"
  limit := 1
  requestConcurrency := 0

def limitMetActions : List (Nat × SlotInput) :=
  [(0, .data (some 7)), (1, .data (some 8)), (0, .nothing), (1, .nothing), (1, .nothing),
    (0, .answer true), (0, .nothing)]

theorem slots_counted_limitMet :
    ∃ pool, run (Pool.step slotSemantics)
        (startCalls [oneSlotRunner, oneSlotRunner]) limitMetActions = some pool ∧
      pool.state.counters "token" = ⟨1, 1, 0⟩ ∧
      pool.state.building.countP (fun entry => entry.2 = "token") = 1 ∧
      pool.state.events 1 = [.acquired 8, .released 8] := by
  have observed : (run (Pool.step slotSemantics)
      (startCalls [oneSlotRunner, oneSlotRunner]) limitMetActions).map
        (fun pool => (pool.state.counters "token", pool.state.events 1)) =
          some (⟨1, 1, 0⟩, [.acquired 8, .released 8]) := by decide
  obtain ⟨pool, reached, same⟩ := Option.map_eq_some_iff.mp observed
  obtain ⟨counter, events⟩ := Prod.mk.inj same
  have counted := slots_counted (by decide) reached
  refine ⟨pool, reached, counter, ?_, events⟩
  rw [← counted.1.1 "token", counter]

end GitlabRunner.Runner
