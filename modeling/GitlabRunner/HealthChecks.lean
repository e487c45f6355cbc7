import GitlabRunner.KeyedCaches

/-!
# The health of the runners

`commands/health_helper.go` counts the failed job requests of a runner and stops asking for
jobs after three of them in a row.  A time of the last check says when the runner may be
tried again.
-/

namespace GitlabRunner.HealthChecks

open KeyedStates Function

def healthyChecks : Nat := 3

/-- `HealthCheckInterval` of `common/consts.go`, in nanoseconds as `time.Duration` has it. -/
def healthCheckInterval : Int := 3600 * 1000000000

structure HealthData where
  failures : Nat
  lastCheck : Int
  deriving DecidableEq, Repr

abbrev HealthHelper := List UInt8 → Option HealthData

def getHealth (helper : HealthHelper) (id : List UInt8) (now : Int) : HealthData × HealthHelper :=
  match helper id with
  | some health => (health, helper)
  | none => (⟨0, now⟩, update helper id (some ⟨0, now⟩))

def isHealthy (helper : HealthHelper) (id : List UInt8) (now : Int) : Bool × HealthHelper :=
  let (health, helper) := getHealth helper id now
  if health.failures < healthyChecks then (true, helper)
  else if now - health.lastCheck > healthCheckInterval then
    (true, update helper id (some ⟨0, now⟩))
  else (false, helper)

def makeHealthy (helper : HealthHelper) (id : List UInt8) (healthy : Bool) (now : Int) :
    HealthHelper :=
  let (health, helper) := getHealth helper id now
  if healthy then update helper id (some ⟨0, now⟩)
  else update helper id (some { health with failures := health.failures + 1 })

inductive Call where
  | isHealthy
  | makeHealthy (healthy : Bool)
  deriving DecidableEq, Repr

/-- A call for a runner.  It holds the lock and comes at one time. -/
structure Event where
  id : List UInt8
  call : Call
  time : Int
  deriving DecidableEq, Repr

def perform (helper : HealthHelper) (event : Event) : Option Bool × HealthHelper :=
  match event.call with
  | .isHealthy =>
    let (answer, helper) := isHealthy helper event.id event.time
    (some answer, helper)
  | .makeHealthy healthy => (none, makeHealthy helper event.id healthy event.time)

def helperAfter (events : List Event) : HealthHelper :=
  events.foldl (fun helper event => (perform helper event).2) fun _ => none

def answer (earlier : List Event) (event : Event) : Option Bool :=
  (perform (helperAfter earlier) event).1

/-- What is known of a runner from its calls and their answers: the time of the last reset
(or else of its first call) and the times of the unhealthy reports since then. -/
structure Standing where
  since : Option Int
  failed : List Int
  deriving DecidableEq, Repr

/-- A healthy report is a reset, and so is a query that enables a disabled runner. -/
def Standing.observe (standing : Standing) (observed : Event × Option Bool) : Standing :=
  let begun := some (standing.since.getD observed.1.time)
  match observed.1.call, observed.2 with
  | .makeHealthy true, _ => ⟨some observed.1.time, []⟩
  | .makeHealthy false, _ => ⟨begun, standing.failed ++ [observed.1.time]⟩
  | .isHealthy, some true =>
    if standing.failed.length < healthyChecks then ⟨begun, standing.failed⟩
    else ⟨some observed.1.time, []⟩
  | .isHealthy, _ => ⟨begun, standing.failed⟩

def observations (helper : HealthHelper) : List Event → List (Event × Option Bool)
  | [] => []
  | event :: rest =>
    (event, (perform helper event).1) :: observations (perform helper event).2 rest

/-- The standing of a runner after some calls for it and for others. -/
def standing (events : List Event) (id : List UInt8) : Standing :=
  ((observations (fun _ => none) events).filter fun observed => observed.1.id = id).foldl
    Standing.observe ⟨none, []⟩

/-- Each of these reports completed enough unhealthy ones in a row. -/
def Standing.completed (standing : Standing) : List Int :=
  standing.failed.drop (healthyChecks - 1)

def Within (start time : Int) : Prop :=
  start ≤ time ∧ time ≤ start + healthCheckInterval

instance (start time : Int) : Decidable (Within start time) :=
  inferInstanceAs (Decidable (_ ∧ _))

/-- Every query is answered as the number of unhealthy reports in a row demands. -/
def ReallyDisabled (events : List Event) : Prop :=
  ∀ earlier query later, events = earlier ++ query :: later → query.call = .isHealthy →
    ((∃ report ∈ (standing earlier query.id).completed, Within report query.time) →
      answer earlier query = some false) ∧
    ((standing earlier query.id).failed.length < healthyChecks →
      answer earlier query = some true)

/-- No query of a disabled runner comes later than an interval after the last reset. -/
def ResetRecently (events : List Event) : Prop :=
  ∀ earlier query later, events = earlier ++ query :: later → query.call = .isHealthy →
    (∃ report ∈ (standing earlier query.id).completed, Within report query.time) →
      ∀ reset, (standing earlier query.id).since = some reset →
        query.time ≤ reset + healthCheckInterval

def Timed (events : List Event) : Prop :=
  events.Pairwise fun first second => first.time ≤ second.time

instance (events : List Event) : Decidable (Timed events) :=
  inferInstanceAs (Decidable (List.Pairwise _ _))

/-- The entry of a runner holds its standing. -/
structure Standing.Held (standing : Standing) (entry : Option HealthData) : Prop where
  entry_eq : entry = standing.since.map fun since => ⟨standing.failed.length, since⟩
  failed_eq : standing.since = none → standing.failed = []

theorem Standing.Held.getHealth_fst {standing : Standing} {helper : HealthHelper}
    {id : List UInt8} (held : standing.Held (helper id)) (now : Int) :
    (getHealth helper id now).1 = ⟨standing.failed.length, standing.since.getD now⟩ := by
  unfold getHealth
  cases known : standing.since with
  | none => simp [held.entry_eq, known, held.failed_eq known]
  | some since => simp [held.entry_eq, known]

variable (helper : HealthHelper)

theorem getHealth_snd (id : List UInt8) (now : Int) :
    (getHealth helper id now).2 = update helper id (some (getHealth helper id now).1) := by
  unfold getHealth
  cases known : helper id with
  | none => rfl
  | some health => simp [← known]

def HealthData.after (health : HealthData) (call : Call) (now : Int) : HealthData :=
  match call with
  | .makeHealthy true => ⟨0, now⟩
  | .makeHealthy false => { health with failures := health.failures + 1 }
  | .isHealthy =>
    if health.failures < healthyChecks then health
    else if now - health.lastCheck > healthCheckInterval then ⟨0, now⟩
    else health

open HealthData

theorem perform_snd (event : Event) :
    (perform helper event).2 = update helper event.id
      (some ((getHealth helper event.id event.time).1.after event.call event.time)) := by
  obtain ⟨id, call, time⟩ := event
  have stored := getHealth_snd helper id time
  cases call with
  | makeHealthy healthy =>
    cases healthy <;> simp [perform, makeHealthy, after, stored]
  | isHealthy =>
    by_cases few : (getHealth helper id time).1.failures < healthyChecks
    · simp [perform, isHealthy, after, few, stored]
    · by_cases late : time - (getHealth helper id time).1.lastCheck > healthCheckInterval <;>
        simp [perform, isHealthy, after, few, late, stored]

/-- A query finds a runner enabled if few reports failed or the last reset is long ago. -/
theorem answer_query (id : List UInt8) (now : Int) :
    (perform helper ⟨id, .isHealthy, now⟩).1 =
      some (decide ((getHealth helper id now).1.failures < healthyChecks ∨
        now - (getHealth helper id now).1.lastCheck > healthCheckInterval)) := by
  by_cases few : (getHealth helper id now).1.failures < healthyChecks
  · simp [perform, isHealthy, few]
  · by_cases late : now - (getHealth helper id now).1.lastCheck > healthCheckInterval <;>
      simp [perform, isHealthy, few, late]

/-- The entry after a call holds the standing that the call and its answer lead to. -/
theorem Standing.Held.perform {standing : Standing} {helper : HealthHelper} {event : Event}
    (held : standing.Held (helper event.id)) :
    (standing.observe (event, (perform helper event).1)).Held
      ((HealthChecks.perform helper event).2 event.id) := by
  obtain ⟨id, call, time⟩ := event
  have health := held.getHealth_fst time
  rw [perform_snd, update_self, health]
  cases call with
  | makeHealthy healthy =>
    cases healthy <;> constructor <;> simp [after, Standing.observe]
  | isHealthy =>
    rw [answer_query, health]
    by_cases few : standing.failed.length < healthyChecks
    · constructor <;> simp [after, Standing.observe, few]
    · by_cases late : time - standing.since.getD time > healthCheckInterval <;> constructor <;>
          simp [after, Standing.observe, few, late]

variable {standings : List UInt8 → Standing}

theorem held_step {helper : HealthHelper}
    (held : ∀ id, (standings id).Held (helper id)) (event : Event) (id : List UInt8) :
    (step (fun observed => observed.1.id) Standing.observe standings
      (event, (perform helper event).1) id).Held ((perform helper event).2 id) := by
  unfold step
  by_cases own : id = event.id
  · subst own
    rw [update_self]
    exact (held event.id).perform
  · rw [perform_snd, update_of_ne own, update_of_ne own]
    exact held id

theorem held_run {helper : HealthHelper}
    (held : ∀ id, (standings id).Held (helper id)) (events : List Event) (id : List UInt8) :
    (run (fun observed => observed.1.id) Standing.observe standings
      (observations helper events) id).Held
      (events.foldl (fun helper event => (perform helper event).2) helper id) := by
  induction events generalizing standings helper with
  | nil => exact held id
  | cons event rest ih => exact ih (held_step held event)

theorem held_standing (events : List Event) (id : List UInt8) :
    (standing events id).Held (helperAfter events id) := by
  have new : ∀ other : List UInt8, (⟨none, []⟩ : Standing).Held none := fun _ => ⟨rfl, fun _ => rfl⟩
  have reached := held_run new events id
  rw [run_apply] at reached
  exact reached

theorem answer_eq (earlier : List Event) (id : List UInt8) (now : Int) :
    answer earlier ⟨id, .isHealthy, now⟩ =
      some (decide ((standing earlier id).failed.length < healthyChecks ∨
        now - (standing earlier id).since.getD now > healthCheckInterval)) := by
  rw [answer, answer_query, (held_standing earlier id).getHealth_fst]

/-- A runner with too many unhealthy reports in a row is disabled at all its queries within
an interval after them exactly if these queries are within an interval after the last reset
too. -/
theorem reallyDisabled_iff (events : List Event) :
    ReallyDisabled events ↔ ResetRecently events := by
  constructor
  · rintro disabled earlier ⟨id, call, now⟩ later split rfl completed reset isReset
    have answered := (disabled earlier _ later split rfl).1 completed
    rw [answer_eq] at answered
    simp [isReset] at answered
    change now ≤ reset + healthCheckInterval
    omega
  · rintro recent earlier ⟨id, call, now⟩ later split rfl
    rw [answer_eq]
    constructor
    · intro completed
      obtain ⟨report, member, within⟩ := completed
      have nonempty : 0 < (standing earlier id).completed.length := List.length_pos_of_mem member
      rw [Standing.completed, List.length_drop] at nonempty
      obtain ⟨reset, isReset⟩ : ∃ reset, (standing earlier id).since = some reset := by
        apply Option.ne_none_iff_exists'.mp
        intro new
        rw [(held_standing earlier id).failed_eq new] at nonempty
        exact absurd nonempty (by decide)
      have soon : now ≤ reset + healthCheckInterval :=
        recent earlier _ later split rfl ⟨report, member, within⟩ reset isReset
      simp [isReset]
      omega
    · intro few
      simp [few]

/-- Three failures in a row, two hours after a healthy report: the next query enables the
runner at once. -/
theorem enabled_after_long_pause :
    ¬∀ events : List Event, Timed events → ReallyDisabled events := by
  intro disabled
  let hours : Int := 7200 * 1000000000
  have answered := (disabled
    [⟨[], .makeHealthy true, 0⟩, ⟨[], .makeHealthy false, hours⟩, ⟨[], .makeHealthy false, hours⟩,
      ⟨[], .makeHealthy false, hours⟩, ⟨[], .isHealthy, hours⟩]
    (by decide)
    [⟨[], .makeHealthy true, 0⟩, ⟨[], .makeHealthy false, hours⟩, ⟨[], .makeHealthy false, hours⟩,
      ⟨[], .makeHealthy false, hours⟩] ⟨[], .isHealthy, hours⟩ [] rfl rfl).1
    ⟨hours, by decide, by decide⟩
  revert answered
  decide

end GitlabRunner.HealthChecks
