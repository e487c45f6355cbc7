import GitlabRunner.BuildRun

/-!
# The lifecycle of the executors of a build

The calls of one `Build.Run` form a lifecycle: some tries whose `Prepare` failed, each with
its own executor and its `Cleanup`, and then perhaps an executor that is prepared, runs
stages one after the other, is finished, and is cleaned up after the status of the trace was
set.
-/

namespace GitlabRunner.BuildRun

open Concurrent List Option Discipline
open Concurrent.Program (call)

def failedTry (executor : Nat) (err : Error) : List Event :=
  [.create executor, .prepare executor (some err), .cleanup executor]

def failedTries (errs : List Error) : List Event :=
  errs.zipIdx.flatMap fun (err, executor) => failedTry executor err

def stageRuns (executor : Nat) (runs : List (Stage × Option Error)) : List Event :=
  runs.flatMap fun (stage, err) => [.runBegin executor stage, .runEnd executor stage err]

def status : Option Error → Event
  | none => .success
  | some err => .fail err err.failureReason

/-- The calls of a `Run` that returns an error or `nil`. -/
inductive Lifecycle (err : Option Error) : List Event → Prop where
  | unprepared {errs : List Error} (few : errs.length ≤ preparationRetries)
      (failed : err ≠ none) : Lifecycle err (failedTries errs ++ [status err])
  | prepared {errs : List Error} {runs : List (Stage × Option Error)}
      (few : errs.length < preparationRetries) :
      Lifecycle err (failedTries errs ++
        [.create errs.length, .prepare errs.length none] ++ stageRuns errs.length runs ++
        [.finish errs.length err, status err, .cleanup errs.length])

def Begun (log : List Event) : Prop :=
  ∃ rest err, Lifecycle err (log ++ rest)

theorem Begun.of_append {later : List Event} (begun : Begun (log ++ later)) : Begun log := by
  obtain ⟨rest, err, lifecycle⟩ := begun
  rw [append_assoc] at lifecycle
  exact ⟨later ++ rest, err, lifecycle⟩
variable {err : Option Error}

theorem Lifecycle.begun (lifecycle : Lifecycle err log) : Begun log := by
  refine ⟨[], err, ?_⟩
  rw [append_nil]
  exact lifecycle

/-- Every created executor was cleaned up after its failed `Prepare`. -/
def Idle (executor : Nat) (log : List Event) : Prop :=
  ∃ errs : List Error, errs.length = executor ∧ log = failedTries errs

def Created (executor : Nat) (log : List Event) : Prop :=
  executor < preparationRetries ∧
    ∃ before, Idle executor before ∧ log = before ++ [.create executor]

def Failing (executor : Nat) (log : List Event) : Prop :=
  executor < preparationRetries ∧ ∃ before err, Idle executor before ∧
    log = before ++ [.create executor, .prepare executor (some err)]

/-- The executor is prepared, and no call of `Run` is in progress. -/
def Ready (executor : Nat) (log : List Event) : Prop :=
  executor < preparationRetries ∧ ∃ before runs, Idle executor before ∧
    log = before ++ [.create executor, .prepare executor none] ++ stageRuns executor runs

def Running (executor : Nat) (stage : Stage) (log : List Event) : Prop :=
  ∃ before, Ready executor before ∧ log = before ++ [.runBegin executor stage]

def Finished (executor : Nat) (err : Option Error) (log : List Event) : Prop :=
  ∃ before, Ready executor before ∧ log = before ++ [.finish executor err]

def Reported (executor : Nat) (err : Option Error) (log : List Event) : Prop :=
  ∃ before, Ready executor before ∧ log = before ++ [.finish executor err, status err]
variable {executor : Nat}

theorem Idle.create (idle : Idle executor log)
    (few : executor < preparationRetries) : Created executor (log ++ [.create executor]) :=
  ⟨few, log, idle, rfl⟩

theorem Created.fail (created : Created executor log)
    (err : Error) : Failing executor (log ++ [.prepare executor (some err)]) := by
  obtain ⟨few, before, idle, rfl⟩ := created
  refine ⟨few, before, err, idle, ?_⟩
  rw [append_assoc]
  rfl

theorem Failing.cleanup (failing : Failing executor log) :
    Idle (executor + 1) (log ++ [.cleanup executor]) := by
  obtain ⟨_, _, err, ⟨errs, rfl, rfl⟩, rfl⟩ := failing
  refine ⟨errs ++ [err], length_append, ?_⟩
  simp [failedTries, zipIdx_append, failedTry]

theorem Created.ready (created : Created executor log) :
    Ready executor (log ++ [.prepare executor none]) := by
  obtain ⟨few, before, idle, rfl⟩ := created
  refine ⟨few, before, [], idle, ?_⟩
  simp [stageRuns]

theorem Running.ready {stage : Stage} (running : Running executor stage log) (err : Option Error) :
    Ready executor (log ++ [.runEnd executor stage err]) := by
  obtain ⟨_, ⟨few, before, runs, idle, rfl⟩, rfl⟩ := running
  refine ⟨few, before, runs ++ [(stage, err)], idle, ?_⟩
  simp [stageRuns]

/-- A prepared executor that is finished and cleaned up completes the lifecycle. -/
theorem Reported.lifecycle (reported : Reported executor err log) :
    Lifecycle err (log ++ [.cleanup executor]) := by
  obtain ⟨_, ⟨few, _, runs, ⟨errs, rfl, rfl⟩, rfl⟩, rfl⟩ := reported
  rw [append_assoc]
  exact Lifecycle.prepared few

theorem Reported.begun (reported : Reported executor err log) : Begun log :=
  reported.lifecycle.begun.of_append

theorem Finished.report
    (finished : Finished executor err log) : Reported executor err (log ++ [status err]) := by
  obtain ⟨before, ready, rfl⟩ := finished
  refine ⟨before, ready, ?_⟩
  rw [append_assoc]
  rfl

theorem Ready.finish (ready : Ready executor log)
    (err : Option Error) : Finished executor err (log ++ [.finish executor err]) :=
  ⟨log, ready, rfl⟩

theorem Ready.begin (ready : Ready executor log)
    (stage : Stage) : Running executor stage (log ++ [.runBegin executor stage]) :=
  ⟨log, ready, rfl⟩

theorem Finished.begun (finished : Finished executor err log) : Begun log :=
  finished.report.begun.of_append

theorem Ready.begun (ready : Ready executor log) : Begun log :=
  (ready.finish none).begun.of_append

theorem Running.begun {stage : Stage} (running : Running executor stage log) : Begun log :=
  (running.ready none).begun.of_append

theorem Created.begun (created : Created executor log) : Begun log :=
  created.ready.begun.of_append

theorem Idle.lifecycle (idle : Idle executor log)
    (few : executor ≤ preparationRetries) (err : Error) :
    Lifecycle (some err) (log ++ [status (some err)]) := by
  obtain ⟨errs, rfl, rfl⟩ := idle
  exact Lifecycle.unprepared few nofun

theorem Idle.begun (idle : Idle executor log) (few : executor ≤ preparationRetries) : Begun log :=
  (idle.lifecycle few (.other .executorNotFound)).begun.of_append

theorem Failing.begun (failing : Failing executor log) : Begun log :=
  (failing.cleanup.begun failing.1).of_append

/-- The goroutine of the stages is not running, and the calls made so far are in a
position. -/
structure Quiet (channel : BuildFinish) (created : Nat) (position : List Event → Prop)
    (build : Build) : Prop where
  position : position build.log
  created : build.created = created
  channel : build.buildFinish = channel
  quiet : build.buildFinish ≠ .running
  unreturned : build.returned = none

/-- The goroutine of the stages is running, and the calls made so far are in a
position. -/
structure Scripting (executor : Nat) (position : List Event → Prop) (build : Build) : Prop where
  position : position build.log
  created : build.created = executor + 1
  channel : build.buildFinish = .running
  unreturned : build.returned = none

def Waiting (executor : Nat) (build : Build) : Prop :=
  Scripting executor (fun log => Ready executor log ∨ ∃ stage, Running executor stage log) build ∨
    ∃ err, Quiet (.sent err) (executor + 1) (Ready executor) build

def OnlyScripts (build later : Build) : Prop :=
  later = build ∨ build.buildFinish = .running ∧
    ∀ executor, Waiting executor build → Waiting executor later

theorem OnlyScripts.trans {first second third : Build} (earlier : OnlyScripts first second)
    (later : OnlyScripts second third) : OnlyScripts first third := by
  rcases earlier with rfl | ⟨running, keeps⟩
  · exact later
  · rcases later with rfl | ⟨_, keepsLater⟩
    · exact .inr ⟨running, keeps⟩
    · exact .inr ⟨running, fun executor waits => keepsLater executor (keeps executor waits)⟩

/-- What holds of every reachable state, for a number of threads. -/
structure Ordered (threads : Nat) (build : Build) : Prop where
  begun : Begun build.log
  returned : ∀ err, build.returned = some err → Lifecycle err build.log
  running : build.buildFinish = .running → build.returned = none
  alone : build.buildFinish = .absent → threads = 1
  bounded : threads ≤ 2

def turns (attempts : Attempts) : Discipline (semantics attempts) where
  allowed := fun _ _ _ _ _ => true
  Invariant := Ordered
  Rely := fun self build later =>
    if self = 0 then OnlyScripts build later
    else build.buildFinish = .running → later = build
  Spawned := fun job index build =>
    match job with
    | .executeScript executor => index ≠ 0 ∧ Scripting executor (Ready executor) build
  rely_refl := by
    intro self build
    split
    · exact .inl rfl
    · exact fun _ => rfl
  rely_trans := by
    intro self first second third earlier later
    split at earlier
    · rename_i isBuild
      rw [if_pos isBuild] at later ⊢
      exact earlier.trans later
    · rename_i isScript
      rw [if_neg isScript] at later ⊢
      intro running
      have same := earlier running
      rw [same] at later
      exact later running

variable {attempts : Attempts}

theorem quiet_stable (channel : BuildFinish) (created : Nat) (position : List Event → Prop) :
    (turns attempts).Stable 0 (Quiet channel created position) := by
  intro build later relied holds
  rcases relied with rfl | ⟨running, _⟩
  · exact holds
  · exact (holds.quiet running).elim

theorem waiting_stable (executor : Nat) : (turns attempts).Stable 0 (Waiting executor) := by
  intro build later relied holds
  rcases relied with rfl | ⟨_, keeps⟩
  · exact holds
  · exact keeps executor holds

theorem scripting_stable {self : Nat} (isScript : self ≠ 0) (executor : Nat)
    (position : List Event → Prop) :
    (turns attempts).Stable self (Scripting executor position) := by
  intro build later relied holds
  change if self = 0 then _ else _ at relied
  rw [if_neg isScript] at relied
  rw [relied holds.channel]
  exact holds
variable {channel : BuildFinish} {created : Nat} {position : List Event → Prop}

theorem keeps_quiet {β : Type} {command : Command β} {post : β → Build → Prop}
    (effect : ∀ build input after response job,
      Quiet channel created position build →
      execute 0 0 command input build = some (after, response, job) →
      job = none ∧ after.buildFinish = channel ∧
        (∀ err, after.returned = some err → Lifecycle err after.log) ∧
        Begun after.log ∧ post response after) :
    (turns attempts).Keeps 0 (Quiet channel created position) command post := by
  intro threads build input after response job holds ordered _ _ executed
  obtain ⟨rfl, sameChannel, returned, begun, ends⟩ :=
    effect build input after response job holds executed
  refine ⟨⟨begun, returned, ?_, ?_, ordered.bounded⟩, ?_, nofun, ends⟩
  · intro running
    rw [sameChannel, ← holds.channel] at running
    exact (holds.quiet running).elim
  · intro absent
    apply ordered.alone
    rw [holds.channel, ← sameChannel]
    exact absent
  · intro other _ isOther
    change if other = 0 then _ else _
    rw [if_neg isOther]
    intro running
    exact (holds.quiet running).elim

theorem keeps_script {β : Type} {command : Command β} {self : Nat} (isScript : self ≠ 0)
    {post : β → Build → Prop} (effect : ∀ build input after response job,
      Scripting executor position build →
      execute 0 0 command input build = some (after, response, job) →
      job = none ∧ after.buildFinish ≠ .absent ∧ after.returned = none ∧
        Begun after.log ∧ Waiting executor after ∧ post response after) :
    (turns attempts).Keeps self (Scripting executor position) command post := by
  intro threads build input after response job holds ordered started _ executed
  obtain ⟨rfl, present, unreturned, begun, waits, ends⟩ :=
    effect build input after response job holds executed
  refine ⟨⟨begun, ?_, fun _ => unreturned, ?_, ordered.bounded⟩, ?_, nofun, ends⟩
  · intro err returned
    rw [unreturned] at returned
    cases returned
  · intro absent
    exact (present absent).elim
  · intro other inPool isOther
    have bounded := ordered.bounded
    have isBuild : other = 0 := by omega
    change if other = 0 then _ else _
    rw [if_pos isBuild]
    refine .inr ⟨holds.channel, ?_⟩
    intro waited waiting
    have same : build.created = waited + 1 := by
      rcases waiting with scripting | ⟨err, quiet⟩
      · exact scripting.created
      · exact quiet.created
    have isExecutor : waited = executor := by
      rw [holds.created] at same
      omega
    rw [isExecutor]
    exact waits
variable {build : Build}

theorem safe_create (few : executor < preparationRetries) :
    (turns attempts).Triple 0 (Quiet .absent executor (Idle executor)) (call .create)
      fun created build => (created = none ∧ Quiet .absent executor (Idle executor) build) ∨
        created = some executor ∧ Quiet .absent (executor + 1) (Created executor) build := by
  refine .call (quiet_stable _ _ _) (keeps_quiet ?_)
  intro build input after response job quiet executed
  have unreturned : ∀ err, build.returned = some err → Lifecycle err build.log := by
    intro err returned
    rw [quiet.unreturned] at returned
    cases returned
  cases input with
  | executor exists_ =>
    cases exists_ with
    | true =>
      cases executed
      have created : Created executor (build.log ++ [.create build.created]) := by
        rw [quiet.created]
        exact quiet.position.create few
      refine ⟨rfl, quiet.channel, ?_, created.begun, .inr ⟨?_, created, ?_, ?_, ?_, ?_⟩⟩
      · intro err returned
        change build.returned = some err at returned
        rw [quiet.unreturned] at returned
        cases returned
      · rw [quiet.created]
      · change build.created + 1 = executor + 1
        rw [quiet.created]
      · exact quiet.channel
      · exact quiet.quiet
      · exact quiet.unreturned
    | false =>
      cases executed
      exact ⟨rfl, quiet.channel, unreturned, quiet.position.begun (Nat.le_of_lt few),
        .inl ⟨rfl, quiet⟩⟩
  | _ => cases executed

theorem safe_record {β : Type} (next : β → List Event → Prop) {command : Command β}
    (effect : ∀ build input after response job, position build.log →
      execute 0 0 command input build = some (after, response, job) →
      job = none ∧ after.created = build.created ∧ after.buildFinish = build.buildFinish ∧
        after.returned = build.returned ∧ Begun after.log ∧ next response after.log) :
    (turns attempts).Triple 0 (Quiet channel created position) (call command)
      fun response => Quiet channel created (next response) := by
  refine .call (quiet_stable _ _ _) (keeps_quiet ?_)
  intro build input after response job isQuiet executed
  obtain ⟨noJob, sameCreated, sameChannel, sameReturned, begun, moved⟩ :=
    effect build input after response job isQuiet.position executed
  rw [isQuiet.created] at sameCreated
  rw [isQuiet.channel] at sameChannel
  rw [isQuiet.unreturned] at sameReturned
  refine ⟨noJob, sameChannel, ?_, begun, moved, sameCreated, sameChannel, ?_, sameReturned⟩
  · intro err returned
    rw [sameReturned] at returned
    cases returned
  · rw [sameChannel, ← isQuiet.channel]
    exact isQuiet.quiet

theorem safe_prepare :
    (turns attempts).Triple 0 (Quiet .absent (executor + 1) (Created executor))
      (call (.prepare executor)) fun err => Quiet .absent (executor + 1)
        (if err = none then Ready executor else Failing executor) := by
  refine safe_record (fun err => if err = none then Ready executor else Failing executor) ?_
  intro build input after response job created executed
  cases input <;> cases executed
  cases response with
  | none =>
    have ready := created.ready
    exact ⟨rfl, rfl, rfl, rfl, ready.begun, ready⟩
  | some err =>
    have failing := created.fail err
    exact ⟨rfl, rfl, rfl, rfl, failing.begun, failing⟩

variable {next : List Event → Prop}

theorem safe_event {command : Command Unit} {event : Event}
    (executes : ∀ build input after response job,
      execute 0 0 command input build = some (after, response, job) →
      job = none ∧ after = build.record event)
    (advances : ∀ log, position log → next (log ++ [event]))
    (begins : ∀ log, next log → Begun log) :
    (turns attempts).Triple 0 (Quiet channel created position) (call command)
      fun _ => Quiet channel created next := by
  refine safe_record (fun _ => next) ?_
  intro build input after response job isAt executed
  obtain ⟨noJob, rfl⟩ := executes build input after response job executed
  have advanced := advances build.log isAt
  exact ⟨noJob, rfl, rfl, rfl, begins _ advanced, advanced⟩

theorem execute_cleanup {after : Build} {input : Input} {response : Unit} {job : Option Job}
    (executed : execute 0 0 (.cleanup executor) input build = some (after, response, job)) :
    job = none ∧ after = build.record (.cleanup executor) := by
  cases input <;> cases executed
  exact ⟨rfl, rfl⟩

theorem safe_contextErr (few : executor ≤ preparationRetries) :
    (turns attempts).Triple 0 (Quiet channel created (Idle executor)) (call .contextErr)
      fun _ => Quiet channel created (Idle executor) := by
  refine safe_record (fun _ => Idle executor) ?_
  intro build input after response job idle executed
  cases input <;> cases executed
  exact ⟨rfl, rfl, rfl, rfl, idle.begun few, idle⟩

/-- What `retryCreateExecutor` leaves behind: a prepared executor, or an error and
no executor that was not cleaned up. -/
def Prepared (result : Option Nat × Option Error) (build : Build) : Prop :=
  (∃ executor, result = (some executor, none) ∧
    Quiet .absent (executor + 1) (Ready executor) build) ∨
  ∃ executor err, result = (none, some err) ∧ executor ≤ preparationRetries ∧
    Quiet .absent executor (Idle executor) build

theorem retryCreateExecutor_safe {tries : Nat} (left : executor + tries = preparationRetries)
    (failed : tries = 0 → err ≠ none) :
    (turns attempts).Triple 0 (Quiet .absent executor (Idle executor))
      (retryCreateExecutor err tries) Prepared := by
  induction tries generalizing executor err with
  | zero =>
    obtain ⟨failure, rfl⟩ := ne_none_iff_exists'.mp (failed rfl)
    exact fun _ idle => .inr ⟨executor, failure, rfl, by omega, idle⟩
  | succ tries ih =>
    have few : executor < preparationRetries := by omega
    refine .bind (safe_create few) fun created => ?_
    rintro build (⟨rfl, idle⟩ | ⟨rfl, isCreated⟩)
    · exact .inr ⟨executor, _, rfl, Nat.le_of_lt few, idle⟩
    · refine Triple.bind safe_prepare (fun err => ?_) build isCreated
      cases err with
      | none => exact fun _ ready => .inl ⟨executor, rfl, ready⟩
      | some err =>
        refine .bind (safe_event (fun _ _ _ _ _ => execute_cleanup)
          (fun _ => Failing.cleanup) (fun _ idle => idle.begun few)) fun _ => ?_
        split
        · exact fun _ idle => .inr ⟨executor + 1, err, rfl, few, idle⟩
        · refine .bind (safe_contextErr few) fun ended => ?_
          cases ended with
          | some ended => exact fun _ idle => .inr ⟨executor + 1, _, rfl, few, idle⟩
          | none => exact ih (by omega) nofun

theorem safe_goExecuteScript :
    (turns attempts).Triple 0 (Quiet .absent (executor + 1) (Ready executor))
      (call (.goExecuteScript executor)) fun _ => Waiting executor := by
  refine .call (quiet_stable _ _ _) ?_
  intro threads build input after response job isQuiet ordered _ _ executed
  have alone := ordered.alone isQuiet.channel
  cases input <;> cases executed
  have scripting : Scripting executor (Ready executor) { build with buildFinish := .running } :=
    ⟨isQuiet.position, isQuiet.created, rfl, isQuiet.unreturned⟩
  refine ⟨⟨ordered.begun, ordered.returned, fun _ => isQuiet.unreturned, nofun, ?_⟩, ?_,
    ?_, .inl ⟨.inl isQuiet.position, isQuiet.created, rfl, isQuiet.unreturned⟩⟩
  · change threads + 1 ≤ 2
    omega
  · intro other inPool isOther
    omega
  · intro job started
    cases started
    exact ⟨by omega, scripting⟩

/-- `buildFinish` is received when the goroutine has sent its result. -/
theorem received_of_waiting {threads : Nat} (waits : Waiting executor build)
    (ordered : Ordered threads build) (sent : build.buildFinish = .sent err) :
    Ordered threads { build with buildFinish := .received } ∧ (∀ other, other ≠ 0 →
        (turns attempts).Rely other build { build with buildFinish := .received }) ∧
      Quiet .received (executor + 1) (Ready executor) { build with buildFinish := .received } := by
  rcases waits with scripting | ⟨_, quiet⟩
  · rw [scripting.channel] at sent
    cases sent
  · refine ⟨⟨ordered.begun, ordered.returned, nofun, nofun, ordered.bounded⟩, ?_,
      quiet.position, quiet.created, rfl, nofun, quiet.unreturned⟩
    intro other isOther
    change if other = 0 then _ else _
    rw [if_neg isOther, sent]
    nofun

/-- What the build knows behind its `select`. -/
def Awaited (executor : Nat) : Selected → Build → Prop
  | .finished _ => Quiet .received (executor + 1) (Ready executor)
  | _ => Waiting executor

theorem safe_select :
    (turns attempts).Triple 0 (Waiting executor) (call .select) (Awaited executor) := by
  refine .call (waiting_stable executor) ?_
  intro threads build input after response job waits ordered _ _ executed
  have unchanged : ∀ other < threads, other ≠ 0 → (turns attempts).Rely other build build :=
    fun other _ _ => (turns attempts).rely_refl other build
  cases input with
  | context ended =>
    cases ended with
    | none => cases executed
    | some ended =>
      cases executed
      exact ⟨ordered, unchanged, nofun, waits⟩
  | interrupt signal =>
    cases executed
    exact ⟨ordered, unchanged, nofun, waits⟩
  | nothing =>
    cases finish : build.buildFinish with
    | sent err =>
      simp only [semantics, execute, finish, some.injEq, Prod.mk.injEq] at executed
      obtain ⟨rfl, rfl, rfl⟩ := executed
      obtain ⟨kept, others, quiet⟩ := received_of_waiting waits ordered finish
      exact ⟨kept, fun other _ => others other, nofun, quiet⟩
    | _ => simp only [semantics, execute, finish, reduceCtorEq] at executed
  | _ => cases executed

theorem safe_receive :
    (turns attempts).Triple 0 (Waiting executor) (call .receive)
      fun _ => Quiet .received (executor + 1) (Ready executor) := by
  refine .call (waiting_stable executor) ?_
  intro threads build input after response job waits ordered _ _ executed
  cases input with
  | nothing =>
    cases finish : build.buildFinish with
    | sent err =>
      simp only [semantics, execute, finish, some.injEq, Prod.mk.injEq] at executed
      obtain ⟨rfl, -, rfl⟩ := executed
      obtain ⟨kept, others, quiet⟩ := received_of_waiting waits ordered finish
      exact ⟨kept, fun other _ => others other, nofun, quiet⟩
    | _ => simp only [semantics, execute, finish, reduceCtorEq] at executed
  | _ => cases executed

theorem run_safe :
    (turns attempts).Triple 0 (Quiet .absent (executor + 1) (Ready executor)) (run executor)
      fun _ => Quiet .received (executor + 1) (Ready executor) := by
  refine .bind safe_goExecuteScript fun _ => .bind safe_select fun selected => ?_
  cases selected with
  | finished err => exact fun _ ready => ready
  | done | interrupted => exact .bind safe_receive fun _ _ ready => ready

theorem setTraceStatus_safe (advances : ∀ log, position log → next (log ++ [status err]))
    (begins : ∀ log, next log → Begun log) :
    (turns attempts).Triple 0 (Quiet channel created position) (setTraceStatus err)
      fun _ => Quiet channel created next := by
  cases err with
  | none | some =>
    refine safe_event ?_ advances begins
    intro build input after response job executed
    cases input <;> cases executed
    exact ⟨rfl, rfl⟩

theorem safe_returns :
    (turns attempts).Triple 0 (Quiet channel created (Lifecycle err)) (call (.returns err))
      fun _ _ => True := by
  refine .call (quiet_stable _ _ _) (keeps_quiet ?_)
  intro build input after response job quiet executed
  cases input <;> cases executed
  refine ⟨rfl, quiet.channel, ?_, quiet.position.begun, trivial⟩
  intro returned isReturned
  cases isReturned
  exact quiet.position

theorem runBuild_safe (found : Bool) :
    (turns attempts).Triple 0 (Quiet .absent 0 (Idle 0)) (runBuild found) fun _ _ => True := by
  cases found with
  | false =>
    exact .bind (setTraceStatus_safe (fun _ idle => idle.lifecycle (Nat.zero_le _) _)
      (fun _ => Lifecycle.begun)) fun _ => safe_returns
  | true =>
    refine .bind (retryCreateExecutor_safe (Nat.zero_add _) nofun) ?_
    rintro ⟨result, failure⟩ build (⟨executor, same, ready⟩ | ⟨executor, err, same, few, idle⟩)
    · cases same
      refine Triple.bind run_safe (fun err => ?_) build ready
      refine .bind (safe_event (fun _ input _ _ _ executed => by
          cases input <;> cases executed
          exact ⟨rfl, rfl⟩)
        (fun _ ready => Ready.finish ready err) (fun _ => Finished.begun)) fun _ => ?_
      refine .bind (setTraceStatus_safe (fun _ => Finished.report) (fun _ => Reported.begun))
        fun _ => ?_
      exact .bind (safe_event (fun _ _ _ _ _ => execute_cleanup) (fun _ => Reported.lifecycle)
        (fun _ => Lifecycle.begun)) fun _ => safe_returns
    · cases same
      refine Triple.bind (setTraceStatus_safe (fun _ idle => idle.lifecycle few err)
        (fun _ => Lifecycle.begun)) (fun _ => safe_returns) build idle

section Script

variable {self : Nat} (isScript : self ≠ 0) {executor : Nat}

/-- A part of the script of a job, which starts and ends between two calls of `Run`. -/
def Staged (attempts : Attempts) (self executor : Nat) (program : Program Command (Option Error)) :
    Prop :=
  (turns attempts).Triple self (Scripting executor (Ready executor)) program
    fun _ => Scripting executor (Ready executor)

include isScript

variable (stage : Stage)

theorem safe_script :
    (turns attempts).Triple self (Scripting executor (Ready executor))
      (call (.script executor stage)) fun _ => Scripting executor (Ready executor) := by
  refine .call (scripting_stable isScript _ _) (keeps_script isScript ?_)
  intro build input after response job scripting executed
  cases input <;> cases executed
  refine ⟨rfl, ?_, scripting.unreturned, scripting.position.begun, .inl ?_, scripting⟩
  · rw [scripting.channel]
    nofun
  · exact ⟨.inl scripting.position, scripting.created, scripting.channel, scripting.unreturned⟩

theorem safe_runBegin :
    (turns attempts).Triple self (Scripting executor (Ready executor))
      (call (.runBegin executor stage)) fun _ => Scripting executor (Running executor stage) := by
  refine .call (scripting_stable isScript _ _) (keeps_script isScript ?_)
  intro build input after response job scripting executed
  cases input <;> cases executed
  have running := scripting.position.begin stage
  refine ⟨rfl, ?_, scripting.unreturned, running.begun, .inl ?_, ?_⟩
  · change build.buildFinish ≠ .absent
    rw [scripting.channel]
    nofun
  · exact ⟨.inr ⟨stage, running⟩, scripting.created, scripting.channel, scripting.unreturned⟩
  · exact ⟨running, scripting.created, scripting.channel, scripting.unreturned⟩

theorem safe_runEnd {stage : Stage} :
    (turns attempts).Triple self (Scripting executor (Running executor stage))
      (call (.runEnd executor stage)) fun _ => Scripting executor (Ready executor) := by
  refine .call (scripting_stable isScript _ _) (keeps_script isScript ?_)
  intro build input after response job scripting executed
  cases input <;> cases executed
  have ready := scripting.position.ready response
  refine ⟨rfl, ?_, scripting.unreturned, ready.begun, .inl ?_, ?_⟩
  · change build.buildFinish ≠ .absent
    rw [scripting.channel]
    nofun
  · exact ⟨.inl ready, scripting.created, scripting.channel, scripting.unreturned⟩
  · exact ⟨ready, scripting.created, scripting.channel, scripting.unreturned⟩

theorem safe_send (err : Option Error) :
    (turns attempts).Triple self (Scripting executor (Ready executor)) (call (.send err))
      fun _ _ => True := by
  refine .call (scripting_stable isScript _ _) (keeps_script isScript ?_)
  intro build input after response job scripting executed
  cases input <;> cases executed
  refine ⟨rfl, nofun, scripting.unreturned, scripting.position.begun, .inr ⟨err, ?_⟩, trivial⟩
  exact ⟨scripting.position, scripting.created, rfl, nofun, scripting.unreturned⟩

theorem executeStage_staged : Staged attempts self executor (executeStage executor stage) := by
  refine .bind (safe_script isScript stage) fun result => ?_
  match result with
  | .error err => exact fun _ ready => ready
  | .ok false => exact fun _ ready => ready
  | .ok true => exact .bind (safe_runBegin isScript stage) fun _ => safe_runEnd isScript

theorem attempt_staged (err : Option Error) (left : Nat) :
    Staged attempts self executor (attempt executor stage err left) := by
  induction left generalizing err with
  | zero => exact fun _ ready => ready
  | succ left ih =>
    refine .bind (executeStage_staged isScript stage) fun result => ?_
    cases result with
    | none => exact fun _ ready => ready
    | some err => exact ih (some err)

theorem attemptExecuteStage_staged (number : Int) :
    Staged attempts self executor (attemptExecuteStage executor stage number) := by
  unfold attemptExecuteStage
  split
  · exact fun _ ready => ready
  · exact attempt_staged isScript stage none _

omit isScript in
theorem onSuccess_staged {err : Option Error} {next : Program Command (Option Error)}
    (staged : Staged attempts self executor next) :
    Staged attempts self executor (onSuccess err next) := by
  unfold onSuccess
  split
  · exact staged
  · exact fun _ ready => ready

theorem executeScript_staged : Staged attempts self executor (executeScript attempts executor) := by
  have userScript : Staged attempts self executor (do
      let err ← executeStage executor .userScript
      let _ ← executeStage executor .afterScript
      pure err) :=
    .bind (executeStage_staged isScript .userScript) fun err =>
      .bind (executeStage_staged isScript .afterScript) fun _ _ ready => ready
  refine .bind (executeStage_staged isScript .prepare) fun err => ?_
  refine .bind (onSuccess_staged (attemptExecuteStage_staged isScript _ _)) fun err => ?_
  refine .bind (onSuccess_staged (attemptExecuteStage_staged isScript _ _)) fun err => ?_
  refine .bind (onSuccess_staged (attemptExecuteStage_staged isScript _ _)) fun err => ?_
  refine .bind (onSuccess_staged userScript) fun err => ?_
  refine .bind (onSuccess_staged (executeStage_staged isScript _)) fun err => ?_
  have upload : Staged attempts self executor (executeUploadArtifacts executor err) := by
    unfold executeUploadArtifacts
    split
    · exact executeStage_staged isScript .uploadOnSuccessArtifacts
    · exact executeStage_staged isScript .uploadOnFailureArtifacts
  refine .bind upload fun uploadError => ?_
  split
  · exact fun _ ready => ready
  · exact fun _ ready => ready

end Script

theorem body_safe (job : Job) (index : Nat) (build : Build)
    (spawned : (turns attempts).Spawned job index build) :
    (turns attempts).Safe index (fun _ _ => True) (body attempts job) build := by
  cases job with
  | executeScript executor =>
    obtain ⟨isScript, ready⟩ := spawned
    exact Triple.bind (executeScript_staged isScript) (safe_send isScript) build ready

theorem start_safe (found : Bool) : (start found).Safe (turns attempts) (fun _ _ => True) := by
  have idle : Idle 0 [] := ⟨[], rfl, rfl⟩
  refine ⟨⟨idle.begun (Nat.zero_le _), nofun, nofun, fun _ => rfl, ?_⟩, ?_⟩
  · exact Nat.le_succ 1
  · intro index program position
    cases index with
    | zero =>
      cases position
      exact runBuild_safe found _ ⟨idle, rfl, rfl, nofun, rfl⟩
    | succ index => cases position

/-- In every run of a build, whatever the provider, the executors, the context and
the service do, the calls made so far begin a lifecycle, and they are a complete
lifecycle for the error that `Run` returns once it has returned. -/
theorem executor_lifecycle {attempts : Attempts} {found : Bool}
    {actions : List (Nat × Input)} {pool : Pool Build Command}
    (reached : ActionRuns.run (Pool.step (semantics attempts)) (start found) actions = some pool) :
    Begun pool.state.log ∧
      ∀ err, pool.state.returned = some err → Lifecycle err pool.state.log := by
  have meets : ActionRuns.MeetsAlong (Pool.step (semantics attempts))
      (fun pool action => pool.meets (turns attempts).allowed action = true)
      (start found) actions := by
    apply ActionRuns.meetsAlong_of_forall
    intro action _ pool
    unfold Pool.meets
    split
    · rfl
    · rfl
  have safe := (start_safe found).run (fun _ _ _ _ _ => trivial) body_safe meets reached
  exact ⟨safe.invariant.begun, safe.invariant.returned⟩

def cancelledOnSecondTry : List (Nat × Input) :=
  [(0, .executor true), (0, .result (some (.other (.returned "no connection")))),
    (0, .nothing), (0, .context none), (0, .executor true), (0, .result none), (0, .nothing),
    (1, .script (.ok true)), (1, .nothing), (1, .result none),
    (1, .script (.ok false)), (1, .script (.ok false)), (1, .script (.ok false)),
    (1, .script (.ok true)), (1, .nothing), (0, .context (some .canceled)),
    (1, .result (some (.other (.returned "aborted")))), (1, .script (.ok false)),
    (1, .script (.ok false)), (1, .nothing), (0, .nothing), (0, .nothing), (0, .nothing),
    (0, .nothing), (0, .nothing)]

theorem executor_lifecycle_cancelled :
    ∃ pool, ActionRuns.run (Pool.step (semantics ⟨1, 1, 1⟩)) (start true)
        cancelledOnSecondTry = some pool ∧ pool.state.created = 2 ∧
      Lifecycle (some (handleError .canceled)) pool.state.log := by
  obtain ⟨pool, reached, fields⟩ := map_eq_some_iff.mp (by decide :
    (ActionRuns.run (Pool.step (semantics ⟨1, 1, 1⟩)) (start true) cancelledOnSecondTry).map
      (fun pool => (pool.state.created, pool.state.returned)) =
      some (2, some (some (handleError .canceled))))
  injection fields with created returned
  exact ⟨pool, reached, created, (executor_lifecycle reached).2 _ returned⟩

/-- The status does not always come before the last `Cleanup`: without a prepared
executor it comes after it. -/
theorem status_after_last_cleanup :
    ¬ ∀ (attempts : Attempts) (found : Bool) (actions : List (Nat × Input))
      (pool : Pool Build Command) (err : Option Error) (before after : List Event),
      ActionRuns.run (Pool.step (semantics attempts)) (start found) actions = some pool →
      pool.state.returned = some err → pool.state.log = before ++ status err :: after →
      (∃ executor, Event.cleanup executor ∈ pool.state.log) →
      ∃ executor, Event.cleanup executor ∈ after := by
  intro always
  obtain ⟨pool, reached, fields⟩ := map_eq_some_iff.mp (by decide :
    (ActionRuns.run (Pool.step (semantics ⟨1, 1, 1⟩)) (start true)
      [(0, .executor true), (0, .result (some (.buildError (.returned "no image") .noneFailure))),
        (0, .nothing), (0, .nothing), (0, .nothing)]).map
      (fun pool => (pool.state.log, pool.state.returned)) =
      some ([.create 0, .prepare 0 (some (.buildError (.returned "no image") .noneFailure)),
        .cleanup 0, .fail (.buildError (.returned "no image") .noneFailure) .scriptFailure],
        some (some (.buildError (.returned "no image") .noneFailure))))
  injection fields with log returned
  obtain ⟨executor, member⟩ := always ⟨1, 1, 1⟩ true _ pool _
    [.create 0, .prepare 0 (some (.buildError (.returned "no image") .noneFailure)), .cleanup 0]
    [] reached returned log ⟨0, by rw [log]; decide⟩
  cases member

end GitlabRunner.BuildRun
