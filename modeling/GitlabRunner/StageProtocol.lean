import GitlabRunner.BuildRun

/-!
# The stages of a job

`executeScript` of `common/build.go` runs the stages of a job one after the other.  It is
stated here for any way to execute a stage, and run against an oracle that decides the
result of every call of `executeStage`.
-/

namespace GitlabRunner.BuildRun

open List

section Generic

universe u

variable {m : Type → Type u} [Monad m] (execute : Stage → m (Option Error))

/-- The loop of `attemptExecuteStage` goes on after an error. -/
def unlessDone (result : Option Error) (again : Error → m (Option Error)) : m (Option Error) :=
  match result with
  | none => pure none
  | some err => again err

def attemptWith (stage : Stage) (err : Option Error) : Nat → m (Option Error)
  | 0 => pure err
  | attempts + 1 => do
    let result ← execute stage
    unlessDone result fun err => attemptWith stage (some err) attempts

def attemptExecuteStageWith (stage : Stage) (attempts : Int) : m (Option Error) :=
  if attempts < 1 ∨ 10 < attempts then
    pure (some (.other (.attemptsOutOfRange stage)))
  else attemptWith execute stage none attempts.toNat

def onSuccessWith (err : Option Error) (next : m (Option Error)) : m (Option Error) :=
  if err = none then next else pure err

/-- The user script, and the after script whatever its result is. -/
def userScriptWith : m (Option Error) := do
  let err ← execute .userScript
  let _ ← execute .afterScript
  pure err

def uploadStage (state : Option Error) : Stage :=
  if state = none then .uploadOnSuccessArtifacts else .uploadOnFailureArtifacts

def executeScriptWith (attempts : Attempts) : m (Option Error) := do
  let err ← execute .prepare
  let err ← onSuccessWith err (attemptExecuteStageWith execute .getSources attempts.getSources)
  let err ← onSuccessWith err
    (attemptExecuteStageWith execute .restoreCache attempts.restoreCache)
  let err ← onSuccessWith err
    (attemptExecuteStageWith execute .downloadArtifacts attempts.downloadArtifacts)
  let err ← onSuccessWith err (userScriptWith execute)
  let err ← onSuccessWith err (execute .archiveCache)
  let uploadError ← execute (uploadStage err)
  if err = none then pure uploadError else pure err

end Generic

theorem attempt_eq (executor : Nat) (stage : Stage) (err : Option Error) (attempts : Nat) :
    attempt executor stage err attempts =
      attemptWith (executeStage executor) stage err attempts := by
  induction attempts generalizing err with
  | zero => rfl
  | succ attempts ih =>
    simp only [attempt, attemptWith, ih]
    rfl

theorem executeScript_eq (attempts : Attempts) (executor : Nat) :
    executeScript attempts executor = executeScriptWith (executeStage executor) attempts := by
  have attempted : ∀ stage number, attemptExecuteStage executor stage number =
      attemptExecuteStageWith (executeStage executor) stage number := by
    intro stage number
    unfold attemptExecuteStage attemptExecuteStageWith
    rw [attempt_eq]
  have uploaded : ∀ state, executeUploadArtifacts executor state =
      executeStage executor (uploadStage state) := by
    intro state
    cases state with
    | none | some => rfl
  simp only [executeScript, attempted, uploaded]
  rfl

abbrev Calls := List (Stage × Option Error)

/-- An oracle gives the result of each call from its number and its stage. -/
abbrev Oracle := Nat → Stage → Option Error

/-- A call of `executeStage` that the oracle answers. -/
def ask (oracle : Oracle) (stage : Stage) : StateM Calls (Option Error) := fun calls =>
  (oracle calls.length stage, calls ++ [(stage, oracle calls.length stage)])

def scriptRun (attempts : Attempts) (oracle : Oracle) : Option Error × Calls :=
  executeScriptWith (ask oracle) attempts []

/-- Calls of one stage, repeated until the first success. -/
inductive Attempted (stage : Stage) (attempts : Int) : Calls → Option Error → Prop where
  | outOfRange (outside : attempts < 1 ∨ 10 < attempts) :
    Attempted stage attempts [] (some (.other (.attemptsOutOfRange stage)))
  | succeeded (failures : List Error) (inside : 1 ≤ attempts ∧ attempts ≤ 10)
    (fewer : failures.length < attempts) :
    Attempted stage attempts (failures.map (fun err => (stage, some err)) ++ [(stage, none)])
      none
  | exhausted (failures : List Error) (last : Error) (inside : 1 ≤ attempts ∧ attempts ≤ 10)
    (all : failures.length + 1 = attempts) :
    Attempted stage attempts ((failures ++ [last]).map fun err => (stage, some err)) (some last)

/-- A part that is executed only if there is no error so far, and an error that stays. -/
def IfSucceeded (err : Option Error) (part : Calls → Option Error → Prop) (calls : Calls)
    (result : Option Error) : Prop :=
  (err = none → part calls result) ∧ (err ≠ none → calls = [] ∧ result = err)

def Scripted (calls : Calls) (result : Option Error) : Prop :=
  ∃ after, calls = [(.userScript, result), (.afterScript, after)]

/-- The calls of a job and the error that it returns. -/
structure Protocol (attempts : Attempts) (calls : Calls) (returned : Option Error) : Prop where
  parts : ∃ (prepared fetched restored downloaded scripted archived uploaded : Option Error)
    (sources cache artifacts script archive : Calls),
    calls = [(.prepare, prepared)] ++ (sources ++ (cache ++ (artifacts ++ (script ++ (archive ++
      [(uploadStage archived, uploaded)]))))) ∧
    IfSucceeded prepared (Attempted .getSources attempts.getSources) sources fetched ∧
    IfSucceeded fetched (Attempted .restoreCache attempts.restoreCache) cache restored ∧
    IfSucceeded restored (Attempted .downloadArtifacts attempts.downloadArtifacts) artifacts
      downloaded ∧
    IfSucceeded downloaded Scripted script scripted ∧
    IfSucceeded scripted (fun calls result => calls = [(.archiveCache, result)]) archive
      archived ∧
    returned = if archived = none then uploaded else archived

def Adds (oracle : Oracle) {α : Type} (program : StateM Calls α) (part : Calls → α → Prop) :
    Prop :=
  ∀ before, ∃ added value, program before = (value, before ++ added) ∧ part added value ∧
    ∀ index stage result, added[index]? = some (stage, result) →
      result = oracle (before.length + index) stage

variable {oracle : Oracle} {α β : Type} {program : StateM Calls α}

theorem Adds.mono {part weak : Calls → α → Prop} (adds : Adds oracle program part)
    (weaker : ∀ calls value, part calls value → weak calls value) : Adds oracle program weak := by
  intro before
  obtain ⟨added, value, runs, holds, answered⟩ := adds before
  exact ⟨added, value, runs, weaker added value holds, answered⟩

theorem Adds.pure (value : α) :
    Adds oracle (Pure.pure value) fun calls result => calls = [] ∧ result = value := by
  intro before
  refine ⟨[], value, ?_, ⟨rfl, rfl⟩, ?_⟩
  · rw [append_nil]
    rfl
  · intro index stage result found
    cases found

theorem Adds.bind {rest : α → StateM Calls β}
    {part : Calls → α → Prop} {last : α → Calls → β → Prop}
    (adds : Adds oracle program part) (follows : ∀ value, Adds oracle (rest value) (last value)) :
    Adds oracle (program >>= rest) fun calls result => ∃ first second value,
      calls = first ++ second ∧ part first value ∧ last value second result := by
  intro before
  obtain ⟨first, value, runs, holds, answered⟩ := adds before
  obtain ⟨second, result, restRuns, restHolds, restAnswered⟩ := follows value (before ++ first)
  refine ⟨first ++ second, result, ?_, ⟨first, second, value, rfl, holds, restHolds⟩, ?_⟩
  · rw [← append_assoc, ← restRuns]
    change (rest (program before).1) (program before).2 = _
    rw [runs]
  · intro index stage answer found
    rcases Nat.lt_or_ge index first.length with inFirst | inSecond
    · rw [List.getElem?_append_left inFirst] at found
      exact answered index stage answer found
    · rw [List.getElem?_append_right inSecond] at found
      rw [restAnswered _ stage answer found, length_append]
      congr 1
      omega

variable (stage : Stage)

theorem ask_adds :
    Adds oracle (ask oracle stage) fun calls result => calls = [(stage, result)] := by
  intro before
  refine ⟨[(stage, oracle before.length stage)], oracle before.length stage, rfl, rfl, ?_⟩
  intro index other result found
  cases index with
  | zero =>
    cases found
    rfl
  | succ index => cases found

/-- The calls of the loop that are left, from the error of the last one. -/
inductive Repeated (stage : Stage) (err : Option Error) (attempts : Nat) :
    Calls → Option Error → Prop where
  | succeeded (failures : List Error) (fewer : failures.length < attempts) :
    Repeated stage err attempts
      (failures.map (fun err => (stage, some err)) ++ [(stage, none)]) none
  | exhausted (failures : List Error) (all : failures.length = attempts) :
    Repeated stage err attempts (failures.map fun err => (stage, some err))
      (failures.getLast?.or err)

theorem attemptWith_adds (err : Option Error) (attempts : Nat) :
    Adds oracle (attemptWith (ask oracle) stage err attempts) (Repeated stage err attempts) := by
  induction attempts generalizing err with
  | zero =>
    refine (Adds.pure err).mono ?_
    rintro calls result ⟨rfl, rfl⟩
    exact .exhausted [] rfl
  | succ attempts ih =>
    unfold attemptWith
    have follows : ∀ result : Option Error, Adds oracle
        (unlessDone result fun err => attemptWith (ask oracle) stage (some err) attempts)
        fun calls last => (result = none → calls = [] ∧ last = none) ∧
          ∀ err, result = some err → Repeated stage (some err) attempts calls last := by
      intro result
      cases result with
      | none =>
        refine (Adds.pure none).mono ?_
        intro calls last nothing
        exact ⟨fun _ => nothing, fun err impossible => (by cases impossible)⟩
      | some err =>
        refine (ih (some err)).mono ?_
        intro calls last repeated
        refine ⟨fun impossible => (by cases impossible), ?_⟩
        intro other same
        cases same
        exact repeated
    refine ((ask_adds stage).bind follows).mono ?_
    rintro calls last ⟨first, second, result, rfl, rfl, done, again⟩
    cases result with
    | none =>
      obtain ⟨rfl, rfl⟩ := done rfl
      exact .succeeded [] (Nat.succ_pos attempts)
    | some failure =>
      cases again failure rfl with
      | succeeded failures fewer => exact .succeeded (failure :: failures) (Nat.succ_lt_succ fewer)
      | exhausted failures all =>
        have last : (failure :: failures).getLast?.or err =
            failures.getLast?.or (some failure) := by
          cases failures with
          | nil => rfl
          | cons next failures => rfl
        rw [← last]
        exact .exhausted (failure :: failures) (congrArg Nat.succ all)

theorem attemptExecuteStageWith_adds (attempts : Int) :
    Adds oracle (attemptExecuteStageWith (ask oracle) stage attempts)
      (Attempted stage attempts) := by
  unfold attemptExecuteStageWith
  split
  · rename_i outside
    refine (Adds.pure _).mono ?_
    rintro calls result ⟨rfl, rfl⟩
    exact .outOfRange outside
  · rename_i notOutside
    have inside : 1 ≤ attempts ∧ attempts ≤ 10 := by omega
    refine (attemptWith_adds stage none attempts.toNat).mono ?_
    intro calls result repeated
    cases repeated with
    | succeeded failures fewer => exact .succeeded failures inside (by omega)
    | exhausted failures all =>
      rcases eq_nil_or_concat failures with rfl | ⟨earlier, last, rfl⟩
      · rw [length_nil] at all
        omega
      · rw [concat_eq_append] at all ⊢
        rw [List.getLast?_concat]
        refine .exhausted earlier last inside ?_
        rw [length_append, length_singleton] at all
        omega

theorem onSuccessWith_adds {err : Option Error} {next : StateM Calls (Option Error)}
    {part : Calls → Option Error → Prop} (adds : Adds oracle next part) :
    Adds oracle (onSuccessWith err next) (IfSucceeded err part) := by
  unfold onSuccessWith
  split
  · rename_i succeeded
    refine adds.mono ?_
    exact fun calls result holds => ⟨fun _ => holds, fun failed => (failed succeeded).elim⟩
  · rename_i failed
    refine (Adds.pure err).mono ?_
    exact fun calls result nothing => ⟨fun succeeded => (failed succeeded).elim, fun _ => nothing⟩

theorem userScriptWith_adds : Adds oracle (userScriptWith (ask oracle)) Scripted := by
  refine ((ask_adds .userScript).bind fun err =>
    (ask_adds .afterScript).bind fun _ => Adds.pure err).mono ?_
  rintro calls result ⟨_, _, err, rfl, rfl, _, _, after, rfl, rfl, rfl, rfl⟩
  exact ⟨after, rfl⟩

theorem executeScriptWith_adds (attempts : Attempts) :
    Adds oracle (executeScriptWith (ask oracle) attempts) (Protocol attempts) := by
  have returns : ∀ archived uploaded : Option Error, Adds oracle
      (if archived = none then Pure.pure uploaded else Pure.pure archived)
      fun calls result => calls = [] ∧ result = if archived = none then uploaded else archived := by
    intro archived uploaded
    split
    · exact Adds.pure uploaded
    · exact Adds.pure archived
  refine ((ask_adds .prepare).bind fun prepared =>
    (onSuccessWith_adds (attemptExecuteStageWith_adds _ _)).bind fun fetched =>
    (onSuccessWith_adds (attemptExecuteStageWith_adds _ _)).bind fun restored =>
    (onSuccessWith_adds (attemptExecuteStageWith_adds _ _)).bind fun downloaded =>
    (onSuccessWith_adds userScriptWith_adds).bind fun scripted =>
    (onSuccessWith_adds (ask_adds .archiveCache)).bind fun archived =>
    (ask_adds (uploadStage archived)).bind fun uploaded => returns archived uploaded).mono ?_
  rintro calls result ⟨_, _, prepared, rfl, rfl, sources, _, fetched, rfl, getSources, cache, _,
    restored, rfl, restoreCache, artifacts, _, downloaded, rfl, downloadArtifacts, script, _,
    scripted, rfl, userScript, archive, _, archived, rfl, archiveCache, _, _, uploaded, rfl, rfl,
    rfl, same⟩
  exact ⟨prepared, fetched, restored, downloaded, scripted, archived, uploaded, sources, cache,
    artifacts, script, archive, rfl, getSources, restoreCache, downloadArtifacts, userScript,
    archiveCache, same⟩

def Calls.stages (calls : Calls) : List Stage :=
  calls.map Prod.fst

def withAfterScript (oracle : Oracle) (after : Nat → Option Error) : Oracle :=
  fun index stage => if stage = .afterScript then after index else oracle index stage

/-- Two programs execute the same stages and return the same value. -/
def SameStages (first second : StateM Calls α) : Prop :=
  ∀ before other : Calls, before.stages = other.stages →
    (first before).1 = (second other).1 ∧
      Calls.stages (first before).2 = Calls.stages (second other).2

theorem SameStages.pure (value : α) : SameStages (Pure.pure value) (Pure.pure value) :=
  fun _ _ same => ⟨rfl, same⟩

theorem SameStages.bind {first second : StateM Calls α} {rest later : α → StateM Calls β}
    (same : SameStages first second) (follows : ∀ value, SameStages (rest value) (later value)) :
    SameStages (first >>= rest) (second >>= later) := by
  intro before other begin
  obtain ⟨values, stages⟩ := same before other begin
  change (rest (first before).1 (first before).2).1 = (later (second other).1 (second other).2).1 ∧
    Calls.stages (rest (first before).1 (first before).2).2 =
      Calls.stages (later (second other).1 (second other).2).2
  rw [values]
  exact follows (second other).1 _ _ stages

theorem ask_stages (calls : Calls) :
    Calls.stages (ask oracle stage calls).2 = calls.stages ++ [stage] := by
  change (calls ++ [(stage, _)]).map Prod.fst = calls.map Prod.fst ++ [stage]
  rw [map_append]
  rfl

section AfterScript

variable (oracle) (after : Nat → Option Error)

theorem ask_same {stage : Stage} (other : stage ≠ .afterScript) :
    SameStages (ask (withAfterScript oracle after) stage) (ask oracle stage) := by
  intro before second same
  have lengths : before.length = second.length := by
    have mapped := congrArg List.length same
    simpa [Calls.stages] using mapped
  refine ⟨?_, ?_⟩
  · change withAfterScript oracle after before.length stage = oracle second.length stage
    rw [lengths]
    exact if_neg other
  · rw [ask_stages, ask_stages, same]

theorem attemptWith_same {stage : Stage} (other : stage ≠ .afterScript) (err : Option Error)
    (attempts : Nat) :
    SameStages (attemptWith (ask (withAfterScript oracle after)) stage err attempts)
      (attemptWith (ask oracle) stage err attempts) := by
  induction attempts generalizing err with
  | zero => exact SameStages.pure err
  | succ attempts ih =>
    refine (ask_same oracle after other).bind ?_
    intro result
    cases result with
    | none => exact SameStages.pure none
    | some err => exact ih (some err)

theorem attemptExecuteStageWith_same {stage : Stage} (other : stage ≠ .afterScript)
    (attempts : Int) :
    SameStages (attemptExecuteStageWith (ask (withAfterScript oracle after)) stage attempts)
      (attemptExecuteStageWith (ask oracle) stage attempts) := by
  unfold attemptExecuteStageWith
  split
  · exact SameStages.pure _
  · exact attemptWith_same oracle after other none attempts.toNat

theorem onSuccessWith_same {err : Option Error} {first second : StateM Calls (Option Error)}
    (same : SameStages first second) :
    SameStages (onSuccessWith err first) (onSuccessWith err second) := by
  unfold onSuccessWith
  split
  · exact same
  · exact SameStages.pure err

theorem userScriptWith_same :
    SameStages (userScriptWith (ask (withAfterScript oracle after)))
      (userScriptWith (ask oracle)) := by
  refine (ask_same oracle after (by decide)).bind ?_
  intro err before other same
  refine ⟨rfl, ?_⟩
  change Calls.stages (ask (withAfterScript oracle after) .afterScript before).2 =
    Calls.stages (ask oracle .afterScript other).2
  rw [ask_stages, ask_stages, same]

theorem uploadStage_ne (state : Option Error) : uploadStage state ≠ .afterScript := by
  cases state with
  | none => decide
  | some err => exact fun same => (by cases same)

theorem executeScriptWith_same (attempts : Attempts) :
    SameStages (executeScriptWith (ask (withAfterScript oracle after)) attempts)
      (executeScriptWith (ask oracle) attempts) := by
  refine (ask_same oracle after (by decide)).bind fun prepared =>
    (onSuccessWith_same (attemptExecuteStageWith_same oracle after (by decide) _)).bind
      fun fetched =>
    (onSuccessWith_same (attemptExecuteStageWith_same oracle after (by decide) _)).bind
      fun restored =>
    (onSuccessWith_same (attemptExecuteStageWith_same oracle after (by decide) _)).bind
      fun downloaded =>
    (onSuccessWith_same (userScriptWith_same oracle after)).bind fun scripted =>
    (onSuccessWith_same (ask_same oracle after (by decide))).bind fun archived =>
    (ask_same oracle after (uploadStage_ne archived)).bind fun uploaded => ?_
  split
  · exact SameStages.pure uploaded
  · exact SameStages.pure archived

end AfterScript

/-- For every oracle and every three attempts settings: the calls follow the protocol, the
results are those of the oracle, and another result of the after script changes neither the
stages nor the returned error. -/
theorem stage_protocol (attempts : Attempts) (oracle : Oracle) :
    Protocol attempts (scriptRun attempts oracle).2 (scriptRun attempts oracle).1 ∧
      (∀ index stage result, (scriptRun attempts oracle).2[index]? = some (stage, result) →
        result = oracle index stage) ∧
      ∀ after, (scriptRun attempts (withAfterScript oracle after)).1 =
          (scriptRun attempts oracle).1 ∧
        Calls.stages (scriptRun attempts (withAfterScript oracle after)).2 =
          Calls.stages (scriptRun attempts oracle).2 := by
  obtain ⟨added, value, runs, holds, answered⟩ :=
    @executeScriptWith_adds oracle attempts []
  have result : scriptRun attempts oracle = (value, added) := runs
  refine ⟨?_, ?_, ?_⟩
  · rw [result]
    exact holds
  · rw [result]
    intro index stage answer found
    simpa using answered index stage answer found
  · intro after
    exact executeScriptWith_same oracle after attempts [] [] rfl

/-- The sources are fetched in the second of two attempts, the script fails, and the upload for
a failure fails as well. -/
example : scriptRun ⟨2, 1, 1⟩ (fun index stage =>
    if index = 1 ∨ stage = .userScript then some (.other (.returned "exit 1"))
    else if stage = .uploadOnFailureArtifacts then some (.other (.returned "no space")) else none) =
  (some (.other (.returned "exit 1")),
    [(.prepare, none), (.getSources, some (.other (.returned "exit 1"))), (.getSources, none),
      (.restoreCache, none), (.downloadArtifacts, none),
      (.userScript, some (.other (.returned "exit 1"))), (.afterScript, none),
      (.uploadOnFailureArtifacts, some (.other (.returned "no space")))]) := by
  decide

end GitlabRunner.BuildRun
