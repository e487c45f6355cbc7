import GitlabRunner.ByteText

/-!
# Reloading the configuration

`RunCommand.loadConfig` of `commands/multi.go` reads the configuration file again while the
runner is running.  It replaces the configuration first and applies the logging settings of
the new one afterwards.
-/

namespace GitlabRunner.Reload

open ByteText

inductive Level where
  | panicLevel
  | fatal
  | error
  | warn
  | info
  | debug
  | trace
  deriving DecidableEq, Repr

inductive Format where
  | runner
  | text
  | json
  deriving DecidableEq, Repr

inductive Error where
  | stat (message : List UInt8)
  | decode (message : List UInt8)
  | invalidOffPeakPeriods (message : List UInt8)
  | invalidLevel (level : List UInt8)
  | unknownFormat (current : Format)
  deriving DecidableEq, Repr

structure RunnerConfig (Settings Machine : Type) where
  settings : Settings
  machine : Option Machine
  deriving DecidableEq, Repr

structure SessionServer where
  listenAddress : List UInt8
  advertiseAddress : List UInt8
  sessionTimeout : Int
  deriving DecidableEq, Repr

structure Config (Settings Machine : Type) where
  listenAddress : List UInt8
  sessionServer : SessionServer
  concurrent : Int
  checkInterval : Int
  logLevel : Option (List UInt8)
  logFormat : Option (List UInt8)
  user : List UInt8
  runners : List (RunnerConfig Settings Machine)
  sentryDSN : Option (List UInt8)
  modTime : Nat
  loaded : Bool
  deriving DecidableEq, Repr

inductive File where
  | missing (message : List UInt8)
  | failing (message : List UInt8)
  | present (modTime : Nat) (content : List UInt8)
  deriving DecidableEq, Repr

structure Packages (Settings Machine Hook : Type) where
  decodeFile : List UInt8 → Config Settings Machine →
    Except (List UInt8) (Config Settings Machine)
  timePeriods : Machine → Except (List UInt8) Machine
  toLower : List UInt8 → List UInt8
  newLogHook : List UInt8 → Hook
  emptyHook : Hook

structure Logging where
  level : Level
  format : Format
  levelSetWithCli : Bool
  formatSetWithCli : Bool
  loggerLevel : Level
  loggerFormat : Format
  goroutinesDump : Bool
  deriving DecidableEq, Repr

/-- `RunCommand`, with the fields that a load reads and writes. -/
structure RunCommand (Settings Machine Hook Health : Type) where
  config : Config Settings Machine
  user : List UInt8
  healthy : Option Health
  logging : Logging
  sentryLogHook : Hook
  deriving DecidableEq, Repr

variable {Settings Machine Hook Health : Type}

def newConfig : Config Settings Machine where
  listenAddress := []
  sessionServer := ⟨[], [], 1800⟩
  concurrent := 1
  checkInterval := 0
  logLevel := none
  logFormat := none
  user := []
  runners := []
  sentryDSN := none
  modTime := 0
  loaded := false

section Source

variable (packages : Packages Settings Machine Hook)

def compileOffPeakPeriods (runner : RunnerConfig Settings Machine) :
    Except Error (RunnerConfig Settings Machine) :=
  match runner.machine with
  | none => .ok runner
  | some machine =>
    match packages.timePeriods machine with
    | .error message => .error (.invalidOffPeakPeriods message)
    | .ok compiled => .ok { runner with machine := some compiled }

def Config.loadConfig (config : Config Settings Machine) :
    File → Except Error (Config Settings Machine)
  | .missing _ => .ok config
  | .failing message => .error (.stat message)
  | .present modTime content =>
    match packages.decodeFile content config with
    | .error message => .error (.decode message)
    | .ok decoded =>
      match decoded.runners.mapM (compileOffPeakPeriods packages) with
      | .error error => .error error
      | .ok runners =>
        .ok { decoded with runners := runners, modTime := modTime, loaded := true }

def parseLevel (text : List UInt8) : Option Level :=
  [("panic", Level.panicLevel), ("fatal", .fatal), ("error", .error), ("warn", .warn),
    ("warning", .warn), ("info", .info), ("debug", .debug), ("trace", .trace)].findSome?
      fun (name, level) => if packages.toLower text = ascii name then some level else none

def formatNamed (text : List UInt8) : Option Format :=
  [("runner", Format.runner), ("text", .text), ("json", .json)].findSome?
    fun (name, format) => if text = ascii name then some format else none

def Logging.setLevel (logging : Logging) (text : List UInt8) : Except Error Logging :=
  match parseLevel packages text with
  | none => .error (.invalidLevel text)
  | some level => .ok { logging with level := level }

def Logging.setFormat (logging : Logging) (text : List UInt8) : Except Error Logging :=
  match formatNamed text with
  | none => .error (.unknownFormat logging.format)
  | some format => .ok { logging with format := format }

def Logging.reloadConfiguration (logging : Logging) : Logging :=
  { logging with
    loggerLevel := logging.level
    loggerFormat := logging.format
    goroutinesDump := logging.level = .debug }

def Logging.updateLevel (logging : Logging) (config : Config Settings Machine) :
    Except Error (Logging × Bool) :=
  match config.logLevel, logging.levelSetWithCli with
  | some text, false => (logging.setLevel packages text).map (·, true)
  | _, _ => .ok (logging, false)

def Logging.updateFormat (logging : Logging) (config : Config Settings Machine) :
    Except Error (Logging × Bool) :=
  match config.logFormat, logging.formatSetWithCli with
  | some text, false => (logging.setFormat text).map (·, true)
  | _, _ => .ok (logging, false)

def updateLoggingConfiguration (config : Config Settings Machine) (logging : Logging) :
    Logging × Option Error :=
  match logging.updateLevel packages config with
  | .error error => (logging, some error)
  | .ok (leveled, levelReload) =>
    match leveled.updateFormat config with
    | .error error => (leveled, some error)
    | .ok (formatted, formatReload) =>
      (if levelReload || formatReload then formatted.reloadConfiguration else formatted, none)

def RunCommand.loadConfig (mr : RunCommand Settings Machine Hook Health) (file : File) :
    RunCommand Settings Machine Hook Health × Option Error :=
  match newConfig.loadConfig packages file with
  | .error error => (mr, some error)
  | .ok config =>
    match updateLoggingConfiguration packages config mr.logging with
    | (logging, some error) => ({ mr with config := config, logging := logging }, some error)
    | (logging, none) =>
      ({ mr with
          config := if mr.user ≠ [] then { config with user := mr.user } else config
          logging := logging
          healthy := none
          sentryLogHook :=
            match config.sentryDSN with
            | some dsn => packages.newLogHook dsn
            | none => packages.emptyHook }, none)

def RunCommand.touch (mr : RunCommand Settings Machine Hook Health) (modTime : Nat) :
    RunCommand Settings Machine Hook Health :=
  { mr with config := { mr.config with modTime := modTime } }

/-- `checkConfig`.  `checked` is what `Stat` finds, and `file` what the load finds. -/
def RunCommand.checkConfig (mr : RunCommand Settings Machine Hook Health) (checked file : File) :
    RunCommand Settings Machine Hook Health × Option Error :=
  match checked with
  | .missing message => (mr, some (.stat message))
  | .failing message => (mr, some (.stat message))
  | .present modTime _ =>
    if mr.config.modTime < modTime then
      match mr.loadConfig packages file with
      | (loaded, some error) => (loaded.touch modTime, some error)
      | (loaded, none) => (loaded, none)
    else (mr, none)

end Source

/-- Nothing changes but `ModTime`: the rest of the configuration, the health data, and the level
and format of the log. -/
structure Unchanged (before after : RunCommand Settings Machine Hook Health) : Prop where
  config : { after.config with modTime := before.config.modTime } = before.config
  healthy : after.healthy = before.healthy
  level : after.logging.level = before.logging.level
  format : after.logging.format = before.logging.format

/-- The level that the log gets from a configuration, if it accepts it. -/
def Logging.nextLevel (packages : Packages Settings Machine Hook) (logging : Logging)
    (config : Config Settings Machine) : Level :=
  match config.logLevel, logging.levelSetWithCli with
  | some text, false => (parseLevel packages text).getD logging.level
  | _, _ => logging.level

/-- A file that a failing load cannot do harm with: it cannot be loaded, or it holds the
configuration that is already used, with the user of the command line, and the level of the
log. -/
def Harmless (packages : Packages Settings Machine Hook)
    (mr : RunCommand Settings Machine Hook Health) (file : File) : Prop :=
  ∀ config, newConfig.loadConfig packages file = .ok config →
    { config with modTime := mr.config.modTime } = mr.config ∧
      mr.logging.nextLevel packages config = mr.logging.level

variable {packages : Packages Settings Machine Hook}

/-- What the update of the level leaves, whether it succeeds or not. -/
theorem updateLevel_cases (logging : Logging) (config : Config Settings Machine) :
    (∃ error, logging.updateLevel packages config = .error error ∧
        logging.nextLevel packages config = logging.level) ∨
      ∃ leveled reload, logging.updateLevel packages config = .ok (leveled, reload) ∧
        leveled.level = logging.nextLevel packages config ∧ leveled.format = logging.format := by
  unfold Logging.updateLevel Logging.nextLevel
  split
  · rename_i text _ _
    unfold Logging.setLevel
    cases parseLevel packages text with
    | none => exact .inl ⟨_, rfl, rfl⟩
    | some level => exact .inr ⟨_, _, rfl, rfl, rfl⟩
  · exact .inr ⟨logging, false, rfl, rfl, rfl⟩

theorem updateLoggingConfiguration_error {config : Config Settings Machine}
    {logging after : Logging} {error : Error}
    (failed : updateLoggingConfiguration packages config logging = (after, some error)) :
    after.level = logging.nextLevel packages config ∧ after.format = logging.format := by
  unfold updateLoggingConfiguration at failed
  rcases updateLevel_cases logging config with
    ⟨levelError, refused, same⟩ | ⟨leveled, reload, accepted, level, format⟩
  · rw [refused] at failed
    cases failed
    exact ⟨same.symm, rfl⟩
  · rw [accepted] at failed
    dsimp only at failed
    split at failed
    · cases failed
      exact ⟨level, format⟩
    · cases failed

theorem unchanged_touch {before after : RunCommand Settings Machine Hook Health}
    (modTime : Nat) : Unchanged before (after.touch modTime) ↔ Unchanged before after := by
  constructor
  · intro unchanged
    exact ⟨unchanged.config, unchanged.healthy, unchanged.level, unchanged.format⟩
  · intro unchanged
    exact ⟨unchanged.config, unchanged.healthy, unchanged.level, unchanged.format⟩

theorem unchanged_of_loadConfig {mr after : RunCommand Settings Machine Hook Health} {file : File}
    {error : Error} (failed : mr.loadConfig packages file = (after, some error)) :
    Unchanged mr after ↔ Harmless packages mr file := by
  unfold RunCommand.loadConfig at failed
  split at failed
  · rename_i loadError refused
    cases failed
    constructor
    · intro _ config loaded
      rw [refused] at loaded
      cases loaded
    · intro _
      exact ⟨rfl, rfl, rfl, rfl⟩
  · rename_i config loaded
    split at failed
    · rename_i logging logError update
      obtain ⟨level, format⟩ := updateLoggingConfiguration_error update
      cases failed
      constructor
      · intro unchanged other otherLoaded
        rw [loaded] at otherLoaded
        obtain rfl := Except.ok.inj otherLoaded
        exact ⟨unchanged.config, level.symm.trans unchanged.level⟩
      · intro harmless
        obtain ⟨sameConfig, sameLevel⟩ := harmless config loaded
        exact ⟨sameConfig, rfl, level.trans sameLevel, format⟩
    · cases failed

/-- A load that fails changes nothing exactly if the file is harmless, on a reload signal and in
`checkConfig`. -/
theorem loadConfig_unchanged_iff (packages : Packages Settings Machine Hook)
    (mr after : RunCommand Settings Machine Hook Health) (file : File) (error : Error)
    (failed : mr.loadConfig packages file = (after, some error)) :
    (Unchanged mr after ↔ Harmless packages mr file) ∧
      ∀ modTime content, mr.config.modTime < modTime →
        (mr.checkConfig packages (.present modTime content) file).2 = some error ∧
        (Unchanged mr (mr.checkConfig packages (.present modTime content) file).1 ↔
          Harmless packages mr file) := by
  refine ⟨unchanged_of_loadConfig failed, ?_⟩
  intro modTime content newer
  have checked : mr.checkConfig packages (.present modTime content) file =
      (after.touch modTime, some error) := by
    rw [RunCommand.checkConfig, if_pos newer, failed]
  rw [checked]
  exact ⟨rfl, (unchanged_touch modTime).trans (unchanged_of_loadConfig failed)⟩

def decoding (config : Config Unit Unit) : Packages Unit Unit Unit where
  decodeFile _ _ := .ok config
  timePeriods machine := .ok machine
  toLower text := text
  newLogHook _ := ()
  emptyHook := ()

def undecoding : Packages Unit Unit Unit where
  decodeFile _ _ := .error (ascii "expected key separator")
  timePeriods machine := .ok machine
  toLower text := text
  newLogHook _ := ()
  emptyHook := ()

def runningCommand (user : String) : RunCommand Unit Unit Unit Nat where
  config := { newConfig with user := ascii user, loaded := true }
  user := ascii user
  healthy := some 0
  logging := ⟨.info, .runner, false, false, .info, .runner, false⟩
  sentryLogHook := ()

/-- A file that is no TOML is refused before anything is replaced. -/
theorem loadConfig_unchanged_undecoded :
    ∃ after error, (runningCommand "gitlab-runner").loadConfig undecoding (.present 1 []) =
        (after, some error) ∧
      Unchanged (runningCommand "gitlab-runner") after := by
  refine ⟨_, _, rfl, ?_⟩
  apply (loadConfig_unchanged_iff undecoding (runningCommand "gitlab-runner") _ (.present 1 []) _
    rfl).1.mpr
  nofun

/-- A configuration for five jobs at once with a level of the log that does not exist: the load
fails, and the runner goes on with five jobs and without its user. -/
theorem failed_load_replaces :
    ∃ after error, (runningCommand "gitlab-runner").loadConfig
        (decoding { newConfig with concurrent := 5, logLevel := some (ascii "verbose") })
        (.present 1 []) = (after, some error) ∧
      after.config.concurrent = 5 ∧ after.config.user = [] ∧
      ¬ Unchanged (runningCommand "gitlab-runner") after := by
  refine ⟨_, _, rfl, rfl, rfl, ?_⟩
  intro unchanged
  have concurrent := congrArg Config.concurrent unchanged.config
  exact absurd concurrent (by decide)

end GitlabRunner.Reload
