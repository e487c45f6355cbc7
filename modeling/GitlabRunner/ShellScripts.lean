import GitlabRunner.AbstractShell

/-!
# Generating scripts

`GenerateScript` of the shells bash, cmd and PowerShell.
-/

namespace GitlabRunner.Shells

open ByteText Directory Payload GoStrings Panicking

variable {build : Job}

section Keeping

variable {w : ShellWriter} (lawful : w.Lawful) {host : Surroundings}

include lawful

variable (info : ShellScriptInfo)

theorem nests_writeExports : w.Nests (writeExports · host info) :=
  fun _ => .each fun entry _ => (lawful.writeVariable entry).kept

theorem nests_writeStart : w.Nests (writeStart · host info) :=
  fun _ => (nests_writeExports lawful info _).bind fun _ => (lawful.cd _).kept

theorem nests_writeGitSSLConfig (build : Job) (scope : List (List UInt8)) :
    w.Nests (writeGitSSLConfig · host build scope) := by
  intro blocks
  unfold writeGitSSLConfig
  split
  · exact (lawful.warning _).kept
  · exact .each fun _ _ => .when fun _ => (lawful.command _ _).kept

theorem nests_writeGitCleanup : w.Nests writeGitCleanup :=
  fun _ => (lawful.rmFile _).kept.bind fun _ => (lawful.rmFile _).kept.bind fun _ =>
    (lawful.rmFile _).kept.bind fun _ => (lawful.rmFile _).kept

theorem nests_writeRefspecFetchCmd (remote : (build.getRemoteURL host.app).isSome)
    (projectDir : List UInt8) : w.Nests (writeRefspecFetchCmd · host build projectDir) := by
  intro blocks
  refine (lawful.mkTmpDir _).kept.bind fun _ => (lawful.command _ _).kept.bind fun _ => ?_
  refine .bind (.when fun _ => nests_writeGitSSLConfig lawful build _ _) fun _ => ?_
  refine (lawful.command _ _).kept.bind fun _ => (lawful.cd _).kept.bind fun _ => ?_
  refine (nests_writeGitCleanup lawful _).bind fun _ => (lawful.notice _).kept.bind fun _ => ?_
  refine .bind (.lift remote) fun _ => (lawful.ifCmd _ _ _).opened.bind fun _ => ?_
  refine (lawful.notice _).kept.bind fun _ => (lawful.elseCmd _).turned.bind fun _ => ?_
  refine .bind (.lift remote) fun _ => (lawful.command _ _).kept.bind fun _ => ?_
  exact (lawful.endIf _).closed.bind fun _ => (lawful.command _ _).kept

theorem nests_writeCheckoutCmd (long : 8 ≤ build.gitInfo.sha.length) :
    w.Nests (writeCheckoutCmd · host build) := by
  intro blocks
  refine .bind (.lift ((slice_isSome_iff _ 8).mpr long)) fun _ => ?_
  refine (lawful.notice _).kept.bind fun _ => (lawful.command _ _).kept.bind fun _ => ?_
  exact .when fun _ => (lawful.command _ _).kept

theorem nests_writeSubmoduleUpdateCmd (build : Job) (recursive : Bool) :
    w.Nests (writeSubmoduleUpdateCmd · host build recursive) := by
  intro blocks
  refine (lawful.notice _).kept.bind fun _ => (lawful.command _ _).kept.bind fun _ => ?_
  refine (lawful.command _ _).kept.bind fun _ => (lawful.command _ _).kept.bind fun _ => ?_
  refine (lawful.command _ _).kept.bind fun _ => .when fun _ => ?_
  exact (lawful.ifCmd _ _ _).opened.bind fun _ => (lawful.command _ _).kept.bind fun _ =>
    (lawful.endIf _).closed

theorem nests_guardRunnerCommand (runnerCommand action : List UInt8)
    {guarded guarded' : Script Unit}
    (nests : ∀ blocks, Together (Observes blocks) (Observes blocks) guarded guarded')
    (blocks : List Bool) : Together (Observes blocks) (Observes blocks)
      (guardRunnerCommand w runnerCommand action guarded)
      (guardRunnerCommand w.observed runnerCommand action guarded') := by
  refine .ite (fun _ => (lawful.warning _).kept) fun _ => ?_
  refine (lawful.ifCmd _ _ _).opened.bind fun _ => (nests _).bind fun _ => ?_
  exact (lawful.elseCmd _).turned.bind fun _ => (lawful.warning _).kept.bind fun _ =>
    (lawful.endIf _).closed

theorem nests_runCacheCommand (action before done failed : List UInt8) (args : List (List UInt8)) :
    w.Nests (runCacheCommand · info action before done failed args) := by
  refine nests_guardRunnerCommand lawful _ _ fun _ => ?_
  refine (lawful.notice _).kept.bind fun _ => (lawful.ifCmdWithOutput _ _ _).opened.bind fun _ => ?_
  refine (lawful.notice _).kept.bind fun _ => (lawful.elseCmd _).turned.bind fun _ => ?_
  exact (lawful.warning _).kept.bind fun _ => (lawful.endIf _).closed

theorem nests_cacheExtractor (caches : List CacheOptions) :
    w.Nests (cacheExtractor · host info caches) := by
  intro blocks
  induction caches with
  | nil => exact .pure _
  | cons cacheOptions rest ih =>
    unfold cacheExtractor
    refine .ite (fun _ => ih) fun _ => .ite (fun _ => ?_) fun _ => ?_
    · exact (lawful.notice _).kept.bind fun _ => ih
    · split
      · exact .pure _
      · exact (lawful.notice _).kept.bind fun _ => ih
      · exact (nests_runCacheCommand lawful info _ _ _ _ _ _).bind fun _ => ih

theorem nests_cacheArchiver (caches : List CacheOptions) :
    w.Nests (cacheArchiver · host info caches) := by
  intro blocks
  induction caches with
  | nil => exact .pure _
  | cons cacheOptions rest ih =>
    unfold cacheArchiver
    refine .ite (fun _ => (lawful.notice _).kept.bind fun _ => ih) fun _ => ?_
    split
    · exact .pure _
    · exact (lawful.notice _).kept.bind fun _ => ih
    · refine .ite (fun _ => ih) fun _ => ?_
      exact (nests_runCacheCommand lawful info _ _ _ _ _ _).bind fun _ => ih

theorem nests_downloadAllArtifacts : w.Nests (downloadAllArtifacts · info) := by
  intro blocks
  refine .ite (fun _ => .pure ()) fun _ => ?_
  refine nests_guardRunnerCommand lawful _ _ (fun _ => ?_) _
  exact .each fun _ _ => (lawful.notice _).kept.bind fun _ => (lawful.command _ _).kept

theorem nests_commandNotice (command : List UInt8) : w.Nests (commandNotice · command) := by
  intro blocks
  refine .ite (fun _ => ?_) fun _ => lawful.emptyLine.kept
  exact .bind (.lift (splitTwo_first_isSome _ _)) fun _ => (lawful.notice _).kept

theorem nests_writeCommands (commands : List (List UInt8)) :
    w.Nests (writeCommands · commands) := by
  refine fun _ => .each fun command _ => ?_
  exact (nests_commandNotice lawful _ _).bind fun _ => (lawful.line _).kept.bind fun _ =>
    lawful.checkForErrors.kept

theorem nests_writeSubmoduleUpdateCmds : w.Nests (writeSubmoduleUpdateCmds · host info) := by
  intro blocks
  unfold writeSubmoduleUpdateCmds
  split
  · exact (nests_writeSubmoduleUpdateCmd lawful _ _ _).bind fun _ => .pure _
  · exact (nests_writeSubmoduleUpdateCmd lawful _ _ _).bind fun _ => .pure _
  · exact (lawful.notice _).kept.bind fun _ => .pure _
  · exact .pure _

theorem nests_writeUserScript : w.Nests (writeUserScript · host info) := by
  intro blocks
  unfold writeUserScript
  split
  · exact .pure _
  · refine (nests_writeStart lawful info _).bind fun _ => ?_
    refine .bind (.when fun _ => nests_writeCommands lawful _ _) fun _ => ?_
    refine (nests_writeCommands lawful _ _).bind fun _ => ?_
    exact .bind (.when fun _ => nests_writeCommands lawful _ _) fun _ => .pure _

theorem nests_writeAfterScript : w.Nests (writeAfterScript · host info) := by
  intro blocks
  unfold writeAfterScript
  split
  · exact .pure _
  · refine .ite (fun _ => .pure _) fun _ => (nests_writeStart lawful info _).bind fun _ => ?_
    exact (lawful.notice _).kept.bind fun _ =>
      (nests_writeCommands lawful _ _).bind fun _ => .pure _

theorem nests_writeUploadArtifact (artifact : Artifact) :
    w.Nests (writeUploadArtifact · info artifact) := by
  intro blocks
  refine .ite (fun _ => .pure ()) fun _ => ?_
  refine nests_guardRunnerCommand lawful _ _ (fun _ => ?_) _
  exact (lawful.notice _).kept.bind fun _ => (lawful.command _ _).kept

theorem nests_writeUploadArtifacts (onSuccess : Bool) :
    w.Nests (writeUploadArtifacts · host info onSuccess) := by
  intro blocks
  refine .ite (fun _ => .pure ()) fun _ => (nests_writeStart lawful info _).bind fun _ => ?_
  exact .each fun artifact _ => nests_writeUploadArtifact lawful info artifact _

end Keeping

/-- The sources of a job can be named: it has none, or the clone URL has two parts if it
begins with `http`, and the commit has eight bytes if it is checked out. -/
def NamesSources (host : Surroundings) (build : Job) : Prop :=
  build.option host.app "GIT_STRATEGY" = ascii "none" ∨
    ((¬ascii "http" <+: trimRight build.cloneURL (byte '/') ∨
        ascii "://" <:+: trimRight build.cloneURL (byte '/')) ∧
      (parseBool (build.option host.app "GIT_CHECKOUT") = some false ∨
        8 ≤ build.gitInfo.sha.length))

section Sources

variable {w : ShellWriter} {host : Surroundings}

theorem nests_handleGetSourcesStrategy (lawful : w.Lawful)
    (names : NamesSources host build) : w.Nests (handleGetSourcesStrategy · host build) := by
  intro blocks
  have remote : build.getGitStrategy host.app ≠ .none → (build.getRemoteURL host.app).isSome := by
    intro hasSources
    rw [Ne, getGitStrategy_eq_none_iff] at hasSources
    exact (getRemoteURL_isSome_iff host.app build).mpr (names.resolve_left hasSources).1
  unfold handleGetSourcesStrategy
  split
  · case h_1 strategy =>
      exact nests_writeRefspecFetchCmd lawful (remote (by rw [strategy]; decide)) _ _
  · case h_2 strategy =>
      refine (lawful.rmDir _).kept.bind fun _ => ?_
      exact nests_writeRefspecFetchCmd lawful (remote (by rw [strategy]; decide)) _ _
  · exact (lawful.notice _).kept.bind fun _ => (lawful.mkDir _).kept
variable {info : ShellScriptInfo}

theorem nests_writeCloneFetchCmds (lawful : w.Lawful)
    (names : NamesSources host info.build) : w.Nests (writeCloneFetchCmds · host info) := by
  intro blocks
  refine .bind (.when fun _ => (lawful.writeVariable _).kept) fun _ => ?_
  refine (nests_handleGetSourcesStrategy lawful names _).bind fun _ => ?_
  refine .ite (fun checkout => ?_) fun _ => (lawful.notice _).kept
  have long : 8 ≤ info.build.gitInfo.sha.length := by
    have checked := mt (getGitCheckout_eq_false_iff host.app info.build).mpr
      (by rw [checkout]; decide)
    rw [not_or] at checked
    exact (names.resolve_left checked.1).2.resolve_left checked.2
  refine (nests_writeCheckoutCmd lawful long _).bind fun _ => .when fun _ => ?_
  refine (lawful.ifCmd _ _ _).opened.bind fun _ => (lawful.command _ _).kept.bind fun _ => ?_
  exact lawful.emptyLine.kept.bind fun _ => (lawful.endIf _).closed

theorem nests_writeGetSourcesScript (lawful : w.Lawful)
    (names : NamesSources host info.build) : w.Nests (writeGetSourcesScript · host info) := by
  intro blocks
  refine (nests_writeExports lawful info _).bind fun _ => ?_
  refine .bind (.when fun _ => nests_writeGitSSLConfig lawful _ _ _) fun _ => ?_
  refine .bind (.when fun _ => nests_writeCommands lawful _ _) fun _ => ?_
  exact (nests_writeCloneFetchCmds lawful names _).bind fun _ =>
    nests_writeSubmoduleUpdateCmds lawful info _

theorem panics_writeRefspecFetchCmd
    (missing : build.getRemoteURL host.app = none) (projectDir : List UInt8) :
    Panics (writeRefspecFetchCmd w host build projectDir) := by
  refine .later _ fun _ => .later _ fun _ => .later _ fun _ => .later _ fun _ => ?_
  refine .later _ fun _ => .later _ fun _ => .later _ fun _ => ?_
  exact (Panics.lift missing).bind _

theorem panics_writeCheckoutCmd (short : build.gitInfo.sha.length < 8) :
    Panics (writeCheckoutCmd w host build) := by
  have outside : slice build.gitInfo.sha 0 8 = none := by
    rw [← Option.not_isSome_iff_eq_none, slice_isSome_iff]
    omega
  exact (Panics.lift outside).bind _

theorem panics_handleGetSourcesStrategy (hasSources : build.getGitStrategy host.app ≠ .none)
    (missing : build.getRemoteURL host.app = none) :
    Panics (handleGetSourcesStrategy w host build) := by
  rw [handleGetSourcesStrategy]
  split
  · exact panics_writeRefspecFetchCmd missing _
  · exact .later _ fun _ => panics_writeRefspecFetchCmd missing _
  · case h_3 strategy => exact absurd strategy hasSources

theorem panics_writeCloneFetchCmds
    (unnamed : ¬NamesSources host info.build) : Panics (writeCloneFetchCmds w host info) := by
  rw [NamesSources, not_or, not_and_or, ← getRemoteURL_isSome_iff, not_or] at unnamed
  obtain ⟨hasSources, missing | ⟨checked, short⟩⟩ := unnamed
  · rw [Option.not_isSome_iff_eq_none] at missing
    rw [← getGitStrategy_eq_none_iff] at hasSources
    exact .later _ fun _ => (panics_handleGetSourcesStrategy hasSources missing).bind _
  · have checkout : info.build.getGitCheckout host.app = true := by
      rw [← Bool.not_eq_false, getGitCheckout_eq_false_iff]
      exact not_or.mpr ⟨hasSources, checked⟩
    refine .later _ fun _ => .later _ fun _ => ?_
    rw [if_pos checkout]
    exact (panics_writeCheckoutCmd (by omega)).bind _

theorem panics_writeGetSourcesScript
    (unnamed : ¬NamesSources host info.build) : Panics (writeGetSourcesScript w host info) :=
  .later _ fun _ => .later _ fun _ => .later _ fun _ =>
    (panics_writeCloneFetchCmds unnamed).bind _

end Sources

section Generating

variable (host : Surroundings)

def writeStage (w : ShellWriter) (greeting : List UInt8) (stage : BuildStage)
    (info : ShellScriptInfo) : Script (Option (List UInt8)) := do
  Program.when (stage = .prepare) (w.line greeting)
  writeScript w host stage info

def generate (w : ShellWriter) (greeting : List UInt8) (finish : List UInt8 → List UInt8)
    (stage : BuildStage) (info : ShellScriptInfo) :
    Option (List UInt8 × Option (List UInt8)) := do
  let (err, writer) ← writeStage host w greeting stage info ⟨[], info.build.tmpProjectDir, 0⟩
  return (finish writer.buffer, err)

def BashShell.generateScript (stage : BuildStage) (info : ShellScriptInfo) :
    Option (List UInt8 × Option (List UInt8)) :=
  let hostname := info.build.hostname
  generate host (bashWriter host.isPrint (quotingOf host.isPrint host.printable))
    (ascii "echo " ++ Strconv.quote host.isPrint
      (if hostname.length ≠ 0 then ascii "Running on $(hostname) via " ++ hostname ++ ascii "..."
        else ascii "Running on $(hostname)..."))
    (fun buffer => BashWriter.finish ⟨buffer, info.build.tmpProjectDir, 0⟩
      (info.build.isDebugTraceEnabled host.app))
    stage info

def CmdShell.generateScript (stage : BuildStage) (info : ShellScriptInfo) :
    Option (List UInt8 × Option (List UInt8)) :=
  let hostname := info.build.hostname
  generate host (cmdWriter host.isPrint
      (info.build.isFeatureFlagOn host.app "FF_CMD_DISABLE_DELAYED_ERROR_LEVEL_EXPANSION"))
    (if hostname.length ≠ 0 then
      ascii "echo Running on %COMPUTERNAME% via " ++ batchEscape hostname ++ ascii "..."
      else ascii "echo Running on %COMPUTERNAME%...")
    (CmdWriter.finish (info.build.isDebugTraceEnabled host.app)) stage info

/-- `GenerateScript` of `PowerShell`, which leaves an empty script empty. -/
def PowerShell.generateScript (stage : BuildStage) (info : ShellScriptInfo) :
    Option (List UInt8 × Option (List UInt8)) :=
  let hostname := info.build.hostname
  generate host psWriter
    (if hostname.length ≠ 0 then
      ascii "echo \"Running on $env:computername via " ++ psQuoteVariable hostname ++ ascii "...\""
      else ascii "echo \"Running on $env:computername...\"")
    (fun buffer => if 0 < buffer.length then
      PsWriter.finish (info.build.isDebugTraceEnabled host.app) buffer else [])
    stage info

inductive Shell where
  | bash
  | cmd
  | powerShell
  deriving DecidableEq, Repr

def Shell.writer (info : ShellScriptInfo) : Shell → ShellWriter
  | .bash => bashWriter host.isPrint (quotingOf host.isPrint host.printable)
  | .cmd => cmdWriter host.isPrint
      (info.build.isFeatureFlagOn host.app "FF_CMD_DISABLE_DELAYED_ERROR_LEVEL_EXPANSION")
  | .powerShell => psWriter

def Shell.generateScript (stage : BuildStage) (info : ShellScriptInfo) :
    Shell → Option (List UInt8 × Option (List UInt8))
  | .bash => BashShell.generateScript host stage info
  | .cmd => CmdShell.generateScript host stage info
  | .powerShell => PowerShell.generateScript host stage info

variable {host}
variable {info : ShellScriptInfo}

theorem nests_writeScript {w : ShellWriter} (lawful : w.Lawful) {stage : BuildStage}
    (names : stage = .getSources → NamesSources host info.build) :
    w.Nests (writeScript · host stage info) := by
  intro blocks
  cases stage with
  | prepareExecutor | prepare => exact .pure _
  | getSources => exact nests_writeGetSourcesScript lawful (names rfl) _
  | restoreCache =>
    exact (nests_writeStart lawful info _).bind fun _ =>
      nests_cacheExtractor lawful info _ _
  | downloadArtifacts =>
    exact (nests_writeStart lawful info _).bind fun _ =>
      (nests_downloadAllArtifacts lawful info _).bind fun _ => .pure _
  | userScript => exact nests_writeUserScript lawful info _
  | afterScript => exact nests_writeAfterScript lawful info _
  | archiveCache =>
    exact (nests_writeStart lawful info _).bind fun _ =>
      nests_cacheArchiver lawful info _ _
  | uploadOnSuccessArtifacts =>
    exact (nests_writeUploadArtifacts lawful info true _).bind fun _ => .pure _
  | uploadOnFailureArtifacts =>
    exact (nests_writeUploadArtifacts lawful info false _).bind fun _ => .pure _

theorem generate_isSome {w : ShellWriter} (lawful : w.Lawful) (greeting : List UInt8)
    (finish : List UInt8 → List UInt8) {stage : BuildStage}
    (names : stage = .getSources → NamesSources host info.build) :
    (generate host w greeting finish stage info).isSome := by
  have together : Together (Observes []) (Observes []) (writeStage host w greeting stage info)
      (writeStage host w.observed greeting stage info) :=
    .bind (.when fun _ => (lawful.line _).kept) fun _ => nests_writeScript lawful names _
  obtain ⟨err, writer, -, result, -⟩ := together ⟨[], info.build.tmpProjectDir, 0⟩ ⟨[], _, 0⟩
    ⟨⟨rfl, rfl, rfl⟩, rfl⟩
  rw [generate, result]
  rfl

theorem generate_eq_none (w : ShellWriter) (greeting : List UInt8)
    (finish : List UInt8 → List UInt8) (unnamed : ¬NamesSources host info.build) :
    generate host w greeting finish .getSources info = none := by
  have panics : Panics (writeStage host w greeting .getSources info) :=
    .later _ fun _ => panics_writeGetSourcesScript unnamed
  rw [generate, panics]
  rfl

theorem Shell.lawful_writer (shell : Shell) : (shell.writer host info).Lawful := by
  cases shell with
  | bash => exact lawful_bashWriter _ _
  | cmd => exact lawful_cmdWriter _ _
  | powerShell => exact lawful_psWriter

theorem Shell.generateScript_eq (host : Surroundings) (shell : Shell) (stage : BuildStage)
    (info : ShellScriptInfo) : ∃ greeting finish, shell.generateScript host stage info =
      generate host (shell.writer host info) greeting finish stage info := by
  cases shell with
  | bash =>
    rw [generateScript, BashShell.generateScript]
    exact ⟨_, _, rfl⟩
  | cmd => exact ⟨_, _, rfl⟩
  | powerShell =>
    rw [generateScript, PowerShell.generateScript]
    exact ⟨_, _, rfl⟩

theorem generateScript_eq_none (shell : Shell) (unnamed : ¬NamesSources host info.build) :
    shell.generateScript host .getSources info = none := by
  obtain ⟨greeting, finish, generated⟩ := shell.generateScript_eq host .getSources info
  rw [generated]
  exact generate_eq_none _ greeting finish unnamed

end Generating

/-- Every shell returns a script or an error for every job and every stage, except that it
panics when the sources are fetched and the clone URL has no second part or the commit has
less than eight bytes. -/
theorem generateScript_returns_iff (host : Surroundings) (shell : Shell) (stage : BuildStage)
    (info : ShellScriptInfo) :
    (∃ script err, shell.generateScript host stage info = some (script, err)) ↔
      (stage = .getSources → NamesSources host info.build) := by
  constructor
  · rintro ⟨script, err, result⟩ rfl
    by_contra unnamed
    rw [generateScript_eq_none shell unnamed] at result
    cases result
  · intro names
    obtain ⟨greeting, finish, generated⟩ := shell.generateScript_eq host stage info
    have returned := generate_isSome (@Shell.lawful_writer host info shell) greeting finish names
    rw [← generated] at returned
    obtain ⟨⟨script, err⟩, result⟩ := Option.isSome_iff_exists.mp returned
    exact ⟨script, err, result⟩

/-- A script that is written has properly nested blocks, each with one `Else` at most. -/
theorem writeScript_nested (host : Surroundings) (shell : Shell) (stage : BuildStage)
    (info : ShellScriptInfo) (path : List UInt8) :
    let w := shell.writer host info
    writeScript w host stage info ⟨[], path, 0⟩ = none ∨ ∃ err writer record,
      writeScript w host stage info ⟨[], path, 0⟩ = some (err, writer) ∧ writer.indent = 0 ∧
        writeScript w.observed host stage info ⟨[], path, 0⟩ = some (err, record) ∧
          record.buffer.foldlM readMark [] = some [] := by
  by_cases names : stage = .getSources → NamesSources host info.build
  · obtain ⟨err, writer, record, written, observed, alike, nested⟩ :=
      nests_writeScript shell.lawful_writer names [] ⟨[], path, 0⟩ ⟨[], path, 0⟩
        ⟨⟨rfl, rfl, rfl⟩, rfl⟩
    exact .inr ⟨err, writer, record, written, alike.indent, observed, nested⟩
  · rw [Classical.not_imp] at names
    obtain ⟨rfl, unnamed⟩ := names
    exact .inl (panics_writeGetSourcesScript unnamed _)

def plainSurroundings : Surroundings where
  app := plainVersion
  isPrint _ := true
  printable _ _ _ := rfl
  repositoryHost := .ok
  sslConfigs := _
  sslConfigs_perm := .refl _
  cacheConfig := none
  downloadURL _ := none
  uploadURL _ := none

def fetchingJob (sha cloneURL : String) : ShellScriptInfo where
  build := { CacheFiles.cachingJob "SLUG" "feature" with
    gitInfo := ⟨ascii "main", ascii sha, [], 0⟩
    cloneURL := ascii cloneURL }
  runnerCommand := ascii "gitlab-runner"
  preCloneScript := []
  preBuildScript := []
  postBuildScript := []

/-- A commit of three bytes, and a clone URL that is only a scheme. -/
theorem short_commit_panics :
    (∀ shell : Shell, shell.generateScript plainSurroundings .getSources
        (fetchingJob "abc" "https://gitlab.example.com") = none) ∧
      ∀ shell : Shell, shell.generateScript plainSurroundings .getSources
        (fetchingJob "0123456789abcdef" "http") = none := by
  have unset : (CacheFiles.cachingJob "SLUG" "feature").option plainVersion "GIT_STRATEGY" = [] ∧
      (CacheFiles.cachingJob "SLUG" "feature").option plainVersion "GIT_CHECKOUT" = [] := by
    decide +kernel
  have strategy : ∀ sha cloneURL, (fetchingJob sha cloneURL).build.option plainVersion
      "GIT_STRATEGY" ≠ ascii "none" := by
    intro sha cloneURL same
    exact absurd (unset.1.symm.trans same) (by decide)
  have checkout : ∀ sha cloneURL, parseBool ((fetchingJob sha cloneURL).build.option plainVersion
      "GIT_CHECKOUT") ≠ some false := by
    intro sha cloneURL same
    have parsed := congrArg parseBool unset.2
    exact absurd (parsed.symm.trans same) (by decide)
  refine ⟨fun shell => generateScript_eq_none shell ?_, fun shell =>
    generateScript_eq_none shell ?_⟩
  · rintro (noSources | ⟨-, notChecked | long⟩)
    · exact strategy _ _ noSources
    · exact checkout _ _ notChecked
    · exact absurd long (by decide)
  · rintro (noSources | ⟨other | second, -⟩)
    · exact strategy _ _ noSources
    · exact other (List.isPrefixOf_iff_prefix.mp (by decide))
    · revert second
      decide

end GitlabRunner.Shells
