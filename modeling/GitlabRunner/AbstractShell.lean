import GitlabRunner.BuildOptions
import GitlabRunner.CacheFiles
import GitlabRunner.CacheObjects
import GitlabRunner.ShellWriter

/-!
# What the scripts of a job do

`shells/abstract.go` writes the script of each stage of a build with the methods of a
`ShellWriter`.  Every function here is one of its functions, for any writer.
-/

namespace GitlabRunner.Shells

open ByteText SlashPaths Directory Payload GoStrings Panicking

/-- What a script depends on beside the job: the version of the runner, the table of
`strconv.IsPrint`, the address of a repository's host (or the error of `url.Parse`), the
order in which the map of `writeGitSSLConfig` is ranged over, and the cache with the
addresses of its objects. -/
structure Surroundings where
  app : AppVersion
  isPrint : Char → Bool
  printable : ∀ rune : Char, 32 ≤ rune.toNat → rune.toNat ≤ 126 → isPrint rune = true
  repositoryHost : List UInt8 → Except (List UInt8) (List UInt8)
  sslConfigs : List (List UInt8 × List UInt8)
  sslConfigs_perm : sslConfigs.Perm
    [(ascii "CI_SERVER_TLS_CA_FILE", ascii "sslCAInfo"),
      (ascii "CI_SERVER_TLS_CERT_FILE", ascii "sslCert"),
      (ascii "CI_SERVER_TLS_KEY_FILE", ascii "sslKey")]
  cacheConfig : Option Cache.Config
  downloadURL : List UInt8 → Option (List UInt8)
  uploadURL : List UInt8 → Option (List UInt8)

structure ShellScriptInfo where
  build : Job
  runnerCommand : List UInt8
  preCloneScript : List UInt8
  preBuildScript : List UInt8
  postBuildScript : List UInt8

inductive BuildStage where
  | prepareExecutor
  | prepare
  | getSources
  | restoreCache
  | downloadArtifacts
  | userScript
  | afterScript
  | archiveCache
  | uploadOnSuccessArtifacts
  | uploadOnFailureArtifacts
  deriving DecidableEq, Repr

def BuildStage.name : BuildStage → List UInt8
  | .prepareExecutor => ascii "prepare_executor"
  | .prepare => ascii "prepare_script"
  | .getSources => ascii "get_sources"
  | .restoreCache => ascii "restore_cache"
  | .downloadArtifacts => ascii "download_artifacts"
  | .userScript => ascii "build_script"
  | .afterScript => ascii "after_script"
  | .archiveCache => ascii "archive_cache"
  | .uploadOnSuccessArtifacts => ascii "upload_artifacts_on_success"
  | .uploadOnFailureArtifacts => ascii "upload_artifacts_on_failure"

def onAdapter (host : Surroundings) (build : Job) (key : List UInt8)
    (address : List UInt8 → Option (List UInt8)) : Option (List UInt8) :=
  match host.cacheConfig with
  | none => none
  | some config =>
    match Cache.generateObjectName ⟨build.token, build.projectID⟩ config key with
    | .error _ => none
    | .ok objectName => if objectName = [] then none else address objectName

def urlArguments (url : Option (List UInt8)) : List (List UInt8) :=
  match url with
  | none => []
  | some url => [ascii "--url", url]

def archiverArgs (paths : List (List UInt8)) (untracked : Bool) : List (List UInt8) :=
  paths.flatMap (fun path => [ascii "--path", path]) ++
    if untracked then [ascii "--untracked"] else []

section Writers

variable (w : ShellWriter) (host : Surroundings)

def writeCdBuildDir (info : ShellScriptInfo) : Script Unit :=
  w.cd info.build.fullProjectDir

def writeExports (info : ShellScriptInfo) : Script Unit :=
  Program.each w.writeVariable (info.build.allJobVariables host.app)

def writeGitSSLConfig (build : Job) (scope : List (List UInt8)) : Script Unit :=
  match host.repositoryHost build.runnerURL with
  | .error err =>
    w.warning (ascii "git SSL config: Can't parse repository URL. " ++ err)
  | .ok address =>
    let args := ascii "config" :: scope
    Program.each (fun (name, config) =>
      Program.when (build.getCITLSVariables.get name ≠ [])
        (w.command (ascii "git") (args ++
          [ascii "http." ++ address ++ ascii "." ++ config, w.envVariableKey name])))
      host.sslConfigs

def writeGitCleanup : Script Unit := do
  w.rmFile (ascii ".git/index.lock")
  w.rmFile (ascii ".git/shallow.lock")
  w.rmFile (ascii ".git/HEAD.lock")
  w.rmFile (ascii ".git/hooks/post-checkout")

def fetchNotice (depth : Int) : List UInt8 :=
  if 0 < depth then
    ascii "Fetching changes with git depth set to " ++ itoa depth ++ ascii "..."
  else ascii "Fetching changes..."

def fetchArgs (gitInfo : GitInfo) : List (List UInt8) :=
  [ascii "fetch", ascii "origin", ascii "--prune"] ++ gitInfo.refspecs ++
    if 0 < gitInfo.depth then [ascii "--depth", itoa gitInfo.depth] else []

def writeRefspecFetchCmd (build : Job) (projectDir : List UInt8) : Script Unit := do
  let templateDir ← w.mkTmpDir (ascii "git-template")
  let templateFile := join [templateDir, ascii "config"]
  w.command (ascii "git")
    [ascii "config", ascii "-f", templateFile, ascii "fetch.recurseSubmodules", ascii "false"]
  Program.when build.sharedEnv (writeGitSSLConfig w host build [ascii "-f", templateFile])
  w.command (ascii "git") [ascii "init", projectDir, ascii "--template", templateDir]
  w.cd projectDir
  writeGitCleanup w
  w.notice (fetchNotice build.gitInfo.depth)
  let remoteURL ← Program.lift (build.getRemoteURL host.app)
  w.ifCmd (ascii "git") [ascii "remote", ascii "add", ascii "origin", remoteURL]
  w.notice (ascii "Created fresh repository.")
  w.elseCmd
  let remoteURL ← Program.lift (build.getRemoteURL host.app)
  w.command (ascii "git") [ascii "remote", ascii "set-url", ascii "origin", remoteURL]
  w.endIf
  w.command (ascii "git") (fetchArgs build.gitInfo)

def writeCheckoutCmd (build : Job) : Script Unit := do
  let sha ← Program.lift (slice build.gitInfo.sha 0 8)
  w.notice (ascii "Checking out " ++ sha ++ ascii " as " ++ build.gitInfo.ref ++ ascii "...")
  w.command (ascii "git") [ascii "checkout", ascii "-f", ascii "-q", build.gitInfo.sha]
  let cleanFlags := build.getGitCleanFlags host.app
  Program.when (0 < cleanFlags.length)
    (w.command (ascii "git") (ascii "clean" :: cleanFlags))

def writeSubmoduleUpdateCmd (build : Job) (recursive : Bool) : Script Unit := do
  let more := if recursive then [ascii "--recursive"] else []
  w.notice (if recursive then ascii "Updating/initializing submodules recursively..."
    else ascii "Updating/initializing submodules...")
  w.command (ascii "git") ([ascii "submodule", ascii "sync"] ++ more)
  let updateArgs := [ascii "submodule", ascii "update", ascii "--init"] ++ more
  let foreachArgs := [ascii "submodule", ascii "foreach"] ++ more
  w.command (ascii "git") (foreachArgs ++ [ascii "git", ascii "clean", ascii "-ffxd"])
  w.command (ascii "git") (foreachArgs ++ [ascii "git", ascii "reset", ascii "--hard"])
  w.command (ascii "git") updateArgs
  Program.when (!build.isLFSSmudgeDisabled host.app) (do
    w.ifCmd (ascii "git-lfs") [ascii "version"]
    w.command (ascii "git") (foreachArgs ++ [ascii "git", ascii "lfs", ascii "pull"])
    w.endIf)

def guardRunnerCommand (runnerCommand action : List UInt8) (guarded : Script Unit) :
    Script Unit :=
  if runnerCommand = [] then
    w.warning (action ++ ascii " is not supported by this executor.")
  else do
    w.ifCmd runnerCommand [ascii "--version"]
    guarded
    w.elseCmd
    w.warning (ascii "Missing " ++ runnerCommand ++ ascii ". " ++ action ++ ascii " is disabled.")
    w.endIf

def runCacheCommand (info : ShellScriptInfo) (action before done failed : List UInt8)
    (args : List (List UInt8)) : Script Unit :=
  guardRunnerCommand w info.runnerCommand action (do
    w.notice before
    w.ifCmdWithOutput info.runnerCommand args
    w.notice done
    w.elseCmd
    w.warning failed
    w.endIf)

/-- The loop of `cacheExtractor`, which ends at the first error. -/
def cacheExtractor (info : ShellScriptInfo) : List CacheOptions → Script (Option (List UInt8))
  | [] => pure none
  | cacheOptions :: rest =>
    if (archiverArgs cacheOptions.paths cacheOptions.untracked).length < 1 then
      cacheExtractor info rest
    else
      let (cacheKey, cacheFile) := CacheFiles.cacheFile host.app info.build cacheOptions.key
      if cacheKey = [] then do
        w.notice (ascii "Skipping cache extraction due to empty cache key")
        cacheExtractor info rest
      else
        match cacheOptions.checkPolicy (ascii "pull") with
        | .error err => pure (some (err ++ ascii " for " ++ cacheKey))
        | .ok false => do
          w.notice (ascii "Not downloading cache " ++ cacheKey ++ ascii " due to policy")
          cacheExtractor info rest
        | .ok true => do
          let args := [ascii "cache-extractor", ascii "--file", cacheFile, ascii "--timeout",
            itoa (info.build.getCacheRequestTimeout host.app)] ++
            urlArguments (onAdapter host info.build cacheKey host.downloadURL)
          runCacheCommand w info (ascii "Extracting cache")
            (ascii "Checking cache for " ++ cacheKey ++ ascii "...")
            (ascii "Successfully extracted cache") (ascii "Failed to extract cache") args
          cacheExtractor info rest

/-- The loop of `cacheArchiver`, which ends at the first error. -/
def cacheArchiver (info : ShellScriptInfo) : List CacheOptions → Script (Option (List UInt8))
  | [] => pure none
  | cacheOptions :: rest =>
    let (cacheKey, cacheFile) := CacheFiles.cacheFile host.app info.build cacheOptions.key
    if cacheKey = [] then do
      w.notice (ascii "Skipping cache archiving due to empty cache key")
      cacheArchiver info rest
    else
      match cacheOptions.checkPolicy (ascii "push") with
      | .error err => pure (some (err ++ ascii " for " ++ cacheKey))
      | .ok false => do
        w.notice (ascii "Not uploading cache " ++ cacheKey ++ ascii " due to policy")
        cacheArchiver info rest
      | .ok true =>
        let files := archiverArgs cacheOptions.paths cacheOptions.untracked
        if files.length < 1 then cacheArchiver info rest
        else do
          let args := [ascii "cache-archiver", ascii "--file", cacheFile, ascii "--timeout",
            itoa (info.build.getCacheRequestTimeout host.app)] ++ files ++
            urlArguments (onAdapter host info.build cacheKey host.uploadURL)
          runCacheCommand w info (ascii "Creating cache")
            (ascii "Creating cache " ++ cacheKey ++ ascii "...") (ascii "Created cache")
            (ascii "Failed to create cache") args
          cacheArchiver info rest

def downloadArtifacts (info : ShellScriptInfo) (job : Dependency) : Script Unit := do
  w.notice (ascii "Downloading artifacts for " ++ job.name ++ ascii " (" ++ itoa job.id ++
    ascii ")...")
  w.command info.runnerCommand [ascii "artifacts-downloader", ascii "--url",
    info.build.runnerURL, ascii "--token", job.token, ascii "--id", itoa job.id]

def jobArtifacts (info : ShellScriptInfo) : List Dependency :=
  info.build.dependencies.filter fun otherJob => otherJob.filename ≠ []

def downloadAllArtifacts (info : ShellScriptInfo) : Script Unit :=
  let otherJobs := jobArtifacts info
  if otherJobs.length = 0 then pure ()
  else guardRunnerCommand w info.runnerCommand (ascii "Artifacts downloading")
    (Program.each (downloadArtifacts w info) otherJobs)

def commandNotice (command : List UInt8) : Script Unit :=
  if command ≠ [] then do
    let lines := splitTwo command (byte '\n')
    let first ← Program.lift lines[0]?
    w.notice (ascii "$ " ++ first ++
      if 1 < lines.length then ascii " # collapsed multi-line command" else [])
  else w.emptyLine

def writeCommands (commands : List (List UInt8)) : Script Unit :=
  Program.each (fun command => do
    let command := trimSpace command
    commandNotice w command
    w.line command
    w.checkForErrors) commands

/-- `handleGetSourcesStrategy`; `GetGitStrategy` returns no other strategy. -/
def handleGetSourcesStrategy (build : Job) : Script Unit :=
  let projectDir := build.fullProjectDir
  match build.getGitStrategy host.app with
  | .fetch => writeRefspecFetchCmd w host build projectDir
  | .clone => do
    w.rmDir projectDir
    writeRefspecFetchCmd w host build projectDir
  | .none => do
    w.notice (ascii "Skipping Git repository setup")
    w.mkDir projectDir

def writeCloneFetchCmds (info : ShellScriptInfo) : Script Unit := do
  Program.when (!info.build.isLFSSmudgeDisabled host.app)
    (w.writeVariable ⟨ascii "GIT_LFS_SKIP_SMUDGE", ascii "1", false, false, false, false⟩)
  handleGetSourcesStrategy w host info.build
  (if info.build.getGitCheckout host.app then do
    writeCheckoutCmd w host info.build
    Program.when (!info.build.isLFSSmudgeDisabled host.app) (do
      w.ifCmd (ascii "git-lfs") [ascii "version"]
      w.command (ascii "git") [ascii "lfs", ascii "pull"]
      w.emptyLine
      w.endIf)
  else w.notice (ascii "Skipping Git checkout"))

def writeSubmoduleUpdateCmds (info : ShellScriptInfo) : Script (Option (List UInt8)) :=
  match info.build.getSubmoduleStrategy host.app with
  | .normal => do
    writeSubmoduleUpdateCmd w host info.build false
    return none
  | .recursive => do
    writeSubmoduleUpdateCmd w host info.build true
    return none
  | .none => do
    w.notice (ascii "Skipping Git submodules setup")
    return none
  | .invalid => return some (ascii "unknown GIT_SUBMODULE_STRATEGY")

def writeGetSourcesScript (info : ShellScriptInfo) : Script (Option (List UInt8)) := do
  writeExports w host info
  Program.when (!info.build.sharedEnv) (writeGitSSLConfig w host info.build [ascii "--global"])
  Program.when (info.preCloneScript ≠ [] ∧ info.build.getGitStrategy host.app ≠ .none)
    (writeCommands w [info.preCloneScript])
  writeCloneFetchCmds w host info
  writeSubmoduleUpdateCmds w host info

/-- The beginning of the scripts that run in the project's directory. -/
def writeStart (info : ShellScriptInfo) : Script Unit := do
  writeExports w host info
  writeCdBuildDir w info

def writeRestoreCacheScript (info : ShellScriptInfo) : Script (Option (List UInt8)) := do
  writeStart w host info
  cacheExtractor w host info info.build.caches

def writeDownloadArtifactsScript (info : ShellScriptInfo) : Script (Option (List UInt8)) := do
  writeStart w host info
  downloadAllArtifacts w info
  return none

def writeUserScript (info : ShellScriptInfo) : Script (Option (List UInt8)) :=
  match info.build.steps.find? (fun step => step.name = ascii "script") with
  | none => return none
  | some scriptStep => do
    writeStart w host info
    Program.when (info.preBuildScript ≠ []) (writeCommands w [info.preBuildScript])
    writeCommands w scriptStep.script
    Program.when (info.postBuildScript ≠ []) (writeCommands w [info.postBuildScript])
    return none

def writeAfterScript (info : ShellScriptInfo) : Script (Option (List UInt8)) :=
  match info.build.steps.find? (fun step => step.name = ascii "after_script") with
  | none => return none
  | some afterScriptStep =>
    if afterScriptStep.script.length = 0 then return none
    else do
      writeStart w host info
      w.notice (ascii "Running after script...")
      writeCommands w afterScriptStep.script
      return none

def writeArchiveCacheScript (info : ShellScriptInfo) : Script (Option (List UInt8)) := do
  writeStart w host info
  cacheArchiver w host info info.build.caches

def optionArguments (name value : List UInt8) : List (List UInt8) :=
  if value ≠ [] then [name, value] else []

def writeUploadArtifact (info : ShellScriptInfo) (artifact : Artifact) : Script Unit :=
  let files := archiverArgs artifact.paths artifact.untracked
  if files.length < 1 then pure ()
  else
    let args := [ascii "artifacts-uploader", ascii "--url", info.build.runnerURL, ascii "--token",
      info.build.jobToken, ascii "--id", itoa info.build.id] ++ files ++
      optionArguments (ascii "--name") artifact.name ++
      optionArguments (ascii "--expire-in") artifact.expireIn ++
      optionArguments (ascii "--artifact-format") artifact.format ++
      optionArguments (ascii "--artifact-type") artifact.type
    guardRunnerCommand w info.runnerCommand (ascii "Uploading artifacts") (do
      w.notice (ascii "Uploading artifacts...")
      w.command info.runnerCommand args)

def writeUploadArtifacts (info : ShellScriptInfo) (onSuccess : Bool) : Script Unit :=
  if info.build.runnerURL = [] then pure ()
  else do
    writeStart w host info
    Program.each (writeUploadArtifact w info) (info.build.artifacts.filter fun artifact =>
      if onSuccess then artifact.onSuccess else artifact.onFailure)

def writeScript (stage : BuildStage) (info : ShellScriptInfo) :
    Script (Option (List UInt8)) :=
  match stage with
  | .prepare => return none
  | .getSources => writeGetSourcesScript w host info
  | .restoreCache => writeRestoreCacheScript w host info
  | .downloadArtifacts => writeDownloadArtifactsScript w host info
  | .userScript => writeUserScript w host info
  | .afterScript => writeAfterScript w host info
  | .archiveCache => writeArchiveCacheScript w host info
  | .uploadOnSuccessArtifacts => do
    writeUploadArtifacts w host info true
    return none
  | .uploadOnFailureArtifacts => do
    writeUploadArtifacts w host info false
    return none
  | .prepareExecutor => return some (ascii "Not supported script type: " ++ stage.name)

end Writers

end GitlabRunner.Shells
