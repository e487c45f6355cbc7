import GitlabRunner.ActionRuns
import GitlabRunner.FileArchiver
import GitlabRunner.RetryHelper

/-!
# The upload of a cache archive

`cache-archiver` of `commands/helpers` makes an archive of the files of a cache and uploads
it.
-/

namespace GitlabRunner.Archiver

open ByteText Retry ActionRuns

structure Archive where
  content : List UInt8
  modTime : Int
  deriving DecidableEq, Repr

def FileMap.isChanged (files : FileMap) (modTime : Int) : Bool :=
  files.any fun entry => modTime < entry.2.modTime

/-- `isFileChanged`, with what `os.Stat` finds of the archive. -/
def FileMap.isFileChanged (files : FileMap) (found : Option Archive) : Bool :=
  match found with
  | none => true
  | some archive => files.isChanged archive.modTime

def FileMap.sortedFiles (files : FileMap) : List (List UInt8) :=
  (files.map Prod.fst).mergeSort fun first second => decide (first ≤ second)

/-- What becomes of one call of `upload`.  Opening the file and asking for its size may
fail; so may the request, or it has an answer with a status. -/
inductive Sending where
  | openFails
  | statFails
  | requestFails
  | doFails
  | answered (status : Nat)
  deriving DecidableEq, Repr

structure CacheArchiverCommand extends FileArchiver where
  file : List UInt8
  url : List UInt8
  retry : Int

/-- What a run meets: the files and the answers of the operating system, whether it tells
the state of the archive, the archive that `CreateZipFile` makes of some files, unless it
fails, and the calls of `upload`. -/
structure Run where
  host : Host
  statFails : Bool
  createZipFile : List (List UInt8) → Option Archive
  sendings : Nat → Sending

structure Store where
  archive : Option Archive
  uploaded : List Archive
  returned : Bool
  deriving DecidableEq, Repr

def upload (sending : Sending) (store : Store) : Option Retry.Error × Store :=
  match store.archive, sending with
  | none, _ => (some (.plain .notExist), store)
  | some _, .openFails => (some (.plain .system), store)
  | some _, .statFails => (some (.plain .system), store)
  | some _, .requestFails => (some (.retryableErr .system), store)
  | some _, .doFails => (some (.retryableErr .network), store)
  | some archive, .answered status =>
    match retryOnServerError status with
    | some err => (some err, store)
    | none => (none, { store with uploaded := archive :: store.uploaded })

def Store.fatal (store : Store) : Store :=
  { store with returned := false }

def Store.return (store : Store) : Store :=
  { store with returned := true }

def CacheArchiverCommand.createAndUpload (command : CacheArchiverCommand) (run : Run)
    (files : FileMap) (store : Store) : Store :=
  match run.createZipFile files.sortedFiles with
  | none => store.fatal
  | some archive =>
    let store := { store with archive := some archive }
    if command.url ≠ [] then
      match doRetry (fun calls => upload (run.sendings calls)) command.retry.toNat 0 store with
      | (some _, store) => store.fatal
      | (none, store) => store.return
    else store.return

def CacheArchiverCommand.execute (command : CacheArchiverCommand) (run : Run) (store : Store) :
    Store :=
  if command.file = [] then store.fatal
  else
    match command.enumerate run.host with
    | .error _ => store.fatal
    | .ok files =>
      if files.isFileChanged (if run.statFails then none else store.archive) then
        command.createAndUpload run files store
      else store.return

def CacheArchiverCommand.step (command : CacheArchiverCommand) (store : Store) (run : Run) :
    Option Store :=
  some (command.execute run store)

/-- If the last run returned, the archive has been uploaded. -/
def Settled (store : Store) : Prop :=
  store.returned = true → ∃ archive ∈ store.uploaded, store.archive = some archive

/-- The archive that a run finds has been uploaded, or one of the run's files is newer. -/
def NotStuck (command : CacheArchiverCommand) (store : Store) (run : Run) : Prop :=
  ∀ archive, store.archive = some archive → archive ∈ store.uploaded ∨
    ∀ files, command.enumerate run.host = .ok files → ∃ entry ∈ files,
      archive.modTime < entry.2.modTime

section Upload

variable {archive : Archive} {store : Store}

/-- An upload leaves the archive, and adds it to the uploaded ones if it works. -/
theorem upload_archive (sending : Sending) (isThere : store.archive = some archive) :
    (upload sending store).2.archive = some archive ∧
      ((upload sending store).1 = none → archive ∈ (upload sending store).2.uploaded) := by
  unfold upload
  rw [isThere]
  cases sending with
  | openFails | statFails | requestFails | doFails => exact ⟨isThere, nofun⟩
  | answered status =>
    dsimp only
    split
    · exact ⟨isThere, nofun⟩
    · exact ⟨rfl, fun _ => List.mem_cons_self⟩

/-- Retried uploads that work in the end have uploaded the archive. -/
theorem doRetry_upload (sendings : Nat → Sending) (retries calls : Nat)
    (isThere : store.archive = some archive) :
    (doRetry (fun calls => upload (sendings calls)) retries calls store).2.archive = some archive ∧
      ((doRetry (fun calls => upload (sendings calls)) retries calls store).1 = none →
        archive ∈
          (doRetry (fun calls => upload (sendings calls)) retries calls store).2.uploaded) := by
  induction retries generalizing calls store with
  | zero => exact upload_archive (sendings calls) isThere
  | succ retries ih =>
    have first := upload_archive (sendings calls) isThere
    unfold doRetry
    split
    · rename_i cause next asked
      rw [asked] at first
      exact ih (calls + 1) first.1
    · exact first

end Upload

section Execute

variable {command : CacheArchiverCommand} {run : Run} {files : FileMap} {store : Store}

theorem settled_fatal : Settled store.fatal :=
  nofun

theorem settled_createAndUpload (hasURL : command.url ≠ []) :
    Settled (command.createAndUpload run files store) := by
  unfold CacheArchiverCommand.createAndUpload
  split
  · exact settled_fatal
  · rename_i archive created
    have sent := @doRetry_upload archive { store with archive := some archive } run.sendings
      command.retry.toNat 0 rfl
    dsimp only
    rw [if_pos hasURL]
    split
    · exact settled_fatal
    · rename_i last works
      rw [works] at sent
      exact fun _ => ⟨archive, sent.2 rfl, sent.1⟩

/-- A run that finds nothing changed has found an archive and no newer file. -/
theorem unchanged_cases {statFails : Bool}
    (unchanged : ¬files.isFileChanged (if statFails then none else store.archive) = true) :
    ∃ archive, store.archive = some archive ∧
      ∀ entry ∈ files, ¬archive.modTime < entry.2.modTime := by
  cases statFails with
  | true => exact (unchanged rfl).elim
  | false =>
    cases isThere : store.archive with
    | none =>
      rw [isThere] at unchanged
      exact (unchanged rfl).elim
    | some archive =>
      rw [isThere] at unchanged
      refine ⟨archive, rfl, fun entry member isNewer => unchanged ?_⟩
      exact List.any_eq_true.mpr ⟨entry, member, decide_eq_true isNewer⟩

/-- A run that returns leaves an uploaded archive, unless it was stuck. -/
theorem settled_execute (hasURL : command.url ≠ []) (notStuck : NotStuck command store run) :
    Settled (command.execute run store) := by
  unfold CacheArchiverCommand.execute
  split
  · exact settled_fatal
  · split
    · exact settled_fatal
    · rename_i files enumerated
      by_cases changed : files.isFileChanged (if run.statFails then none else store.archive) = true
      · rw [if_pos changed]
        exact settled_createAndUpload hasURL
      · rw [if_neg changed]
        obtain ⟨archive, isThere, upToDate⟩ := unchanged_cases changed
        rcases notStuck archive isThere with uploaded | newer
        · exact fun _ => ⟨archive, uploaded, isThere⟩
        · obtain ⟨entry, member, isNewer⟩ := newer files enumerated
          exact (upToDate entry member isNewer).elim

end Execute

/-- In every sequence of runs, from any archive and any uploads before, in which no run is
stuck, the archive has been uploaded whenever a run has returned. -/
theorem returned_runs_uploaded (command : CacheArchiverCommand) (hasURL : command.url ≠ [])
    (store last : Store) (runs : List Run) (unreturned : store.returned = false)
    (notStuck : MeetsAlong command.step (NotStuck command) store runs)
    (reached : run command.step store runs = some last) : Settled last := by
  refine run_invariant Settled ?_ ?_ notStuck reached
  · rintro before run after - free ⟨⟩
    exact settled_execute hasURL free
  · intro returned
    cases unreturned.symm.trans returned

def oneFile (modTime : Int) : Host where
  getwd := some (ascii "/builds")
  glob pattern := some [pattern]
  walk path := [path]
  lsFiles := none
  lstat _ := .ok ⟨modTime⟩

def oneFileCommand : CacheArchiverCommand where
  paths := [ascii "deps"]
  untracked := false
  file := ascii "/cache/cache.zip"
  url := ascii "https://cache.example.com/cache.zip"
  retry := 2

def archivingRun (written made : Int) (sending : Sending) : Run where
  host := oneFile written
  statFails := false
  createZipFile _ := some ⟨ascii "zip", made⟩
  sendings _ := sending

def emptyStore : Store :=
  ⟨none, [], false⟩

theorem returned_runs_uploaded_later :
    run oneFileCommand.step emptyStore
        [archivingRun 0 1 .doFails, archivingRun 2 3 (.answered 200)] =
          some ⟨some ⟨ascii "zip", 3⟩, [⟨ascii "zip", 3⟩], true⟩ ∧
      Settled ⟨some ⟨ascii "zip", 3⟩, [⟨ascii "zip", 3⟩], true⟩ := by
  have reached : run oneFileCommand.step emptyStore
      [archivingRun 0 1 .doFails, archivingRun 2 3 (.answered 200)] =
        some ⟨some ⟨ascii "zip", 3⟩, [⟨ascii "zip", 3⟩], true⟩ := by decide +kernel
  have failed : oneFileCommand.step emptyStore (archivingRun 0 1 .doFails) =
      some ⟨some ⟨ascii "zip", 1⟩, [], false⟩ := by decide +kernel
  have enumerated : oneFileCommand.enumerate (oneFile 2) = .ok [(ascii "deps", ⟨2⟩)] := by
    decide +kernel
  refine ⟨reached, returned_runs_uploaded oneFileCommand (by decide) emptyStore _ _ rfl ?_
    reached⟩
  unfold MeetsAlong
  constructor
  · intro archive same
    cases same
  rw [failed]
  refine ⟨?_, by split <;> trivial⟩
  intro archive same
  cases same
  right
  intro files found
  cases enumerated.symm.trans found
  exact ⟨_, List.mem_singleton.mpr rfl, by decide⟩

/-- The upload of an archive fails; the next run finds it up to date and returns. -/
theorem failed_upload_forgotten :
    ¬∀ (command : CacheArchiverCommand) (store last : Store) (runs : List Run),
      command.url ≠ [] → store.returned = false →
      run command.step store runs = some last → Settled last := by
  intro settled
  have stuck := settled oneFileCommand emptyStore
    ⟨some ⟨ascii "zip", 1⟩, [], true⟩
    [archivingRun 0 1 .doFails, archivingRun 0 2 .doFails] (by decide) rfl (by decide +kernel)
  obtain ⟨_, member, -⟩ := stuck rfl
  cases member

end GitlabRunner.Archiver
