import GitlabRunner.ByteText
import GitlabRunner.RetryHelper

/-!
# The download of a cache archive

`download` of `commands/helpers/cache_extractor.go` asks for the archive, writes its body to
a temporary file beside `--file` and renames it.  A local file that is not older than the
archive stays as it is.
-/

namespace GitlabRunner.CacheDownload

open ByteText Retry List Option Function

/-- A file.  `unfinished` says that it holds the beginning of a body that is still being
written. -/
structure Entry where
  content : List UInt8
  modTime : Int
  unfinished : Bool
  deriving DecidableEq, Repr

abbrev Files := List UInt8 → Option Entry

/-- An answer of the server: its status, its `Last-Modified` header (empty if it has
none), and its body as it is copied, up to its end or to an error of either side. -/
structure Response where
  status : Nat
  lastModified : List UInt8
  chunks : List (List UInt8)
  ends : Bool
  deriving DecidableEq, Repr

def Response.body (response : Response) : List UInt8 :=
  response.chunks.flatten

/-- What a call of `download` meets: the answer, unless the request fails, the name that
`TempFile` chooses, the time, and what the operating system refuses. -/
structure Attempt where
  response : Option Response
  temporary : Option (List UInt8)
  now : Int
  changesTimes : Bool
  closeFails : Bool
  renameFails : Bool
  deriving DecidableEq, Repr

/-- The files, what was in `--file` after each operation, and the answers so far. -/
structure State where
  files : Files
  moments : List (Option Entry)
  responses : List Response

/-- The zero `time.Time`, 1 January of the year 1, in nanoseconds of Unix time. -/
def zeroTime : Int := -62135596800 * 1000000000

section Download

variable (parse : List UInt8 → Option Int) (file : List UInt8)

/-- The date of an answer.  The error of `time.Parse` is ignored. -/
def Response.date (response : Response) : Int :=
  (parse response.lastModified).getD zeroTime

def checkIfUpToDate (entry : Option Entry) (date : Int) : Bool :=
  match entry with
  | none => false
  | some entry => !decide (entry.modTime < date)

namespace State

def change (state : State) (files : Files) : State :=
  { state with files := files, moments := state.moments ++ [files file] }

def put (state : State) (path : List UInt8) (entry : Option Entry) : State :=
  state.change file (update state.files path entry)

def rename (state : State) (path : List UInt8) : State :=
  state.change file
    (update (update state.files path none) file (state.files path))

/-- `io.Copy`, one chunk after the other. -/
def copy (state : State) (path : List UInt8) (now : Int) : List UInt8 → List (List UInt8) →
    State
  | _, [] => state
  | written, chunk :: chunks =>
    (state.put file path (some ⟨written ++ chunk, now, true⟩)).copy path now
      (written ++ chunk) chunks

end State

def State.write (state : State) (name : List UInt8) (now : Int) (response : Response) : State :=
  (state.put file name (some ⟨[], now, true⟩)).copy file name now [] response.chunks

/-- The body has ended; the temporary file gets the date of the answer. -/
def State.finish (state : State) (name : List UInt8) (attempt : Attempt) (response : Response) :
    State :=
  let state := state.put file name (some ⟨response.body, attempt.now, false⟩)
  if attempt.changesTimes then
    state.put file name (some ⟨response.body, response.date parse, false⟩)
  else state

/-- `download` from `TempFile` on, with the deferred `Remove`. -/
def store (attempt : Attempt) (response : Response) (state : State) : Option Error × State :=
  match attempt.temporary with
  | none => (some (.plain .system), state)
  | some name =>
    if (state.files name).isSome then (some (.plain .system), state)
    else
      let state := state.write file name attempt.now response
      if !response.ends then (some (.retryableErr .body), state.put file name none)
      else
        let state := state.finish parse file name attempt response
        if attempt.closeFails then (some (.plain .system), state.put file name none)
        else if attempt.renameFails then (some (.plain .system), state.put file name none)
        else (none, (state.rename file name).put file name none)

def getCache (attempt : Attempt) (state : State) : Except Error Response × State :=
  match attempt.response with
  | none => (.error (.retryableErr .network), state)
  | some response =>
    let state := { state with responses := state.responses ++ [response] }
    if response.status = 404 then (.error (.plain .notExist), state)
    else
      match retryOnServerError response.status with
      | some err => (.error err, state)
      | none => (.ok response, state)

/-- `download`.  `MkdirAll` makes only directories. -/
def download (attempt : Attempt) (state : State) : Option Error × State :=
  match getCache attempt state with
  | (.error err, state) => (some err, state)
  | (.ok response, state) =>
    if checkIfUpToDate (state.files file) (response.date parse) then (none, state)
    else store parse file attempt response state

def downloads (attempts : Nat → Attempt) (calls : Nat) (state : State) : Option Error × State :=
  download parse file (attempts calls) state

def downloadStep (retry : Int) (attempts : Nat → Attempt) (state : State) :
    Option Error × State :=
  doRetry (downloads parse file attempts) retry.toNat 0 state

end Download

def State.start (files : Files) : State where
  files := files
  moments := []
  responses := []

def State.lastOK (state : State) : Option Response :=
  (state.responses.filter fun response => response.status = 200).getLast?

/-- What `--file` holds is what was there before, or not the beginning of a body. -/
def Whole (initial moment : Option Entry) : Prop :=
  moment = initial ∨ ∃ entry, moment = some entry ∧ entry.unfinished = false

def Holds (entry : Option Entry) (response : Response) : Prop :=
  ∃ held, entry = some held ∧ held.content = response.body ∧ response.ends = true

section Property

variable (parse : List UInt8 → Option Int) (file : List UInt8)

/-- A download that fails changes nothing; one that succeeds leaves the complete body of
the last 200 answer, or the old file if that answer has a valid date that is not later
than the file; and `--file` never holds the beginning of a body. -/
structure FreshAndAtomic (initial : Files) (result : Option Error × State) : Prop where
  failed : result.1 ≠ none → result.2.files file = initial file
  fresh : result.1 = none → ∃ response, result.2.lastOK = some response ∧
    (Holds (result.2.files file) response ∨
      result.2.files file = initial file ∧ ∃ entry date, initial file = some entry ∧
        parse response.lastModified = some date ∧ date ≤ entry.modTime)
  whole : ∀ moment ∈ result.2.moments, Whole (initial file) moment

def Accepted (attempt : Attempt) (response : Response) : Prop :=
  attempt.response = some response ∧ response.status / 100 = 2

def Kept (files : Files) (response : Response) : Prop :=
  checkIfUpToDate (files file) (response.date parse) = true

def Opens (files : Files) (attempt : Attempt) (name : List UInt8) : Prop :=
  attempt.temporary = some name ∧ files name = none

/-- The attempt ends with an error for which there is another one: no answer, a server
error, or a body that breaks off. -/
def Retryable (files : Files) (attempt : Attempt) : Prop :=
  attempt.response = none ∨ ∃ response, attempt.response = some response ∧
    (response.status / 100 = 5 ∨ response.status / 100 = 2 ∧ ¬Kept parse file files response ∧
      (∃ name, Opens files attempt name) ∧ response.ends = false)

def Succeeds (files : Files) (attempt : Attempt) (response : Response) : Prop :=
  Kept parse file files response ∨
    (∃ name, Opens files attempt name) ∧ response.ends = true ∧
      attempt.closeFails = false ∧ attempt.renameFails = false

/-- What an accepted answer has to be like: its temporary file is not `--file` itself, a
success has the status 200, and a local file that stays has been compared with a valid
date, unless it holds the same body. -/
structure Proper (files : Files) (attempt : Attempt) (response : Response) : Prop where
  apart : ¬Kept parse file files response →
    ∀ name, Opens files attempt name → name ≠ file
  status : Succeeds parse file files attempt response → response.status = 200
  dated : Kept parse file files response →
    (parse response.lastModified).isSome ∨ Holds (files file) response

/-- The accepted answers of all attempts that are made are proper.  An attempt is made if
the retries last so long and all earlier ones are retryable. -/
def Trustworthy (files : Files) (retry : Int) (attempts : Nat → Attempt) : Prop :=
  ∀ count ≤ retry.toNat,
    (∀ earlier < count, Retryable parse file files (attempts earlier)) →
    ∀ response, Accepted (attempts count) response →
      Proper parse file files (attempts count) response

end Property

section Operations

variable {parse : List UInt8 → Option Int} {file path : List UInt8} {state : State}
  {initial : Option Entry}

/-- `--file` is as it was, and has always been whole. -/
structure Calm (file : List UInt8) (initial : Option Entry) (state : State) : Prop where
  unchanged : state.files file = initial
  whole : ∀ moment ∈ state.moments, Whole initial moment

theorem whole_change {files : Files} (whole : ∀ moment ∈ state.moments, Whole initial moment)
    (now : Whole initial (files file)) :
    ∀ moment ∈ (state.change file files).moments, Whole initial moment := by
  intro moment member
  rcases mem_append.mp member with old | new
  · exact whole moment old
  · rw [mem_singleton.mp new]
    exact now

theorem Calm.put (calm : Calm file initial state) (apart : path ≠ file)
    (entry : Option Entry) : Calm file initial (state.put file path entry) := by
  have unchanged : (state.put file path entry).files file = initial :=
    (update_of_ne apart.symm _ _).trans calm.unchanged
  exact ⟨unchanged, whole_change calm.whole (.inl unchanged)⟩

theorem Calm.copy (calm : Calm file initial state) (apart : path ≠ file) (now : Int)
    (written : List UInt8) (chunks : List (List UInt8)) :
    Calm file initial (state.copy file path now written chunks) := by
  induction chunks generalizing state written with
  | nil => exact calm
  | cons chunk chunks ih => exact ih (calm.put apart _) _

theorem copy_files {now : Int} {written : List UInt8} {chunks : List (List UInt8)}
    (opened : state.files path = some ⟨written, now, true⟩) :
    (state.copy file path now written chunks).files =
      update state.files path (some ⟨written ++ chunks.flatten, now, true⟩) := by
  induction chunks generalizing state written with
  | nil =>
    rw [flatten_nil, append_nil, ← opened, update_eq_self]
    rfl
  | cons chunk chunks ih =>
    have next := @ih (state.put file path (some ⟨written ++ chunk, now, true⟩))
      (written ++ chunk) (update_self _ _ _)
    rw [State.copy, next, flatten_cons, append_assoc]
    exact update_idem _ _ _

theorem rename_files : (state.rename file path).files file = state.files path :=
  update_self _ _ _

variable {now : Int} {attempt : Attempt} {response : Response}

theorem write_files :
    (state.write file path now response).files =
      update state.files path (some ⟨response.body, now, true⟩) := by
  have copied := @copy_files file path (state.put file path (some ⟨[], now, true⟩)) now []
    response.chunks (update_self _ _ _)
  rw [State.write, copied, nil_append]
  exact update_idem _ _ _

theorem finish_files :
    ∃ modTime, (state.finish parse file path attempt response).files =
      update state.files path (some ⟨response.body, modTime, false⟩) := by
  unfold State.finish
  dsimp only
  split
  · exact ⟨_, update_idem _ _ _⟩
  · exact ⟨_, rfl⟩

theorem Calm.finish (calm : Calm file initial state) (apart : path ≠ file) :
    Calm file initial (state.finish parse file path attempt response) := by
  unfold State.finish
  dsimp only
  split
  · exact (calm.put apart _).put apart _
  · exact calm.put apart _

/-- What `--file` has held stays known, and no answer comes. -/
structure Extends (state next : State) : Prop where
  responses : next.responses = state.responses
  moments : state.moments ⊆ next.moments

theorem Extends.refl (state : State) : Extends state state :=
  ⟨rfl, List.Subset.refl _⟩

theorem Extends.trans {first second third : State} (earlier : Extends first second)
    (later : Extends second third) : Extends first third :=
  ⟨later.responses.trans earlier.responses, List.Subset.trans earlier.moments later.moments⟩

theorem extends_change (files : Files) : Extends state (state.change file files) :=
  ⟨rfl, subset_append_left _ _⟩

theorem extends_copy (now : Int) (written : List UInt8) (chunks : List (List UInt8)) :
    Extends state (state.copy file path now written chunks) := by
  induction chunks generalizing state written with
  | nil => exact .refl _
  | cons chunk chunks ih => exact (extends_change _).trans (ih _)

theorem extends_write : Extends state (state.write file path now response) :=
  (extends_change _).trans (extends_copy _ _ _)

theorem extends_finish : Extends state (state.finish parse file path attempt response) := by
  unfold State.finish
  dsimp only
  split
  · exact (extends_change _).trans (extends_change _)
  · exact extends_change _

theorem mem_moments_write :
    some ⟨[], now, true⟩ ∈ (state.write path path now response).moments := by
  apply (extends_copy _ _ _).moments
  apply mem_append_right
  rw [update_self]
  exact mem_singleton.mpr rfl

/-- Removing the temporary file leaves the files as they were before it was made. -/
theorem files_put_none {before : Files} {entry : Option Entry} (fresh : before path = none)
    (made : state.files = update before path entry) :
    (state.put file path none).files = before := by
  change update state.files path none = before
  rw [made, update_idem, ← fresh, update_eq_self]

end Operations

section Attempts

variable {parse : List UInt8 → Option Int} {file : List UInt8} {attempt : Attempt}
  {response : Response} {state : State} {result : Option Error × State}

/-- What `store` does: without a temporary file nothing; else it removes the file again,
or renames it once the body has ended. -/
inductive Stored (parse : List UInt8 → Option Int) (file : List UInt8) (attempt : Attempt)
    (response : Response) (state : State) : Option Error × State → Prop where
  | refused (noName : ¬∃ name, Opens state.files attempt name) :
    Stored parse file attempt response state (some (.plain .system), state)
  | broken {name : List UInt8} (opens : Opens state.files attempt name)
    (breaks : response.ends = false) :
    Stored parse file attempt response state (some (.retryableErr .body),
      (state.write file name attempt.now response).put file name none)
  | dropped {name : List UInt8} (opens : Opens state.files attempt name)
    (ends : response.ends = true)
    (fails : ¬(attempt.closeFails = false ∧ attempt.renameFails = false)) :
    Stored parse file attempt response state (some (.plain .system),
      ((state.write file name attempt.now response).finish parse file name attempt
        response).put file name none)
  | renamed {name : List UInt8} (opens : Opens state.files attempt name)
    (ends : response.ends = true)
    (works : attempt.closeFails = false ∧ attempt.renameFails = false) :
    Stored parse file attempt response state (none,
      (((state.write file name attempt.now response).finish parse file name attempt
        response).rename file name).put file name none)

theorem stored :
    Stored parse file attempt response state (store parse file attempt response state) := by
  fun_cases store parse file attempt response state with
  | case1 noName => exact .refused (by simp [Opens, noName])
  | case2 name named taken =>
    refine .refused ?_
    rintro ⟨other, otherNamed, free⟩
    cases named.symm.trans otherNamed
    rw [free] at taken
    cases taken
  | case3 name named free state breaks =>
    exact .broken ⟨named, by simpa using free⟩ (by simpa using breaks)
  | case4 name named free _ ends _ closes =>
    exact .dropped ⟨named, by simpa using free⟩ (by simpa using ends) (by simp [closes])
  | case5 name named free _ ends _ _ renames =>
    exact .dropped ⟨named, by simpa using free⟩ (by simpa using ends) (by simp [renames])
  | case6 name named free _ ends _ closes renames =>
    exact .renamed ⟨named, by simpa using free⟩ (by simpa using ends)
      ⟨by simpa using closes, by simpa using renames⟩

def State.receive (state : State) (response : Response) : State :=
  { state with responses := state.responses ++ [response] }

inductive Downloaded (parse : List UInt8 → Option Int) (file : List UInt8) (attempt : Attempt)
    (state : State) : Option Error × State → Prop where
  | lost (unanswered : attempt.response = none) :
    Downloaded parse file attempt state (some (.retryableErr .network), state)
  | server {response : Response} (answered : attempt.response = some response)
    (server : response.status / 100 = 5) :
    Downloaded parse file attempt state
      (some (.retryableErr (.received response.status)), state.receive response)
  | refused {response : Response} {cause : Cause} (answered : attempt.response = some response)
    (noServer : response.status / 100 ≠ 5) (noSuccess : response.status / 100 ≠ 2) :
    Downloaded parse file attempt state (some (.plain cause), state.receive response)
  | kept {response : Response} (accepted : Accepted attempt response)
    (kept : Kept parse file state.files response) :
    Downloaded parse file attempt state (none, state.receive response)
  | stored {response : Response} {result : Option Error × State}
    (accepted : Accepted attempt response) (notKept : ¬Kept parse file state.files response)
    (stored : Stored parse file attempt response (state.receive response) result) :
    Downloaded parse file attempt state result

theorem downloaded : Downloaded parse file attempt state (download parse file attempt state) := by
  unfold download getCache
  cases answered : attempt.response with
  | none => exact .lost answered
  | some response =>
    dsimp only
    by_cases missing : response.status = 404
    · rw [if_pos missing]
      exact .refused answered (by omega) (by omega)
    · rw [if_neg missing]
      unfold retryOnServerError
      by_cases success : response.status / 100 = 2
      · rw [if_pos success]
        dsimp only
        split
        · rename_i kept
          exact .kept ⟨answered, success⟩ kept
        · rename_i notKept
          exact .stored ⟨answered, success⟩ notKept stored
      · rw [if_neg success]
        by_cases server : response.status / 100 = 5
        · rw [if_pos server]
          exact .server answered server
        · rw [if_neg server]
          exact .refused answered server success

theorem download_accepted (accepted : Accepted attempt response) :
    Kept parse file state.files response ∧
        download parse file attempt state = (none, state.receive response) ∨
      ¬Kept parse file state.files response ∧ Stored parse file attempt response
        (state.receive response) (download parse file attempt state) := by
  have done := @downloaded parse file attempt state
  generalize download parse file attempt state = result at done ⊢
  cases done with
  | lost unanswered => cases unanswered.symm.trans accepted.1
  | server answered server =>
    cases answered.symm.trans accepted.1
    cases accepted.2.symm.trans server
  | refused answered _ noSuccess =>
    cases answered.symm.trans accepted.1
    exact (noSuccess accepted.2).elim
  | kept same kept =>
    cases same.1.symm.trans accepted.1
    exact .inl ⟨kept, rfl⟩
  | stored same notKept stored =>
    cases same.1.symm.trans accepted.1
    exact .inr ⟨notKept, stored⟩

theorem Stored.failed_files (stored : Stored parse file attempt response state result)
    (failed : result.1 ≠ none) : result.2.files = state.files := by
  cases stored with
  | refused => rfl
  | broken opens => exact files_put_none opens.2 write_files
  | @dropped name opens =>
    obtain ⟨modTime, finished⟩ := @finish_files parse file name
      (state.write file name attempt.now response) attempt response
    rw [write_files, update_idem] at finished
    exact files_put_none opens.2 finished
  | renamed => exact (failed rfl).elim

theorem Downloaded.failed_files (downloaded : Downloaded parse file attempt state result)
    (failed : result.1 ≠ none) : result.2.files = state.files := by
  cases downloaded with
  | lost | server | refused => rfl
  | kept => exact (failed rfl).elim
  | stored _ _ stored => exact stored.failed_files failed

theorem Stored.extends (stored : Stored parse file attempt response state result) :
    Extends state result.2 := by
  cases stored with
  | refused => exact .refl _
  | broken => exact extends_write.trans (extends_change _)
  | dropped => exact extends_write.trans (extends_finish.trans (extends_change _))
  | renamed =>
    exact extends_write.trans (extends_finish.trans ((extends_change _).trans (extends_change _)))

theorem Downloaded.responses (downloaded : Downloaded parse file attempt state result) :
    result.2.responses = state.responses ++ attempt.response.toList := by
  cases downloaded with
  | lost unanswered =>
    rw [unanswered]
    exact (append_nil _).symm
  | server answered | refused answered =>
    rw [answered]
    rfl
  | kept accepted =>
    rw [accepted.1]
    rfl
  | stored accepted _ stored =>
    rw [accepted.1]
    exact stored.extends.responses

theorem Downloaded.moments_subset (downloaded : Downloaded parse file attempt state result) :
    state.moments ⊆ result.2.moments := by
  cases downloaded with
  | lost | server | refused | kept => exact List.Subset.refl _
  | stored _ _ stored => exact stored.extends.moments

section

variable (stored : Stored parse file attempt response state result)

include stored

/-- A temporary file that is `--file` itself shows the beginning of the body. -/
theorem Stored.mem_moments (opens : Opens state.files attempt file) :
    some ⟨[], attempt.now, true⟩ ∈ result.2.moments := by
  have seen : some ⟨[], attempt.now, true⟩ ∈
      (state.write file file attempt.now response).moments := mem_moments_write
  cases stored with
  | refused noName => exact (noName ⟨file, opens⟩).elim
  | broken other =>
    cases opens.1.symm.trans other.1
    exact (extends_change _).moments seen
  | dropped other =>
    cases opens.1.symm.trans other.1
    exact (extends_change _).moments (extends_finish.moments seen)
  | renamed other =>
    cases opens.1.symm.trans other.1
    exact (extends_change _).moments ((extends_change _).moments (extends_finish.moments seen))

theorem Stored.retryable_iff :
    (∃ cause, result.1 = some (.retryableErr cause)) ↔
      (∃ name, Opens state.files attempt name) ∧ response.ends = false := by
  cases stored with
  | refused noName => exact ⟨nofun, fun retryable => (noName retryable.1).elim⟩
  | broken opens breaks => exact ⟨fun _ => ⟨⟨_, opens⟩, breaks⟩, fun _ => ⟨.body, rfl⟩⟩
  | dropped _ ends | renamed _ ends => simp [ends]

theorem Stored.succeeds_iff :
    result.1 = none ↔
      (∃ name, Opens state.files attempt name) ∧ response.ends = true ∧
        attempt.closeFails = false ∧ attempt.renameFails = false := by
  cases stored with
  | refused noName => exact ⟨nofun, fun succeeds => (noName succeeds.1).elim⟩
  | broken opens breaks => simp [breaks]
  | dropped _ _ fails => exact ⟨nofun, fun succeeds => (fails succeeds.2.2).elim⟩
  | renamed opens ends works => exact ⟨fun _ => ⟨⟨_, opens⟩, ends, works⟩, fun _ => rfl⟩

end

theorem Downloaded.retryable_iff (downloaded : Downloaded parse file attempt state result) :
    (∃ cause, result.1 = some (.retryableErr cause)) ↔
      Retryable parse file state.files attempt := by
  cases downloaded with
  | lost unanswered => exact ⟨fun _ => .inl unanswered, fun _ => ⟨.network, rfl⟩⟩
  | server answered server => exact ⟨fun _ => .inr ⟨_, answered, .inl server⟩, fun _ => ⟨_, rfl⟩⟩
  | refused answered noServer noSuccess => simp [Retryable, answered, noServer, noSuccess]
  | kept accepted kept => simp [Retryable, accepted.1, accepted.2, kept]
  | stored accepted notKept stored =>
    rw [stored.retryable_iff]
    simp [Retryable, accepted.1, accepted.2, notKept, State.receive]

theorem Downloaded.succeeds_iff (downloaded : Downloaded parse file attempt state result) :
    result.1 = none ↔
      ∃ response, Accepted attempt response ∧
        Succeeds parse file state.files attempt response := by
  cases downloaded with
  | lost unanswered => simp [Accepted, unanswered]
  | server answered server => simp [Accepted, answered, server]
  | refused answered _ noSuccess => simp [Accepted, answered, noSuccess]
  | kept accepted kept => exact ⟨fun _ => ⟨_, accepted, .inl kept⟩, fun _ => rfl⟩
  | stored accepted notKept stored =>
    rw [stored.succeeds_iff]
    refine ⟨fun works => ⟨_, accepted, .inr works⟩, ?_⟩
    rintro ⟨other, same, succeeds⟩
    cases accepted.1.symm.trans same.1
    exact succeeds.resolve_left notKept

variable {initial : Option Entry}

/-- A file that stays instead of an answer with a valid date is not older. -/
theorem kept_date (unchanged : state.files file = initial)
    (kept : Kept parse file state.files response) (valid : (parse response.lastModified).isSome) :
    ∃ entry date, initial = some entry ∧ parse response.lastModified = some date ∧
      date ≤ entry.modTime := by
  obtain ⟨date, parsed⟩ := isSome_iff_exists.mp valid
  rw [Kept, unchanged, Response.date, parsed] at kept
  cases initial with
  | none => cases kept
  | some entry =>
    refine ⟨entry, date, rfl, parsed, ?_⟩
    simpa [checkIfUpToDate] using kept

/-- With a temporary file beside `--file`, `--file` stays whole, and after a success it
holds the body. -/
theorem Stored.calm (stored : Stored parse file attempt response state result)
    (calm : Calm file initial state)
    (apart : ∀ name, Opens state.files attempt name → name ≠ file) :
    (∀ moment ∈ result.2.moments, Whole initial moment) ∧
      (result.1 = none → Holds (result.2.files file) response) := by
  have written (name : List UInt8) (beside : name ≠ file) :
      Calm file initial (state.write file name attempt.now response) :=
    (calm.put beside _).copy beside _ _ _
  cases stored with
  | refused => exact ⟨calm.whole, nofun⟩
  | @broken name opens =>
    have beside := apart name opens
    exact ⟨((written name beside).put beside none).whole, nofun⟩
  | @dropped name opens =>
    have beside := apart name opens
    exact ⟨(((written name beside).finish beside).put beside none).whole, nofun⟩
  | @renamed name opens ends =>
    have beside := apart name opens
    obtain ⟨modTime, complete⟩ := @finish_files parse file name
      (state.write file name attempt.now response) attempt response
    have renamed : ((((state.write file name attempt.now response).finish parse file name
        attempt response).rename file name).files file) = some ⟨response.body, modTime, false⟩ := by
      rw [rename_files, complete, update_self]
    have kept : (((((state.write file name attempt.now response).finish parse file name
        attempt response).rename file name).put file name none).files file) =
          some ⟨response.body, modTime, false⟩ :=
      (update_of_ne beside.symm _ _).trans renamed
    refine ⟨whole_change (whole_change ((written name beside).finish beside).whole ?_) ?_,
      fun _ => ⟨_, kept, rfl, ends⟩⟩
    · exact .inr ⟨_, renamed, rfl⟩
    · exact .inr ⟨_, kept, rfl⟩

/-- What a proper attempt does: `--file` stays whole, and after a success it holds the
body of a 200 answer, or stays because of a valid date. -/
theorem Downloaded.proper (downloaded : Downloaded parse file attempt state result)
    (calm : Calm file initial state) (proper : ∀ response, Accepted attempt response →
      Proper parse file state.files attempt response) :
    (∀ moment ∈ result.2.moments, Whole initial moment) ∧
      (result.1 = none →
        ∃ response, attempt.response = some response ∧ response.status = 200 ∧
          (Holds (result.2.files file) response ∨
            result.2.files file = initial ∧
              ∃ entry date, initial = some entry ∧
                parse response.lastModified = some date ∧ date ≤ entry.modTime)) := by
  cases downloaded with
  | lost | server | refused => exact ⟨calm.whole, nofun⟩
  | kept accepted kept =>
    have isProper := proper _ accepted
    refine ⟨calm.whole, fun _ => ⟨_, accepted.1, isProper.status (.inl kept), ?_⟩⟩
    rcases isProper.dated kept with valid | holds
    · exact .inr ⟨calm.unchanged, kept_date calm.unchanged kept valid⟩
    · exact .inl holds
  | stored accepted notKept stored =>
    have isProper := proper _ accepted
    obtain ⟨whole, holds⟩ := stored.calm ⟨calm.unchanged, calm.whole⟩ (isProper.apart notKept)
    refine ⟨whole, fun works => ⟨_, accepted.1, ?_, .inl (holds works)⟩⟩
    exact isProper.status (.inr (stored.succeeds_iff.mp works))

end Attempts

section Retries

variable {parse : List UInt8 → Option Int} {file : List UInt8} {attempts : Nat → Attempt}
  {files : Files} {state before : State} {count calls retries : Nat}

/-- The 200 answers so far: they did not let the file stay, and their bodies broke off. -/
def Unused (parse : List UInt8 → Option Int) (file : List UInt8) (files : Files)
    (state : State) : Prop :=
  ∀ response ∈ state.responses, response.status = 200 →
    ¬Kept parse file files response ∧ response.ends = false

/-- Where the retries are before a call: no file has changed, no 200 answer could be used, and
`--file` is calm if the accepted answers were proper. -/
structure Retrying (parse : List UInt8 → Option Int) (file : List UInt8) (files : Files)
    (attempts : Nat → Attempt) (calls : Nat) (state : State) : Prop where
  unchanged : state.files = files
  unused : Unused parse file files state
  retryable : ∀ earlier < calls, Retryable parse file files (attempts earlier)
  calm : (∀ earlier < calls, ∀ response, Accepted (attempts earlier) response →
    Proper parse file files (attempts earlier) response) → Calm file (files file) state

theorem Retrying.start : Retrying parse file files attempts 0 (.start files) :=
  ⟨rfl, nofun, nofun, fun _ => ⟨rfl, nofun⟩⟩

theorem Retrying.next {cause : Cause} {next : State}
    (retrying : Retrying parse file files attempts calls state)
    (asked : downloads parse file attempts calls state = (some (.retryableErr cause), next)) :
    Retrying parse file files attempts (calls + 1) next := by
  have done := @downloaded parse file (attempts calls) state
  rw [show download _ _ _ _ = _ from asked] at done
  have same := (done.failed_files nofun).trans retrying.unchanged
  have retryable := done.retryable_iff.mp ⟨cause, rfl⟩
  rw [retrying.unchanged] at retryable
  refine ⟨same, ?_, ?_, ?_⟩
  · intro response member isOK
    rw [done.responses, mem_append, mem_toList] at member
    rcases member with old | new
    · exact retrying.unused response old isOK
    · rcases retryable with none | ⟨other, answered, server | ⟨-, notKept, -, breaks⟩⟩
      · cases none.symm.trans new
      · cases answered.symm.trans new
        rw [isOK] at server
        exact absurd server (by decide)
      · cases answered.symm.trans new
        exact ⟨notKept, breaks⟩
  · intro earlier isEarlier
    rcases Nat.lt_succ_iff_lt_or_eq.mp isEarlier with before | rfl
    · exact retrying.retryable earlier before
    · exact retryable
  · intro proper
    have calm := retrying.calm fun earlier isEarlier => proper earlier (Nat.lt_succ_of_lt isEarlier)
    have last := proper calls (Nat.lt_succ_self calls)
    rw [← retrying.unchanged] at last
    exact ⟨congrFun same file, (done.proper calm last).1⟩

theorem Retrying.of_retried
    (reached : retried (downloads parse file attempts) count 0 (.start files) = some before) :
    Retrying parse file files attempts count before := by
  have retrying := retried_invariant Retrying.next .start reached
  rwa [Nat.zero_add] at retrying

theorem exists_retried (unchanged : state.files = files)
    (retryable : ∀ earlier < calls + count, Retryable parse file files (attempts earlier)) :
    ∃ before, retried (downloads parse file attempts) count calls state = some before := by
  induction count generalizing calls state with
  | zero => exact ⟨state, rfl⟩
  | succ count ih =>
    have first := retryable calls (by omega)
    rw [← unchanged, ← downloaded.retryable_iff] at first
    obtain ⟨cause, asked⟩ := first
    have same := downloaded.failed_files (by rw [asked]; nofun)
    obtain ⟨before, reached⟩ := @ih _ (calls + 1) (same.trans unchanged)
      fun earlier isEarlier => retryable earlier (by omega)
    exact ⟨before, retried_succ_eq_some.mpr ⟨cause, _, Prod.ext asked rfl, reached⟩⟩

theorem moments_doRetry_subset :
    (download parse file (attempts calls) state).2.moments ⊆
      (doRetry (downloads parse file attempts) retries calls state).2.moments := by
  refine @doRetry_keeps _ _ (fun later : State =>
    (download parse file (attempts calls) state).2.moments ⊆ later.moments) ?_ _ _ _ ?_
  · intro calls later contained
    exact List.Subset.trans contained downloaded.moments_subset
  · exact List.Subset.refl _

end Retries

section Main

variable {parse : List UInt8 → Option Int} {file : List UInt8} {attempt : Attempt}
  {response : Response} {files : Files} {state : State}

theorem lastOK_download (answered : attempt.response = some response)
    (isOK : response.status = 200) :
    (download parse file attempt state).2.lastOK = some response := by
  rw [State.lastOK, downloaded.responses, answered, toList_some, filter_append,
    filter_singleton, isOK]
  exact List.getLast?_concat

/-- Without a 200 answer in the last attempt, the last 200 answer is an unused one. -/
theorem lastOK_unused (unused : Unused parse file files state)
    (answered : attempt.response = some response) (notOK : response.status ≠ 200)
    {last : Response} (isLast : (download parse file attempt state).2.lastOK = some last) :
    ¬Kept parse file files last ∧ last.ends = false := by
  have member := mem_of_getLast? isLast
  rw [mem_filter, downloaded.responses, answered, toList_some, mem_append,
    mem_singleton, decide_eq_true_eq] at member
  obtain ⟨old | rfl, isOK⟩ := member
  · exact unused last old isOK
  · exact (notOK isOK).elim

section Fresh

variable {retries calls : Nat} {attempts : Nat → Attempt}

/-- A download ends with an answer that makes an attempt succeed. -/
theorem doRetry_of_succeeds (unchanged : state.files = files)
    (accepted : Accepted (attempts calls) response)
    (succeeds : Succeeds parse file files (attempts calls) response) :
    doRetry (downloads parse file attempts) retries calls state =
        download parse file (attempts calls) state ∧
      (download parse file (attempts calls) state).1 = none := by
  have works : (download parse file (attempts calls) state).1 = none :=
    downloaded.succeeds_iff.mpr ⟨response, accepted, unchanged ▸ succeeds⟩
  refine ⟨doRetry_of_ends ?_, works⟩
  intro cause asked
  cases works.symm.trans asked

variable (unchanged : state.files = files) (unused : Unused parse file files state)
  (fresh : FreshAndAtomic parse file files
    (doRetry (downloads parse file attempts) retries calls state))
  (accepted : Accepted (attempts calls) response)

include unchanged fresh accepted

/-- A temporary file that is `--file` itself would show the beginning of the body. -/
theorem apart_of_fresh (notKept : ¬Kept parse file files response) :
    ¬Opens files (attempts calls) file := by
  intro opens
  have seen : some ⟨[], (attempts calls).now, true⟩ ∈
      (download parse file (attempts calls) state).2.moments := by
    rcases @download_accepted parse file _ response state accepted with
      ⟨kept, -⟩ | ⟨-, stored⟩
    · exact (notKept (unchanged ▸ kept)).elim
    · exact stored.mem_moments ⟨opens.1, unchanged ▸ opens.2⟩
  rcases fresh.whole _ (moments_doRetry_subset seen) with same | ⟨entry, same, finished⟩
  · rw [opens.2] at same
    cases same
  · cases same
    cases finished

include unused

/-- The answer that ends a fresh download has status 200: the 200 answers before it can
neither be held nor let the file stay. -/
theorem status_of_fresh (succeeds : Succeeds parse file files (attempts calls) response) :
    response.status = 200 := by
  obtain ⟨same, works⟩ := @doRetry_of_succeeds parse file response files state retries calls
    attempts unchanged accepted succeeds
  rw [same] at fresh
  by_contra notOK
  obtain ⟨last, isLast, cases⟩ := fresh.fresh works
  obtain ⟨notKept, breaks⟩ := lastOK_unused unused accepted.1 notOK isLast
  rcases cases with ⟨held, -, -, ends⟩ | ⟨-, entry, date, isThere, parsed, older⟩
  · rw [breaks] at ends
    cases ends
  · apply notKept
    rw [Kept, isThere, Response.date, parsed]
    simpa [checkIfUpToDate] using older

/-- A file that stays after a fresh download stays because of a valid date, or it holds
the body already. -/
theorem dated_of_fresh (kept : Kept parse file files response) :
    (parse response.lastModified).isSome ∨ Holds (files file) response := by
  have isOK := status_of_fresh unchanged unused fresh accepted (.inl kept)
  obtain ⟨same, works⟩ := @doRetry_of_succeeds parse file response files state retries calls
    attempts unchanged accepted (.inl kept)
  rw [same] at fresh
  obtain ⟨last, isLast, cases⟩ := fresh.fresh works
  cases isLast.symm.trans (lastOK_download accepted.1 isOK)
  rcases cases with holds | ⟨-, entry, date, -, parsed, -⟩
  · right
    rcases @download_accepted parse file _ response state accepted with
      ⟨-, received⟩ | ⟨notKept, -⟩
    · rw [received] at holds
      exact unchanged ▸ holds
    · exact (notKept (unchanged ▸ kept)).elim
  · exact .inl (parsed ▸ rfl)

theorem proper_of_fresh : Proper parse file files (attempts calls) response where
  apart := by
    rintro notKept name opens rfl
    exact apart_of_fresh unchanged fresh accepted notKept opens
  status := status_of_fresh unchanged unused fresh accepted
  dated := dated_of_fresh unchanged unused fresh accepted

end Fresh

end Main

/-- The download step is fresh and atomic exactly if the accepted answers of all attempts
that are made are proper. -/
theorem downloadStep_fresh_iff (parse : List UInt8 → Option Int) (file : List UInt8)
    (files : Files) (retry : Int) (attempts : Nat → Attempt) :
    FreshAndAtomic parse file files (downloadStep parse file retry attempts (.start files)) ↔
      Trustworthy parse file files retry attempts := by
  constructor
  · intro fresh count few retryable response accepted
    obtain ⟨before, reached⟩ := @exists_retried parse file attempts files (.start files) count 0
      rfl (by simpa using retryable)
    have retrying := Retrying.of_retried reached
    rw [downloadStep, doRetry_retried few reached, Nat.zero_add] at fresh
    exact proper_of_fresh retrying.unchanged retrying.unused fresh accepted
  · intro trustworthy
    obtain ⟨count, few, before, reached, same⟩ :=
      @doRetry_cases _ (downloads parse file attempts) retry.toNat 0 (.start files)
    obtain ⟨unchanged, unused, retryable, calmIf⟩ := Retrying.of_retried reached
    have calm := calmIf fun earlier isEarlier =>
      trustworthy earlier (isEarlier.le.trans few) fun evenEarlier isBefore =>
        retryable evenEarlier (isBefore.trans isEarlier)
    have last := (@downloaded parse file (attempts count) before).proper calm (by
      rw [unchanged]
      exact trustworthy count few retryable)
    have result : downloadStep parse file retry attempts (.start files) =
        download parse file (attempts count) before := by
      rw [downloadStep, same, Nat.zero_add]
      rfl
    rw [result]
    constructor
    · intro failed
      rw [downloaded.failed_files failed, unchanged]
    · intro works
      obtain ⟨response, answered, isOK, cases⟩ := last.2 works
      exact ⟨response, lastOK_download answered isOK, cases⟩
    · exact last.1

def localArchive (path : List UInt8) : Option Entry :=
  if path = ascii "cache.zip" then some ⟨ascii "old", 0, false⟩ else none

/-- The server sends a new archive without a `Last-Modified` header. -/
def undated : Attempt where
  response := some ⟨200, [], [ascii "n", ascii "ew"], true⟩
  temporary := some (ascii "cache1")
  now := 1
  changesTimes := true
  closeFails := false
  renameFails := false

/-- The old archive stays although the answer has no date to compare it with. -/
theorem undated_answer_ignored :
    ¬∀ (parse : List UInt8 → Option Int) (file : List UInt8) (files : Files) (retry : Int)
      (attempts : Nat → Attempt), parse [] = none →
      FreshAndAtomic parse file files (downloadStep parse file retry attempts (.start files)) := by
  intro fresh
  have stale := fresh (fun _ => none) (ascii "cache.zip") localArchive 2 (fun _ => undated) rfl
  obtain ⟨response, isLast, ⟨held, isHeld, sameBody, -⟩ | ⟨-, _, _, -, parsed, -⟩⟩ :=
    stale.fresh (by decide +kernel)
  · have sent : response.body = ascii "new" := by
      cases isLast
      decide +kernel
    have kept : held.content = ascii "old" := by
      cases isHeld
      rfl
    rw [sent, kept] at sameBody
    exact absurd sameBody (by decide)
  · cases parsed

end GitlabRunner.CacheDownload
