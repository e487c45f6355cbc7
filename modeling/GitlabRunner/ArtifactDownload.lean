import Mathlib.Order.Nat

/-!
# Downloading artifacts

`DownloadArtifacts` of `network/gitlab.go` writes the body of an answer to a file.  One
error stands for a file that could not be created and for a body that could not be copied,
and what is cleaned up then is the file.
-/

namespace GitlabRunner.ArtifactDownload

/-- The outcome of the request: no answer, or a status and a body. -/
inductive Response where
  | failed
  | answered (status : Nat) (body : List UInt8)
  deriving DecidableEq, Repr

/-- The outcomes of `os.Create`, and of `io.Copy`, which may fail behind some bytes. -/
structure Writing where
  created : Bool
  copyFails : Option Nat
  deriving DecidableEq, Repr

inductive DownloadState where
  | succeeded
  | failed
  | forbidden
  | notFound
  deriving DecidableEq, Repr

/-- The read of the name of a file that is nil. -/
structure NilDereference where
  deriving DecidableEq, Repr

abbrev Target := Option (List UInt8)

/-- `file.Close`, which answers a nil file with an error, and `os.Remove(file.Name())`. -/
def removeFile (file : Option Target) : Except NilDereference Target :=
  match file with
  | none => .error ⟨⟩
  | some _ => .ok none

/-- The answer, and the target that is left.  `file` is the open file, or nil. -/
def downloadArtifacts (response : Response) (writing : Writing) (target : Target) :
    Except NilDereference DownloadState × Target :=
  match response with
  | .failed => (.ok .failed, target)
  | .answered status body =>
    if status = 200 then
      let file : Option Target :=
        if writing.created then some (some (match writing.copyFails with
          | none => body
          | some count => body.take count))
        else none
      let failed := !writing.created || writing.copyFails.isSome
      if failed then
        match removeFile file with
        | .error panic => (.error panic, file.getD target)
        | .ok removed => (.ok .failed, removed)
      else (.ok .succeeded, file.getD target)
    else if status = 403 then (.ok .forbidden, target)
    else if status = 404 then (.ok .notFound, target)
    else (.ok .failed, target)

/-- The errors of `download`: `retryableErr` wraps `os.ErrInvalid`. -/
inductive Error where
  | notExist
  | permission
  | retryableErr
  deriving DecidableEq, Repr

def downloadError : DownloadState → Option Error
  | .succeeded => none
  | .notFound => some .notExist
  | .forbidden => some .permission
  | .failed => some .retryableErr

def download (response : Response) (writing : Writing) (target : Target) :
    Except NilDereference (Option Error) × Target :=
  match downloadArtifacts response writing target with
  | (.error panic, left) => (.error panic, left)
  | (.ok state, left) => (.ok (downloadError state), left)

/-- The file could not be written, although the answer was the archive. -/
def WritingFails (response : Response) (writing : Writing) : Prop :=
  (∃ body, response = .answered 200 body) ∧
    (writing.created = false ∨ writing.copyFails ≠ none)

/-- The target that was there before, or none if it was truncated. -/
def NotPartial (writing : Writing) (target left : Target) : Prop :=
  if writing.created then left = none else left = target

structure FailsCleanly (response : Response) (writing : Writing) (target : Target) : Prop where
  returns : ∃ state, (downloadArtifacts response writing target).1 = .ok state
  complete : (downloadArtifacts response writing target).1 = .ok .succeeded →
    ∃ body, response = .answered 200 body ∧
      (downloadArtifacts response writing target).2 = some body
  failed : WritingFails response writing →
    (downloadArtifacts response writing target).1 = .ok .failed ∧
      NotPartial writing target (downloadArtifacts response writing target).2 ∧
      (download response writing target).1 = .ok (some .retryableErr)

theorem failsCleanly_of_status {status : Nat} (body : List UInt8) (writing : Writing)
    (target : Target) (other : status ≠ 200) :
    FailsCleanly (.answered status body) writing target := by
  have notArchive : ¬ WritingFails (.answered status body) writing := by
    rintro ⟨⟨archive, isArchive⟩, _⟩
    cases isArchive
    exact other rfl
  refine ⟨?_, ?_, fun fails => (notArchive fails).elim⟩
  · simp only [downloadArtifacts, if_neg other]
    split
    · exact ⟨_, rfl⟩
    · split
      · exact ⟨_, rfl⟩
      · exact ⟨_, rfl⟩
  · simp only [downloadArtifacts, if_neg other]
    split
    · nofun
    · split
      · nofun
      · nofun

/-- A download fails cleanly unless the file for the archive cannot be created. -/
theorem failsCleanly_iff (response : Response) (writing : Writing) (target : Target) :
    FailsCleanly response writing target ↔
      ¬ ((∃ body, response = .answered 200 body) ∧ writing.created = false) := by
  obtain ⟨created, copyFails⟩ := writing
  cases response with
  | failed => exact ⟨fun _ => nofun, fun _ => ⟨⟨_, rfl⟩, nofun, nofun⟩⟩
  | answered status body =>
    by_cases archive : status = 200
    · subst archive
      cases created with
      | false =>
        constructor
        · rintro ⟨⟨state, returned⟩, -, -⟩
          cases returned
        · exact fun creatable => (creatable ⟨⟨body, rfl⟩, rfl⟩).elim
      | true =>
        refine ⟨fun _ => nofun, fun _ => ?_⟩
        cases copyFails with
        | none => exact ⟨⟨_, rfl⟩, fun _ => ⟨body, rfl, rfl⟩, by simp [WritingFails]⟩
        | some count => exact ⟨⟨_, rfl⟩, nofun, fun _ => ⟨rfl, rfl, rfl⟩⟩
    · refine ⟨fun _ found => ?_, fun _ => failsCleanly_of_status body _ target archive⟩
      obtain ⟨⟨found, isFound⟩, _⟩ := found
      cases isFound
      exact archive rfl

/-- The target is a directory that is not there. -/
theorem uncreatable_target_dereferenced :
    ¬ FailsCleanly (.answered 200 [80, 75]) ⟨false, none⟩ none := by
  rintro ⟨⟨state, returned⟩, -, -⟩
  cases returned

end GitlabRunner.ArtifactDownload
