import GitlabRunner.BuildOptions

/-!
# The local cache archive of a job

`cacheFile` of `shells/abstract.go` names the archive of a cache: the cache directory of the
project, the expanded key and `cache.zip` are joined, and the result is written relative to
the build directory.
-/

namespace GitlabRunner.CacheFiles

open ByteText SlashPaths Directory Payload

def cacheZip : List UInt8 := ascii "cache.zip"

/-- The key of a cache: what the user wrote, expanded, or the job's name and ref. -/
def cacheKey (app : AppVersion) (job : Job) (userKey : List UInt8) : List UInt8 :=
  if userKey ≠ [] then (job.allJobVariables app).expandValue userKey
  else join [job.name, job.gitInfo.ref]

def cacheFile (app : AppVersion) (job : Job) (userKey : List UInt8) :
    List UInt8 × List UInt8 :=
  if job.cacheDir = [] then ([], [])
  else
    let key := cacheKey app job userKey
    if key = [] then ([], [])
    else
      match rel job.buildDir (join [job.cacheDir, key, cacheZip]) with
      | none => ([], [])
      | some file => (key, file)

/-- A relative path leads back into the directory it starts from and then further
down. -/
def ReturnsBelow (dir path : List UInt8) : Prop :=
  ReturnsTo dir path ∧
    (place dir).take (relative (elements path)).climb ≠ (relative (elements path)).entered

instance (dir path : List UInt8) : Decidable (ReturnsBelow dir path) :=
  inferInstanceAs (Decidable (_ ∧ _))

/-- A path joined to a rooted directory lies strictly below it exactly if it leads back
below it. -/
theorem below_join_iff {dir : List UInt8} (absolute : rooted dir = true) (path : List UInt8) :
    Below (clean dir) (clean (join [dir, path])) ↔ ReturnsBelow dir path := by
  have nonempty : dir ≠ [] := by
    rintro rfl
    cases absolute
  have sameRoot : rooted dir = rooted (join [dir, path]) := (rooted_join nonempty _).symm
  rw [below_clean_iff, place_join_iff absolute, ReturnsBelow]
  constructor
  · rintro ⟨-, returns, apart⟩
    refine ⟨returns, fun same => apart ?_⟩
    rw [place_join_rooted absolute, ← same, List.take_append_drop]
  · rintro ⟨returns, further⟩
    refine ⟨sameRoot, returns, fun same => further ?_⟩
    rw [place_join_rooted absolute] at same
    have split := List.take_append_drop (relative (elements path)).climb (place dir)
    exact List.append_cancel_right (split.trans same)

/-- Between rooted directories a key has its archive, and the file leads to it. -/
theorem cacheFile_of_key {app : AppVersion} {job : Job} {userKey : List UInt8}
    (cacheRooted : rooted job.cacheDir = true) (buildRooted : rooted job.buildDir = true)
    (hasKey : cacheKey app job userKey ≠ []) :
    (cacheFile app job userKey).2 ≠ [] ∧
      place (join [job.buildDir, (cacheFile app job userKey).2]) =
        place (join [job.cacheDir, cacheKey app job userKey ++ slash :: cacheZip]) := by
  have nonempty : job.cacheDir ≠ [] := by
    intro empty
    rw [empty] at cacheRooted
    cases cacheRooted
  have archiveRooted : rooted (join [job.cacheDir, cacheKey app job userKey, cacheZip]) =
      true := (rooted_join nonempty _).trans cacheRooted
  obtain ⟨_, _, _, -, -, -, related⟩ := rel_rooted buildRooted archiveRooted
  rw [cacheFile, if_neg nonempty, if_neg hasKey, related]
  refine ⟨rel_ne_nil buildRooted archiveRooted related, ?_⟩
  rw [place_join_rel buildRooted archiveRooted related, place_join nonempty,
    place_join nonempty, List.flatMap_singleton, elements_append_slash]
  simp

/-- Between rooted directories, a local cache archive lies below the cache directory
exactly if there is no key, or the key with `cache.zip` leads back below the
directory. -/
theorem cacheFile_below_iff (app : AppVersion) (job : Job) (userKey : List UInt8)
    (cacheRooted : rooted job.cacheDir = true) (buildRooted : rooted job.buildDir = true) :
    ((cacheFile app job userKey).2 ≠ [] →
        Below (clean job.cacheDir) (clean (join [job.buildDir, (cacheFile app job userKey).2]))) ↔
      cacheKey app job userKey = [] ∨
        ReturnsBelow job.cacheDir (cacheKey app job userKey ++ slash :: cacheZip) := by
  by_cases hasKey : cacheKey app job userKey = []
  · have noFile : (cacheFile app job userKey).2 = [] := by
      rw [cacheFile]
      split
      · rfl
      · rw [if_pos hasKey]
    exact ⟨fun _ => .inl hasKey, fun _ file => (file noFile).elim⟩
  · obtain ⟨file, leads⟩ := cacheFile_of_key cacheRooted buildRooted hasKey
    have cacheNonempty : job.cacheDir ≠ [] := by
      intro empty
      rw [empty] at cacheRooted
      cases cacheRooted
    have buildNonempty : job.buildDir ≠ [] := by
      intro empty
      rw [empty] at buildRooted
      cases buildRooted
    have sameRoot : rooted (join [job.buildDir, (cacheFile app job userKey).2]) =
        rooted (join [job.cacheDir, cacheKey app job userKey ++ slash :: cacheZip]) := by
      rw [rooted_join buildNonempty, rooted_join cacheNonempty, buildRooted, cacheRooted]
    rw [← below_join_iff cacheRooted, below_clean_iff, below_clean_iff, leads, sameRoot]
    exact ⟨fun below => .inr (below file), fun below _ => below.resolve_left hasKey⟩

def cachingJob (key value : String) : Job where
  toBuild := { cloningBuild "" with
    jobVariables := [⟨ascii key, ascii value, true, false, false, false⟩]
    rootDir := ascii "/builds"
    buildDir := ascii "/builds/group/project"
    cacheDir := ascii "/cache/group/project" }
  id := 1
  jobToken := []
  name := ascii "test"
  gitInfo := ⟨ascii "master", [], [], 0⟩
  allowGitFetch := false
  steps := []
  caches := []
  artifacts := []
  dependencies := []
  runnerURL := []
  cloneURL := []
  hostname := []
  debugTraceDisabled := false

theorem cacheFile_below_project :
    (cacheFile plainVersion (cachingJob "SLUG" "feature") (ascii "$SLUG/gems")).2 =
        ascii "../../../cache/group/project/feature/gems/cache.zip" ∧
      Below (clean (ascii "/cache/group/project")) (clean (join [ascii "/builds/group/project",
        (cacheFile plainVersion (cachingJob "SLUG" "feature") (ascii "$SLUG/gems")).2])) := by
  have file : (cacheFile plainVersion (cachingJob "SLUG" "feature")
      (ascii "$SLUG/gems")).2 =
        ascii "../../../cache/group/project/feature/gems/cache.zip" := by decide +kernel
  refine ⟨file, (cacheFile_below_iff plainVersion (cachingJob "SLUG" "feature")
    (ascii "$SLUG/gems") (by decide) (by decide)).mpr (.inr (by decide +kernel)) ?_⟩
  rw [file]
  decide

/-- The value of a variable leads a key into the cache directory of another project. -/
theorem cacheFile_beside :
    ¬∀ (app : AppVersion) (job : Job) (userKey : List UInt8),
      rooted job.cacheDir = true → rooted job.buildDir = true →
      (cacheFile app job userKey).2 ≠ [] →
      Below (clean job.cacheDir) (clean (join [job.buildDir, (cacheFile app job userKey).2])) := by
  intro below
  have file : (cacheFile plainVersion (cachingJob "SLUG" "../other") (ascii "$SLUG")).2 =
      ascii "../../../cache/group/other/cache.zip" := by decide +kernel
  have contained := below plainVersion (cachingJob "SLUG" "../other") (ascii "$SLUG")
    (by decide) (by decide)
  rw [file] at contained
  exact absurd (contained (by decide)) (by decide +kernel)

end GitlabRunner.CacheFiles
