import GitlabRunner.SlashPaths

/-!
# The files of an archive

`fileArchiver` of `commands/helpers/file_archiver.go` collects the files that the patterns
of a job match and the files that git does not track.
-/

namespace GitlabRunner.Archiver

open ByteText SlashPaths List

structure FileInfo where
  modTime : Int
  deriving DecidableEq, Repr

abbrev FileMap := List (List UInt8 × FileInfo)

def FileMap.insert (files : FileMap) (path : List UInt8) (info : FileInfo) : FileMap :=
  files.filter (fun entry => entry.1 ≠ path) ++ [(path, info)]

/-- The reasons why a path is not taken, and the error of `os.Getwd`. -/
inductive Error where
  | notExist
  | outsideBuildDirectory
  | returned
  deriving DecidableEq, Repr

structure FileArchiver where
  paths : List (List UInt8)
  untracked : Bool
  deriving DecidableEq, Repr

/-- What the operating system and git answer: the working directory, the matches of a
pattern unless it is malformed, the paths that a walk visits, the output of
`git ls-files -o -z`, and `os.Lstat`. -/
structure Host where
  getwd : Option (List UInt8)
  glob : List UInt8 → Option (List (List UInt8))
  walk : List UInt8 → List (List UInt8)
  lsFiles : Option (List UInt8)
  lstat : List UInt8 → Except Error FileInfo

def abs (wd path : List UInt8) : List UInt8 :=
  if rooted path then clean path else join [wd, path]

def add (host : Host) (files : FileMap) (path : List UInt8) : Except Error FileMap :=
  match host.lstat path with
  | .ok info => .ok (files.insert path info)
  | .error err => .error err

/-- `process`.  A path with an error is logged, unless it does not exist. -/
def process (host : Host) (wd : List UInt8) (files : FileMap) (found : List UInt8) :
    Except Error FileMap :=
  match rel wd (abs wd found) with
  | none => .error .returned
  | some path =>
    if parent ++ [slash] <+: path then .error .outsideBuildDirectory else add host files path

def processed (host : Host) (wd : List UInt8) (files : FileMap) (found : List UInt8) : FileMap :=
  match process host wd files found with
  | .ok more => more
  | .error _ => files

def FileArchiver.processPaths (archiver : FileArchiver) (host : Host) (wd : List UInt8)
    (files : FileMap) : FileMap :=
  archiver.paths.foldl
    (fun files pattern =>
      match host.glob pattern with
      | none => files
      | some found =>
        found.foldl (fun files first => (host.walk first).foldl (processed host wd) files) files)
    files

/-- The loop of `processUntracked` over `ReadString(0)`: what does not end in a zero byte is
dropped. -/
def readStrings (line : List UInt8) : List UInt8 → List (List UInt8)
  | [] => []
  | char :: rest =>
    if char = 0 then line :: readStrings [] rest else readStrings (line ++ [char]) rest

def FileArchiver.processUntracked (archiver : FileArchiver) (host : Host) (wd : List UInt8)
    (files : FileMap) : FileMap :=
  if archiver.untracked then
    match host.lsFiles with
    | none => files
    | some output => (readStrings [] output).foldl (processed host wd) files
  else files

def FileArchiver.enumerate (archiver : FileArchiver) (host : Host) : Except Error FileMap :=
  match host.getwd with
  | none => .error .returned
  | some wd => .ok (archiver.processUntracked host wd (archiver.processPaths host wd []))

/-- The paths that an archiver processes, one after the other. -/
def FileArchiver.candidates (archiver : FileArchiver) (host : Host) : List (List UInt8) :=
  archiver.paths.flatMap (fun pattern => ((host.glob pattern).getD []).flatMap host.walk) ++
    if archiver.untracked then readStrings [] (host.lsFiles.getD []) else []

/-- A path relative to the working directory leads to it or below it. -/
def Inside (wd path : List UInt8) : Prop :=
  clean (join [wd, path]) = wd ∨ Below wd (clean (join [wd, path]))

instance (wd path : List UInt8) : Decidable (Inside wd path) :=
  inferInstanceAs (Decidable (_ ∨ _))

section Enumerate

variable (archiver : FileArchiver) (host : Host) (wd : List UInt8)

theorem processPaths_eq (files : FileMap) :
    archiver.processPaths host wd files = (archiver.paths.flatMap fun pattern =>
        ((host.glob pattern).getD []).flatMap host.walk).foldl (processed host wd) files := by
  unfold FileArchiver.processPaths
  induction archiver.paths generalizing files with
  | nil => rfl
  | cons pattern patterns ih =>
    rw [foldl_cons, ih, flatMap_cons, foldl_append]
    cases host.glob pattern with
    | none => rfl
    | some found =>
      have visited : (found.flatMap host.walk).foldl (processed host wd) files =
          found.foldl (fun files first => (host.walk first).foldl (processed host wd) files)
            files := foldl_flatMap
      rw [Option.getD_some, visited]

theorem processUntracked_eq (files : FileMap) :
    archiver.processUntracked host wd files =
      (if archiver.untracked then readStrings [] (host.lsFiles.getD []) else []).foldl
        (processed host wd) files := by
  unfold FileArchiver.processUntracked
  cases archiver.untracked with
  | false => rfl
  | true =>
    cases host.lsFiles with
    | none => rfl
    | some output => rfl

theorem enumerate_eq (getwd : host.getwd = some wd) :
    archiver.enumerate host = .ok ((archiver.candidates host).foldl (processed host wd) []) := by
  unfold FileArchiver.enumerate FileArchiver.candidates
  rw [getwd, foldl_append, ← processPaths_eq, ← processUntracked_eq]

end Enumerate

variable {files : FileMap}

section Keys

variable {host : Host} {wd : List UInt8}

def accepted (host : Host) (wd found : List UInt8) : Option (List UInt8) :=
  (rel wd (abs wd found)).bind fun path =>
    if parent ++ [slash] <+: path ∨ (host.lstat path).isOk = false then none else some path

theorem mem_keys_insert {path key : List UInt8} {info : FileInfo} :
    key ∈ (files.insert path info).map Prod.fst ↔ key ∈ files.map Prod.fst ∨ key = path := by
  simp only [FileMap.insert, map_append, mem_append, mem_map, mem_filter,
    map_cons, map_nil, mem_singleton, decide_eq_true_eq]
  constructor
  · rintro (⟨entry, ⟨member, -⟩, same⟩ | same)
    · exact .inl ⟨entry, member, same⟩
    · exact .inr same
  · rintro (⟨entry, member, rfl⟩ | same)
    · by_cases here : entry.1 = path
      · exact .inr here
      · exact .inl ⟨entry, ⟨member, here⟩, rfl⟩
    · exact .inr same

theorem mem_keys_processed {found key : List UInt8} :
    key ∈ (processed host wd files found).map Prod.fst ↔
      key ∈ files.map Prod.fst ∨ accepted host wd found = some key := by
  unfold processed process accepted
  cases rel wd (abs wd found) with
  | none => simp
  | some path =>
    by_cases outside : parent ++ [slash] <+: path
    · simp [outside]
    · cases stat : host.lstat path with
      | error err => simp [outside, add, stat, Except.isOk, Except.toBool]
      | ok info =>
        simp only [outside, if_false, add, stat, mem_keys_insert, Option.bind_some,
          Except.isOk, Except.toBool, Bool.true_eq_false, or_self, Option.some.injEq]
        exact or_congr_right eq_comm

theorem mem_keys_foldl {candidates : List (List UInt8)} {key : List UInt8} :
    key ∈ (candidates.foldl (processed host wd) files).map Prod.fst ↔
      key ∈ files.map Prod.fst ∨ ∃ found ∈ candidates, accepted host wd found = some key := by
  induction candidates generalizing files with
  | nil => simp
  | cons first candidates ih =>
    rw [foldl_cons, ih, mem_keys_processed]
    simp only [mem_cons, exists_eq_or_imp, or_assoc]

end Keys

section Containment

variable {host : Host} {wd : List UInt8} (absolute : rooted wd = true)
  (cleaned : clean wd = wd)

include absolute

theorem wd_ne_nil : wd ≠ [] := by
  rintro rfl
  cases absolute

variable (path : List UInt8)

theorem rooted_abs : rooted (abs wd path) = true := by
  unfold abs
  split
  · rename_i isRooted
    rw [rooted_clean]
    exact isRooted
  · rw [rooted_join (wd_ne_nil absolute)]
    exact absolute

theorem clean_abs : clean (abs wd path) = abs wd path := by
  unfold abs
  split
  · exact clean_clean path
  · exact clean_join (wd_ne_nil absolute) [path]

include cleaned

theorem inside_iff : Inside wd path ↔ place wd <:+ place (join [wd, path]) := by
  have sameRoot : rooted wd = rooted (join [wd, path]) :=
    (rooted_join (wd_ne_nil absolute) [path]).symm
  have general := atOrBelow_clean_iff wd (join [wd, path])
  rw [cleaned] at general
  exact general.trans ⟨fun both => both.2, fun inside => ⟨sameRoot, inside⟩⟩

/-- The relative path `..` leads to the directory above the working directory. -/
theorem rel_parent_iff (found : List UInt8) :
    rel wd (abs wd found) = some parent ↔ wd ≠ [slash] ∧ abs wd found = dir wd := by
  obtain ⟨sameRoot, dirPlace⟩ := place_dir cleaned
  have dirRooted := sameRoot.trans absolute
  rw [rel_eq_parent_iff absolute (rooted_abs absolute found)]
  constructor
  · rintro ⟨name, above⟩
    constructor
    · rintro rfl
      cases above
    · have samePlace : place (abs wd found) = place (dir wd) := by rw [dirPlace, above, tail_cons]
      have sameText : clean (abs wd found) = clean (dir wd) := by
        rw [clean, clean, rooted_abs absolute found, dirRooted, samePlace]
      rw [clean_abs absolute] at sameText
      exact sameText.trans (clean_clean _)
  · rintro ⟨notRoot, same⟩
    rw [same, dirPlace]
    cases whole : place wd with
    | nil =>
      rw [clean, absolute, whole] at cleaned
      exact (notRoot cleaned.symm).elim
    | cons name outer => exact ⟨name, rfl⟩

/-- A path that was taken leads out of the working directory only if it is `..`. -/
theorem inside_accepted_iff {found path : List UInt8}
    (taken : accepted host wd found = some path) : Inside wd path ↔ path ≠ parent := by
  obtain ⟨up, related, result⟩ := Option.bind_eq_some_iff.mp taken
  split at result
  · cases result
  · rename_i passes
    obtain rfl := Option.some.inj result
    have notAbove : ¬ parent ++ [slash] <+: up := fun above => passes (.inl above)
    have leads := rel_leadsUp_iff absolute (rooted_abs absolute found)
    rw [inside_iff absolute cleaned, place_join_rel absolute (rooted_abs absolute found) related,
      ← leads, related]
    constructor
    · rintro ⟨other, same, stays⟩ isParent
      obtain rfl := Option.some.inj same
      rw [isParent] at stays
      exact absurd stays (by decide)
    · intro notParent
      exact ⟨up, rfl, decide_eq_false (not_or.mpr ⟨notParent, notAbove⟩)⟩

end Containment

/-- All files of an archive lie in the working directory exactly if the directory above it
is not among the candidates: it is the only path outside that is taken. -/
theorem files_inside_iff (archiver : FileArchiver) (host : Host) {wd : List UInt8}
    (getwd : host.getwd = some wd) (absolute : rooted wd = true) (cleaned : clean wd = wd) :
    ∃ files, archiver.enumerate host = .ok files ∧
      ((∀ entry ∈ files, Inside wd entry.1) ↔
        ¬(wd ≠ [slash] ∧ (host.lstat parent).isOk = true ∧
          ∃ found ∈ archiver.candidates host, abs wd found = dir wd)) := by
  refine ⟨_, enumerate_eq archiver host wd getwd, ?_⟩
  have keys : ∀ key, key ∈ ((archiver.candidates host).foldl (processed host wd) []).map
      Prod.fst ↔ ∃ found ∈ archiver.candidates host, accepted host wd found = some key := by
    intro key
    rw [mem_keys_foldl]
    simp
  have above : ∀ found, accepted host wd found = some parent ↔
      (wd ≠ [slash] ∧ abs wd found = dir wd) ∧ (host.lstat parent).isOk = true := by
    intro found
    rw [← rel_parent_iff absolute cleaned, accepted, Option.bind_eq_some_iff]
    constructor
    · rintro ⟨path, related, result⟩
      split at result
      · cases result
      · rename_i passes
        obtain rfl := Option.some.inj result
        exact ⟨related, by simpa using fun missing => passes (.inr missing)⟩
    · rintro ⟨related, present⟩
      refine ⟨parent, related, if_neg ?_⟩
      rw [present]
      decide
  constructor
  · rintro inside ⟨notRoot, present, found, member, same⟩
    have taken := (above found).mpr ⟨⟨notRoot, same⟩, present⟩
    obtain ⟨entry, inFiles, isParent⟩ := mem_map.mp ((keys parent).mpr ⟨found, member, taken⟩)
    have isInside := inside entry inFiles
    rw [isParent] at isInside
    exact (inside_accepted_iff absolute cleaned taken).mp isInside rfl
  · intro none entry inFiles
    obtain ⟨found, member, taken⟩ := (keys entry.1).mp (mem_map_of_mem inFiles)
    apply (inside_accepted_iff absolute cleaned taken).mpr
    intro isParent
    rw [isParent] at taken
    obtain ⟨⟨notRoot, same⟩, present⟩ := (above found).mp taken
    exact none ⟨notRoot, present, found, member, same⟩

/-- A working directory in which every pattern matches itself and every path exists. -/
def projectHost : Host where
  getwd := some (ascii "/builds/project")
  glob pattern := some [pattern]
  walk first := [first]
  lsFiles := some (ascii "notes.txt" ++ [0])
  lstat _ := .ok ⟨0⟩

theorem files_inside_project :
    ∃ files, FileArchiver.enumerate ⟨[ascii "docs", ascii "../project/bin"], true⟩ projectHost =
        .ok files ∧
      ∀ entry ∈ files, Inside (ascii "/builds/project") entry.1 := by
  obtain ⟨files, enumerated, inside⟩ := files_inside_iff
    ⟨[ascii "docs", ascii "../project/bin"], true⟩ projectHost rfl (by decide) (by decide)
  exact ⟨files, enumerated, inside.mpr (by decide)⟩

/-- The pattern `..` puts the directory above the working directory into the archive. -/
theorem parent_directory_archived :
    ¬∀ (archiver : FileArchiver) (host : Host) (wd : List UInt8) (files : FileMap),
      host.getwd = some wd → rooted wd = true → clean wd = wd →
      archiver.enumerate host = .ok files → ∀ entry ∈ files, Inside wd entry.1 := by
  intro inside
  have isInside := inside ⟨[parent], false⟩ projectHost _ [(parent, ⟨0⟩)] rfl (by decide)
    (by decide) (by rfl) (parent, ⟨0⟩) (by simp)
  exact absurd isInside (by decide)

end GitlabRunner.Archiver
