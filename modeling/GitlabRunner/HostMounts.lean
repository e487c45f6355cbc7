import GitlabRunner.VolumeParsers

/-!
# Volumes that are mounted from the host

`IsHostMountedVolume` climbs from a directory with `filepath.Dir`, until it stands at a
mounted destination, or at `/` or `.`.
-/

namespace GitlabRunner.HostMounts

open List Function ByteText SlashPaths Volumes VolumeParsers Regexes

section WindowsPaths

def backslash : UInt8 := byte '\\'

def isPathSeparator (char : UInt8) : Bool :=
  char = slash || char = backslash

def isDrive (char : UInt8) : Bool :=
  byte 'a' ≤ char && char ≤ byte 'z' || byte 'A' ≤ char && char ≤ byte 'Z'

/-- The length of a drive, or of the server and the share of a UNC path. -/
def volumeNameLen : List UInt8 → Nat
  | first :: second :: rest =>
    let server := rest.takeWhile (!isPathSeparator ·)
    let share := (rest.drop (server.length + 1)).takeWhile (!isPathSeparator ·)
    if second = colon && isDrive first then 2
    else if isPathSeparator first && isPathSeparator second && server.head?.any (· ≠ dot) &&
      share.head?.any (· ≠ dot) then server.length + share.length + 3
    else 0
  | _ => 0

def volumeName (path : List UInt8) : List UInt8 :=
  path.take (volumeNameLen path)

def behindVolume (path : List UInt8) : List UInt8 :=
  path.drop (volumeNameLen path)

def fromSlash (path : List UInt8) : List UInt8 :=
  path.map fun char => if char = slash then backslash else char

def toSlash (path : List UInt8) : List UInt8 :=
  path.map fun char => if char = backslash then slash else char

/-- `filepath.Clean` on Windows.  A UNC volume alone is clean. -/
def windowsClean (path : List UInt8) : List UInt8 :=
  fromSlash (if behindVolume path = [] ∧ 2 < volumeNameLen path then path
    else volumeName path ++ clean (toSlash (behindVolume path)))

def windowsDir (path : List UInt8) : List UInt8 :=
  let dir := windowsClean ((behindVolume path).reverse.dropWhile (!isPathSeparator ·)).reverse
  if dir = [dot] ∧ 2 < volumeNameLen path then volumeName path else volumeName path ++ dir

end WindowsPaths

inductive Platform where
  | unix
  | windows
  deriving DecidableEq, Repr

def Platform.clean : Platform → List UInt8 → List UInt8
  | .unix => SlashPaths.clean
  | .windows => windowsClean

def Platform.dir : Platform → List UInt8 → List UInt8
  | .unix => SlashPaths.dir
  | .windows => windowsDir

def Platform.grammar : Platform → Grammar
  | .unix => linuxGrammar
  | .windows => windowsGrammar

variable (platform : Platform)

/-- Where the loop of `isParentOf` ends. -/
def Ends (dir : List UInt8) : Prop :=
  dir = [slash] ∨ dir = [dot]

instance (dir : List UInt8) : Decidable (Ends dir) :=
  inferInstanceAs (Decidable (_ ∨ _))

/-- `isParentOf`, with a bound on the rounds of its loop. -/
def isParentOf (parent : List UInt8) : Nat → List UInt8 → Option Bool
  | 0, _ => none
  | rounds + 1, dir =>
    if Ends dir then some false
    else if dir = parent then some true
    else isParentOf parent rounds (platform.dir dir)

def isHostMountedVolume (rounds : Nat) (dir : List UInt8) :
    List (List UInt8) → Option (Except Error Bool)
  | [] => some (.ok false)
  | volume :: volumes =>
    match platform.grammar.parseVolume volume with
    | .error err => some (.error err)
    | .ok parsed =>
      if parsed.len < 2 then isHostMountedVolume rounds dir volumes
      else
        match isParentOf platform (platform.clean parsed.destination) rounds
          (platform.clean dir) with
        | none => none
        | some true => some (.ok true)
        | some false => isHostMountedVolume rounds dir volumes

/-- A specification with a source has the destination. -/
def Mounts (volumes : List (List UInt8)) (destination : List UInt8) : Prop :=
  ∃ volume ∈ volumes, ∃ parsed, platform.grammar.parseVolume volume = .ok parsed ∧
    parsed.source ≠ [] ∧ parsed.destination = destination

/-- The cleaned path is the cleaned directory or an ancestor of it. -/
def Encloses (path dir : List UInt8) : Prop :=
  ∃ steps, platform.dir^[steps] (platform.clean dir) = platform.clean path

structure Detects (dir : List UInt8) (volumes : List (List UInt8)) : Prop where
  terminates : ∃ enough, ∀ rounds, enough ≤ rounds →
    ∃ result, isHostMountedVolume platform rounds dir volumes = some result
  exact : (∀ volume ∈ volumes, ∃ parsed, platform.grammar.parseVolume volume = .ok parsed) →
    ∀ rounds result, isHostMountedVolume platform rounds dir volumes = some result →
      ∃ mounted, result = .ok mounted ∧
        (mounted = true ↔ ∃ path, Mounts platform volumes path ∧ Encloses platform path dir)

section Climb

variable {platform} {parent path : List UInt8}

/-- The directories that the loop stops at are their own parents. -/
def Settles (platform : Platform) (path : List UInt8) : Prop :=
  ∀ steps, Ends (platform.dir^[steps] path) →
    platform.dir (platform.dir^[steps] path) = platform.dir^[steps] path

theorem not_slash_mem_fromSlash (path : List UInt8) : slash ∉ fromSlash path := by
  intro member
  obtain ⟨char, -, same⟩ := mem_map.mp member
  split at same
  · exact absurd same (by decide)
  · contradiction

theorem not_slash_mem_windowsDir (noSlash : slash ∉ path) : slash ∉ windowsDir path := by
  have volume : slash ∉ volumeName path := fun member => noSlash (mem_of_mem_take member)
  unfold windowsDir
  dsimp only
  split
  · exact volume
  · rw [mem_append, not_or]
    exact ⟨volume, not_slash_mem_fromSlash _⟩

theorem settles_clean (platform : Platform) (path : List UInt8) :
    Settles platform (platform.clean path) := by
  intro steps ends
  cases platform with
  | unix =>
    rcases ends with same | same
    all_goals
      rw [same]
      decide
  | windows =>
    have noSlash : slash ∉ windowsDir^[steps] (windowsClean path) :=
      Iterate.rec (fun path => slash ∉ path) (not_slash_mem_fromSlash _)
        (fun _ => not_slash_mem_windowsDir) steps
    rcases ends with same | same
    · exact (noSlash (same ▸ mem_singleton_self slash)).elim
    · rw [same]
      decide

theorem isParentOf_eq_some {rounds : Nat} {found : Bool} (settles : Settles platform path)
    (off : ¬ Ends parent) (returned : isParentOf platform parent rounds path = some found) :
    found = true ↔ ∃ steps, platform.dir^[steps] path = parent := by
  induction rounds generalizing path with
  | zero => cases returned
  | succ rounds ih =>
    unfold isParentOf at returned
    split at returned
    · rename_i ends
      cases returned
      refine iff_of_false nofun ?_
      rintro ⟨steps, rfl⟩
      have fixed : platform.dir path = path := settles 0 ends
      rw [iterate_fixed fixed] at off
      exact off ends
    · split at returned
      · rename_i same
        cases returned
        exact iff_of_true rfl ⟨0, same⟩
      · rename_i other
        rw [ih (fun steps => settles (steps + 1)) returned]
        constructor
        · rintro ⟨steps, same⟩
          exact ⟨steps + 1, same⟩
        · rintro ⟨_ | steps, same⟩
          · exact (other same).elim
          · exact ⟨steps, same⟩

theorem isParentOf_returns {steps rounds : Nat} (enough : steps < rounds)
    (stops : Ends (platform.dir^[steps] path) ∨ platform.dir^[steps] path = parent) :
    ∃ found, isParentOf platform parent rounds path = some found := by
  induction rounds generalizing path steps with
  | zero => nomatch enough
  | succ rounds ih =>
    unfold isParentOf
    split
    · exact ⟨_, rfl⟩
    · split
      · exact ⟨_, rfl⟩
      · rename_i goesOn other
        cases steps with
        | zero => exact (stops.elim goesOn other).elim
        | succ steps => exact ih (Nat.lt_of_succ_lt_succ enough) stops

/-- On Unix every directory has the root or `.` above it. -/
theorem exists_ends (cleaned : clean path = path) :
    ∃ steps, Ends (SlashPaths.dir^[steps] path) := by
  induction whole : place path generalizing path with
  | nil =>
    refine ⟨0, ?_⟩
    rw [clean, whole] at cleaned
    rw [iterate_zero, id, ← cleaned]
    cases rooted path <;> decide
  | cons name outer ih =>
    have above := (place_dir cleaned).2
    rw [whole] at above
    obtain ⟨steps, ends⟩ := ih (clean_clean _) above
    exact ⟨steps + 1, ends⟩

end Climb

section Volumes

variable {platform} {dir volume : List UInt8} {volumes : List (List UInt8)} {parsed : Volume}

theorem len_lt_two_iff (accepted : platform.grammar.parseVolume volume = .ok parsed) :
    parsed.len < 2 ↔ parsed.source = [] := by
  have clear : ∃ heads, platform.grammar.Clear heads := by
    cases platform
    exacts [⟨_, linuxGrammar_clear⟩, ⟨_, windowsGrammar_clear⟩]
  obtain ⟨heads, clear⟩ := clear
  obtain ⟨⟨source, destination, mode⟩, allowed, rfl⟩ := clear.parseVolume_iff.mp accepted
  have given : destination ≠ [] := by
    rintro rfl
    have reads := allowed.destination
    cases platform <;> simp [Platform.grammar, linuxGrammar, windowsGrammar, linuxDir,
      windowsDestination, windowsPipe, matches_seq_iff, matches_alt_iff, matches_one_iff,
      matches_letters_iff] at reads
  have printed : destination.flatten ≠ [] := by
    refine flatten_ne_nil (fun rune member => @filled_runesOf volume rune ?_) given
    rw [allowed.joined]
    simp [member]
  by_cases noSource : source.flatten = [] <;> simp [Volume.len, volumeOf, printed, noSource]

theorem isHostMountedVolume_cons {rounds : Nat}
    (accepted : platform.grammar.parseVolume volume = .ok parsed) :
    isHostMountedVolume platform rounds dir (volume :: volumes) =
      if parsed.source = [] then isHostMountedVolume platform rounds dir volumes
      else (isParentOf platform (platform.clean parsed.destination) rounds
        (platform.clean dir)).bind fun found =>
          if found then some (.ok true) else isHostMountedVolume platform rounds dir volumes := by
  simp only [isHostMountedVolume, accepted, len_lt_two_iff accepted]
  split
  · rfl
  · cases isParentOf platform (platform.clean parsed.destination) rounds (platform.clean dir) with
    | none => rfl
    | some found => cases found <;> rfl

theorem Detects.cons (rest : Detects platform dir volumes)
    (climbs : ∀ path, Mounts platform [volume] path → ¬ Ends (platform.clean path) ∧
      ∃ steps, Ends (platform.dir^[steps] (platform.clean dir)) ∨
        platform.dir^[steps] (platform.clean dir) = platform.clean path) :
    Detects platform dir (volume :: volumes) := by
  cases accepted : platform.grammar.parseVolume volume with
  | error err =>
    refine ⟨⟨0, fun rounds _ => ⟨.error err, by simp [isHostMountedVolume, accepted]⟩⟩, ?_⟩
    intro parse
    obtain ⟨parsed, other⟩ := parse volume mem_cons_self
    rw [accepted] at other
    cases other
  | ok parsed =>
    have mounts (path : List UInt8) : Mounts platform (volume :: volumes) path ↔
        (parsed.source ≠ [] ∧ parsed.destination = path) ∨ Mounts platform volumes path := by
      simp [Mounts, accepted]
    by_cases noSource : parsed.source = []
    · refine ⟨?_, fun parse => ?_⟩
      · simpa only [isHostMountedVolume_cons accepted, if_pos noSource] using rest.terminates
      · simpa [isHostMountedVolume_cons accepted, noSource, mounts] using
          rest.exact fun other member => parse other (mem_cons_of_mem _ member)
    · obtain ⟨off, steps, reached⟩ := climbs parsed.destination
        ⟨volume, mem_cons_self, parsed, accepted, noSource, rfl⟩
      refine ⟨?_, fun parse rounds result returned => ?_⟩
      · obtain ⟨enough, later⟩ := rest.terminates
        refine ⟨max enough (steps + 1), fun rounds bound => ?_⟩
        obtain ⟨found, climbed⟩ := isParentOf_returns (by omega : steps < rounds) reached
        rw [isHostMountedVolume_cons accepted, if_neg noSource, climbed]
        cases found with
        | true => exact ⟨_, rfl⟩
        | false => exact later rounds (by omega)
      · rw [isHostMountedVolume_cons accepted, if_neg noSource] at returned
        obtain ⟨found, climbed, returned⟩ := Option.bind_eq_some_iff.mp returned
        have enclosed := isParentOf_eq_some (settles_clean platform dir) off climbed
        simp only [mounts, or_and_right, exists_or]
        cases found with
        | true =>
          cases returned
          exact ⟨true, rfl, iff_of_true rfl (.inl ⟨_, ⟨noSource, rfl⟩, enclosed.mp rfl⟩)⟩
        | false =>
          obtain ⟨mounted, same, exact⟩ := rest.exact
            (fun other member => parse other (mem_cons_of_mem _ member)) rounds result returned
          refine ⟨mounted, same, exact.trans (or_iff_right ?_).symm⟩
          rintro ⟨path, ⟨-, rfl⟩, encloses⟩
          exact nomatch enclosed.mpr encloses

theorem Mounts.mono {path : List UInt8} {more : List (List UInt8)} (included : volumes ⊆ more) :
    Mounts platform volumes path → Mounts platform more path
  | ⟨volume, member, mounts⟩ => ⟨volume, included member, mounts⟩

end Volumes

end GitlabRunner.HostMounts
