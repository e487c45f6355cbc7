import GitlabRunner.ZipExtraction

/-!
# Containment of zip extraction

An entry of an archive escapes in one of two ways: its name leads out of the working
directory, or it is a link whose target does.  The second pass changes the node behind
a link, so that such a link alone is enough.
-/

namespace GitlabRunner.Zip

open SlashPaths FileTree ByteText List

def Entry.link (entry : Entry) : Option (List UInt8) :=
  if entry.mode = { FileMode.regular with symlink := true } ∧ entry.opens = true ∧
      lastName entry.name ≠ none then
    entry.content.filter fun target => target ≠ [] ∧ 0 ∉ target
  else none

/-- The directories that a path from the working directory has entered, innermost
first. -/
def entered (path : List (List UInt8)) : List (List UInt8) :=
  (relative path).entered

def Entry.outer (entry : Entry) : List (List UInt8) :=
  (elements entry.name).dropLast

def LinkAt (archive : List Entry) (place : List (List UInt8)) : Prop :=
  ∃ entry ∈ archive, entry.link ≠ none ∧ entered (elements entry.name) = place

instance (archive : List Entry) (place : List (List UInt8)) :
    Decidable (LinkAt archive place) :=
  inferInstanceAs (Decidable (∃ entry ∈ archive, entry.link ≠ none ∧
    entered (elements entry.name) = place))

/-- No `..` of the path comes behind a link of the archive. -/
def Straight (archive : List Entry) (path : List (List UInt8)) : Prop :=
  ∀ count < path.length, parent ∈ path.drop count → ¬ LinkAt archive (entered (path.take count))

instance (archive : List Entry) (path : List (List UInt8)) :
    Decidable (Straight archive path) :=
  inferInstanceAs (Decidable (∀ count < path.length, parent ∈ path.drop count →
    ¬ LinkAt archive (entered (path.take count))))

/-- All names can be used in system calls, no link is named through a link, and no `..`
of a name or a target comes behind a link. -/
structure Plain (archive : List Entry) : Prop where
  usable : ∀ entry ∈ archive, 0 ∉ entry.name
  through : ∀ entry ∈ archive, entry.link ≠ none → ∀ count < (elements entry.name).length,
    ¬ LinkAt archive (entered ((elements entry.name).take count))
  names : ∀ entry ∈ archive, Straight archive (elements entry.name)
  targets : ∀ entry ∈ archive, ∀ target, entry.link = some target →
    Straight archive (entry.outer ++ elements target)

/-- Names and targets of links do not lead out of the working directory. -/
structure Contained (archive : List Entry) : Prop where
  names : ∀ entry ∈ archive, rooted entry.name = false ∧
    (relative (elements entry.name)).climb = 0
  targets : ∀ entry ∈ archive, ∀ target, entry.link = some target →
    rooted target = false ∧ (relative (entry.outer ++ elements target)).climb = 0

/-- Every node that the extraction touches lies in the working directory, for every
process, tree without links and choice of failing calls. -/
def StaysInside (archive : List Entry) : Prop :=
  ∀ (env : Environment) (tree : Tree), tree.find env.process.cwd = some .directory →
    (∀ location target, tree.find location ≠ some (.symlink target)) →
    ∀ access ∈ (extractZipArchive env archive tree).accesses,
      env.process.cwd <:+ access.location

theorem parent_mem_parts_iff (path : List UInt8) :
    parent ∈ parts path ↔ parent ∈ elements path := by
  rw [elements_eq_namesOf, parent_mem_namesOf_iff]

theorem dot_not_mem_elements (path : List UInt8) : [dot] ∉ elements path := by
  intro member
  exact (isElement_of_mem member).notDot rfl

theorem Straight.not_linkAt {archive : List Entry} {front back : List (List UInt8)}
    (straight : Straight archive (front ++ back)) (follows : parent ∈ back) :
    ¬ LinkAt archive (entered front) := by
  have shorter : front.length < (front ++ back).length := by
    have nonempty := length_pos_of_mem follows
    rw [length_append]
    omega
  have noLink := straight front.length shorter
  rw [drop_left, take_left] at noLink
  exact noLink follows

variable {target : List UInt8}

theorem lastName_of_link {entry : Entry} (isLink : entry.link = some target) :
    ∃ outer name, lastName entry.name = some (outer, name) := by
  unfold Entry.link at isLink
  split at isLink
  · rename_i creates
    obtain ⟨⟨outer, name⟩, named⟩ := Option.ne_none_iff_exists'.mp creates.2.2
    exact ⟨outer, name, named⟩
  · cases isLink

theorem link_some {entry : Entry} (isLink : entry.link = some target) :
    entry.mode = { FileMode.regular with symlink := true } ∧ entry.opens = true ∧
      entry.content = some target ∧ target ≠ [] ∧ 0 ∉ target := by
  unfold Entry.link at isLink
  split at isLink
  · rename_i creates
    obtain ⟨content, usable⟩ := Option.filter_eq_some_iff.mp isLink
    exact ⟨creates.1, creates.2.1, content, by simpa using usable⟩
  · cases isLink
variable {outer : List (List UInt8)} {name : List UInt8}

theorem elements_of_lastName {path : List UInt8} (named : lastName path = some (outer, name)) :
    elements path = namesOf outer ++ [name] := by
  obtain ⟨whole, notDot, -⟩ := lastName_parts named
  rw [elements_eq_namesOf, whole, namesOf_append, namesOf_cons notDot]
  rfl

theorem outer_of_lastName {entry : Entry}
    (named : lastName entry.name = some (outer, name)) : entry.outer = namesOf outer := by
  rw [Entry.outer, elements_of_lastName named, dropLast_concat]

theorem entered_of_lastName {path : List UInt8} (named : lastName path = some (outer, name)) :
    entered (elements path) = name :: entered (namesOf outer) := by
  rw [elements_of_lastName named]
  exact entered_append_name (lastName_parts named).2.2 _

variable {begun : List (List UInt8)}

theorem Plain.not_linkAt_before {archive : List Entry} (plain : Plain archive) {entry : Entry}
    (member : entry ∈ archive) (creates : entry.link = some target)
    (named : lastName entry.name = some (outer, name))
    (begins : begun <+: namesOf outer) : ¬ LinkAt archive (entered begun) := by
  have shape := elements_of_lastName named
  have shorter : begun.length < (elements entry.name).length := by
    have bound := begins.length_le
    rw [shape, length_append, length_singleton]
    omega
  have noLink := plain.through entry member (by simp [creates]) begun.length shorter
  rw [shape, take_append_of_le_length begins.length_le, ← prefix_iff_eq_take.mp begins] at noLink
  exact noLink

variable {cwd : Location} {next : Tree}

section Sufficiency

variable {archive : List Entry} {env : Environment} {index : Nat}

/-- Every link of the tree was made by an entry and stands where its name says. -/
def LinksOf (archive : List Entry) (cwd : Location) (tree : Tree) : Prop :=
  ∀ location target, tree.find location = some (.symlink target) →
    ∃ entry ∈ archive, entry.link = some target ∧
      location = entered (elements entry.name) ++ cwd

variable {tree : Tree}

theorem LinksOf.keeps (links : LinksOf archive cwd tree)
    (kept : KeepsLinks tree next) : LinksOf archive cwd next := by
  intro location target isLink
  exact links location target (kept location target isLink)

theorem LinksOf.not_link (links : LinksOf archive cwd tree)
    {place : List (List UInt8)} (noLink : ¬ LinkAt archive place) (target : List UInt8) :
    tree.find (place ++ cwd) ≠ some (.symlink target) := by
  intro isLink
  obtain ⟨entry, member, creates, location⟩ := links _ _ isLink
  apply noLink
  exact ⟨entry, member, by simp [creates], (append_cancel_right location).symm⟩

/-- A path on which no `..` comes behind a link stays in the working directory. -/
theorem LinksOf.stays (links : LinksOf archive cwd tree) {path : List UInt8}
    (straight : Straight archive (begun ++ elements path))
    (low : (relative (begun ++ elements path)).climb = 0) :
    Stays cwd tree (entered begun ++ cwd) (followed path) := by
  apply stays_of_namesOf
  rw [namesOf_followed]
  apply stays_of_climb (dot_not_mem_elements path) low
  intro front back split follows
  rw [split, ← append_assoc] at straight
  exact links.not_link (straight.not_linkAt follows)

theorem LinksOf.confined (plain : Plain archive)
    (contained : Contained archive) (links : LinksOf archive cwd tree) : Confined cwd tree := by
  intro name outer target isLink
  obtain ⟨entry, member, creates, location⟩ := links _ _ isLink
  obtain ⟨front, last, named⟩ := lastName_of_link creates
  rw [entered_of_lastName named, ← outer_of_lastName named] at location
  obtain ⟨relativeTarget, low⟩ := contained.targets entry member target creates
  rw [(List.cons.inj location).2]
  exact ⟨relativeTarget, links.stays (plain.targets entry member target creates) low⟩

/-- What holds at all times: the links are those of entries, and everything touched is
inside. -/
structure Sound (archive : List Entry) (env : Environment) (state : State) : Prop where
  links : LinksOf archive env.process.cwd state.tree
  inside : ∀ access ∈ state.accesses, env.process.cwd <:+ access.location
variable {state : State}

theorem Sound.query (sound : Sound archive env state)
    (operation : Operation) (run : Tree → Option Node) :
    Sound archive env (query env index operation run state).2 :=
  ⟨sound.links, sound.inside⟩

variable {run : Tree → Option (Tree × Location)}

/-- A call that acts inside and makes no other links keeps everything sound. -/
theorem Sound.call (sound : Sound archive env state) {operation : Operation}
    (acts : ∀ next location, run state.tree = some (next, location) →
      env.process.cwd <:+ location ∧ LinksOf archive env.process.cwd next) :
    Sound archive env (Zip.call env index operation run state).2 := by
  unfold Zip.call
  split
  · exact ⟨sound.links, sound.inside⟩
  · split
    · exact ⟨sound.links, sound.inside⟩
    · rename_i next location ran
      obtain ⟨inside, links⟩ := acts next location ran
      refine ⟨links, ?_⟩
      intro access member
      rcases mem_append.mp member with earlier | last
      · exact sound.inside access earlier
      · rw [mem_singleton.mp last]
        exact inside

variable (plain : Plain archive) (contained : Contained archive)

include plain contained

variable {entry : Entry}

section

variable (sound : Sound archive env state)

include sound

theorem Sound.confined : Confined env.process.cwd state.tree :=
  sound.links.confined plain contained

theorem Sound.inward (member : entry ∈ archive) : Inward env.process.cwd state.tree entry.name := by
  obtain ⟨isRelative, low⟩ := contained.names entry member
  constructor
  · exact isRelative
  · have straight : Straight archive ([] ++ elements entry.name) := plain.names entry member
    exact sound.links.stays straight low

theorem Sound.call_inside {operation : Operation}
    (acts : ∀ next location, Confined env.process.cwd state.tree →
      run state.tree = some (next, location) →
      ActsInside env.process state.tree next location) :
    Sound archive env (Zip.call env index operation run state).2 := by
  apply sound.call
  intro next location ran
  have done := acts next location (sound.confined plain contained) ran
  exact ⟨done.inside, sound.links.keeps done.keepsLinks⟩

variable {path : List UInt8}

theorem Sound.symlink
    (member : entry ∈ archive)
    (isLink : entry.mode = { FileMode.regular with symlink := true })
    (opens : entry.opens = true) (content : entry.content = some target) :
    Sound archive env (symlink env index target entry.name state).2 := by
  have inward := sound.inward plain contained member
  apply sound.call
  intro next location made
  obtain ⟨usable, outer, name, located, rfl, links⟩ := symlink_some made
  have inside := (sound.confined plain contained).locate inward located
  obtain ⟨front, named, resolved⟩ := locate_some inward.relative located
  have creates : entry.link = some target := by
    unfold Entry.link
    rw [if_pos ⟨isLink, opens, by simp [named]⟩, content]
    simp [usable]
  have lexical : outer = entered (namesOf front) ++ env.process.cwd := by
    have low := (contained.names entry member).2
    rw [elements_of_lastName named] at low
    have noLinks : ∀ begun reached, begun <+: namesOf front → begun ≠ [] →
        state.tree.find (entered begun ++ env.process.cwd) ≠ some (.symlink reached) := by
      intro begun reached begins _
      exact sound.links.not_link (plain.not_linkAt_before member creates named begins) reached
    have frontLow : (relative ([] ++ namesOf front)).climb = 0 :=
      Nat.le_zero.mp (low ▸ climb_le_append (namesOf front) [name])
    exact resolve_lexical frontLow noLinks resolved
  refine ⟨inside.trans (suffix_cons _ _), ?_⟩
  intro other reached found
  rcases links other reached found with ⟨rfl, rfl⟩ | earlier
  · refine ⟨entry, member, creates, ?_⟩
    rw [entered_of_lastName named, lexical]
    rfl
  · exact sound.links other reached earlier

end

omit plain contained in
theorem inward_assemble {path : List (List UInt8)} (names : parent ∉ path)
    (proper : ∀ element ∈ path, IsElement element) {base : Location} :
    Inward base tree (assemble false path.reverse) := by
  have reversed : ∀ element ∈ path.reverse, IsElement element := by
    intro element member
    exact proper element (mem_reverse.mp member)
  apply inward_of_names
  · exact rooted_assemble reversed false
  · rw [parent_mem_parts_iff, elements_assemble reversed, mem_reverse]
    exact names

theorem Sound.mkdirWith (inward : ∀ tree, Inward env.process.cwd tree path)
    {above : State → Bool × State}
    (prepared : ∀ state, Sound archive env state → Sound archive env (above state).2)
    (sound : Sound archive env state) :
    Sound archive env (Zip.mkdirWith env index path above state).2 := by
  apply mkdirWith_keeps _ _ prepared sound
  · intro operation run state sound
    exact sound.query operation run
  · intro state sound
    exact sound.call_inside plain contained fun _ _ confined => confined.mkdir (inward state.tree)

theorem Sound.mkdirAll {path : List (List UInt8)} (names : parent ∉ path)
    (proper : ∀ element ∈ path, IsElement element) :
    ∀ state, Sound archive env state →
      Sound archive env (mkdirAll env index false path state).2 := by
  induction path with
  | nil =>
    intro state sound
    exact Sound.mkdirWith plain contained (fun _ => inward_assemble names proper)
      (fun _ => id) sound
  | cons element outer ih =>
    intro state sound
    have inward : ∀ tree, Inward env.process.cwd tree (assemble false (element :: outer).reverse) :=
      fun _ => inward_assemble names proper
    cases outer with
    | nil => exact Sound.mkdirWith plain contained inward (fun _ => id) sound
    | cons second others =>
      have outerNames : parent ∉ second :: others :=
        fun member => names (mem_cons_of_mem element member)
      have outerProper : ∀ other ∈ second :: others, IsElement other :=
        fun other member => proper other (mem_cons_of_mem element member)
      exact Sound.mkdirWith plain contained inward (ih outerNames outerProper) sound

theorem Sound.extractZipFile (sound : Sound archive env state) (member : entry ∈ archive) :
    Sound archive env (Zip.extractZipFile env index entry state) := by
  obtain ⟨isRelative, low⟩ := contained.names entry member
  obtain ⟨dirRelative, dirNames⟩ := dir_names isRelative low
  have reversedNames : parent ∉ (elements (dir entry.name)).reverse :=
    fun inside => dirNames (mem_reverse.mp inside)
  have proper : ∀ element ∈ (elements (dir entry.name)).reverse, IsElement element :=
    fun element inside => isElement_of_mem (mem_reverse.mp inside)
  have ready : Sound archive env (Zip.mkdirAll env index false
      (elements (dir entry.name)).reverse state).2 :=
    Sound.mkdirAll plain contained reversedNames proper state sound
  have removed : ∀ {state : State}, Sound archive env state →
      Sound archive env (Zip.remove env index entry.name state).2 :=
    fun sound => sound.call_inside plain contained fun _ _ confined =>
      confined.unlink (sound.inward plain contained member)
  unfold Zip.extractZipFile
  dsimp only
  rw [dirRelative]
  split
  · exact ready.call_inside plain contained fun _ _ confined =>
      confined.mkdir (ready.inward plain contained member)
  · split
    · rename_i isLink
      unfold Zip.extractZipSymlinkEntry
      cases opens : entry.opens with
      | false => exact ready
      | true =>
        cases content : entry.content with
        | none => exact ready
        | some target => exact (removed ready).symlink plain contained member isLink opens content
    · split
      · exact ready
      · unfold Zip.extractZipFileEntry
        cases entry.opens with
        | false => exact ready
        | true =>
          exact (removed ready).call_inside plain contained fun _ _ confined =>
            confined.openFile ((removed ready).inward plain contained member)

theorem Sound.updateZipFile (sound : Sound archive env state) (member : entry ∈ archive) :
    Sound archive env (Zip.updateZipFile env index entry state) := by
  apply processZipExtra_keeps
  · intro request next sound
    have inward := sound.inward plain contained member
    cases request with
    | lchown => exact sound.call_inside plain contained fun _ _ confined => confined.lchown inward
    | chtimes => exact sound.call_inside plain contained fun _ _ confined => confined.change inward
  · exact sound.call_inside plain contained fun _ _ confined =>
      confined.change (sound.inward plain contained member)

/-- In a plain archive whose names and targets are contained, everything that is
touched is inside. -/
theorem staysInside_of_contained : StaysInside archive := by
  intro env tree _ noLinks
  have initially : Sound archive env ⟨tree, [], 0⟩ := by
    constructor
    · intro location target isLink
      exact (noLinks location target isLink).elim
    · exact nofun
  have extracted : Sound archive env (pass (extractZipFile env) 0 archive ⟨tree, [], 0⟩) := by
    apply pass_keeps _ initially
    intro index entry state _ _ member sound
    exact sound.extractZipFile plain contained member
  have updated : Sound archive env (extractZipArchive env archive tree) := by
    apply pass_keeps _ extracted
    intro index entry state _ _ member sound
    exact sound.updateZipFile plain contained member
  exact updated.inside

end Sufficiency

section Necessity

variable {tree : Tree} {accesses : List Access} {env : Environment} {index : Nat}
  {operation : Operation} {run : Tree → Option (Tree × Location)} {state : State}

def onlyFor (process : Process) (index : Nat) (allowed : Operation → Bool) : Environment where
  process := process
  fails := fun other operation _ => !(decide (other = index) && allowed operation)

structure Unchanged (tree : Tree) (accesses : List Access) (state : State) : Prop where
  tree : state.tree = tree
  accesses : state.accesses = accesses

section

variable (unchanged : Unchanged tree accesses state)

include unchanged

theorem Unchanged.call (fails : env.fails index operation state.calls = true) :
    Unchanged tree accesses (Zip.call env index operation run state).2 := by
  rw [Zip.call, if_pos fails]
  exact ⟨unchanged.tree, unchanged.accesses⟩

theorem Unchanged.call_succeeds (succeeds : env.fails index operation state.calls = false)
    {location : Location} (ran : run tree = some (next, location)) :
    Unchanged next (accesses ++ [⟨operation, location⟩])
      (Zip.call env index operation run state).2 := by
  rw [Zip.call, if_neg (by rw [succeeds]; decide), unchanged.tree, ran]
  exact ⟨rfl, by rw [unchanged.accesses]⟩

theorem Unchanged.extractZipFile
    (fails : ∀ operation calls, operation ≠ .chmod → env.fails index operation calls = true)
    (entry : Entry) : Unchanged tree accesses (extractZipFile env index entry state) := by
  apply extractZipFile_keeps entry _ _ unchanged
  · intro operation run state unchanged
    exact ⟨unchanged.tree, unchanged.accesses⟩
  · intro operation run state notChmod unchanged
    exact unchanged.call (fails operation state.calls notChmod)

theorem Unchanged.updateZipFile
    (fails : ∀ operation calls, env.fails index operation calls = true) (entry : Entry) :
    Unchanged tree accesses (updateZipFile env index entry state) := by
  apply updateZipFile_keeps entry _ unchanged
  intro operation run state unchanged
  exact unchanged.call (fails operation state.calls)

end

def Recorded (access : Access) (state : State) : Prop := access ∈ state.accesses

variable {access : Access}

theorem Recorded.call (recorded : Recorded access state) :
    Recorded access (Zip.call env index operation run state).2 := by
  unfold Zip.call
  split
  · exact recorded
  · split
    · exact recorded
    · exact mem_append_left _ recorded

theorem Recorded.updateZipFile (recorded : Recorded access state) (entry : Entry) :
    Recorded access (updateZipFile env index entry state) := by
  apply updateZipFile_keeps entry _ recorded
  intro operation run state recorded
  exact recorded.call

variable {process : Process} {allowed : Operation → Bool} {front back : List Entry}
  {entry : Entry} {location : Location}

theorem onlyFor_fails {other : Nat} (others : other ≠ index) (operation : Operation)
    (calls : Nat) : (onlyFor process index allowed).fails other operation calls = true := by
  simp [onlyFor, others]

/-- The second pass changes the mode of the one entry whose calls succeed. -/
theorem chmod_recorded (chmods : allowed .chmod = true) (unchanged : Unchanged tree accesses state)
    (changed : tree.change process entry.name = some (tree, location)) :
    Recorded ⟨.chmod, location⟩ (pass (Zip.updateZipFile (onlyFor process front.length allowed)) 0
        (front ++ entry :: back) state) := by
  have before : Unchanged tree accesses
      (pass (Zip.updateZipFile (onlyFor process front.length allowed)) 0 front state) := by
    apply pass_keeps _ unchanged
    intro other entry state _ earlier _ unchanged
    exact unchanged.updateZipFile (onlyFor_fails (by omega)) entry
  rw [pass_append, Nat.zero_add]
  generalize pass (Zip.updateZipFile (onlyFor process front.length allowed)) 0 front state =
    reached at before
  have called : Unchanged tree (accesses ++ [⟨.chmod, location⟩])
      (chmod (onlyFor process front.length allowed) front.length entry.name reached).2 := by
    apply before.call_succeeds _ changed
    simp [onlyFor, chmods]
  have recorded : Recorded ⟨.chmod, location⟩
      (Zip.updateZipFile (onlyFor process front.length allowed) front.length entry reached) := by
    apply processZipExtra_keeps
    · intro request state recorded
      cases request with
      | lchown | chtimes => exact recorded.call
    · rw [Recorded, called.accesses]
      exact mem_append_right _ mem_cons_self
  apply pass_keeps _ recorded
  intro other entry state _ _ _ recorded
  exact recorded.updateZipFile entry

theorem not_staysInside (chmods : allowed .chmod = true) {initial : Tree}
    (here : initial.find process.cwd = some .directory)
    (noLinks : ∀ location target, initial.find location ≠ some (.symlink target))
    (extracted : Unchanged tree accesses
      (pass (extractZipFile (onlyFor process front.length allowed)) 0
        (front ++ entry :: back) ⟨initial, [], 0⟩))
    (changed : tree.change process entry.name = some (tree, location))
    (outside : ¬ process.cwd <:+ location) : ¬ StaysInside (front ++ entry :: back) := by
  intro inside
  exact outside (inside (onlyFor process front.length allowed) initial here noLinks
    ⟨.chmod, location⟩ (chmod_recorded chmods extracted changed))

def changesModes (operation : Operation) : Bool :=
  operation = .chmod

def linksAndChangesModes (operation : Operation) : Bool :=
  operation = .symlink ∨ operation = .chmod

theorem not_staysInside_of_name (usable : 0 ∉ entry.name)
    (leaves : rooted entry.name = true ∨ 0 < (relative (elements entry.name)).climb) :
    ¬ StaysInside (front ++ entry :: back) := by
  obtain ⟨process, tree, location, here, noLinks, changed, outside⟩ :=
    exists_path_out usable leaves
  have extracted : Unchanged tree []
      (pass (extractZipFile (onlyFor process front.length changesModes)) 0
        (front ++ entry :: back) ⟨tree, [], 0⟩) := by
    apply pass_keeps _ ⟨rfl, rfl⟩
    intro other entry state _ _ _ unchanged
    apply unchanged.extractZipFile
    intro operation calls notChmod
    simp [onlyFor, changesModes, notChmod]
  exact not_staysInside rfl here noLinks extracted changed outside

/-- The first pass makes the link of the one entry whose calls succeed. -/
theorem Unchanged.extractZipFile_link (unchanged : Unchanged tree accesses state)
    (creates : entry.link = some target)
    (others : ∀ operation calls, operation ≠ .symlink → operation ≠ .chmod →
      env.fails index operation calls = true)
    (succeeds : ∀ calls, env.fails index .symlink calls = false)
    (made : tree.symlink env.process target entry.name = some (next, location)) :
    Unchanged next (accesses ++ [⟨.symlink, location⟩])
      (Zip.extractZipFile env index entry state) := by
  obtain ⟨isLink, opens, content, -⟩ := link_some creates
  have ready : Unchanged tree accesses (mkdirAll env index (rooted (dir entry.name))
      (elements (dir entry.name)).reverse state).2 := by
    apply mkdirAll_keeps _ _ _ state unchanged
    · intro operation run state unchanged
      exact ⟨unchanged.tree, unchanged.accesses⟩
    · intro path state unchanged
      exact unchanged.call (others .mkdir state.calls (by decide) (by decide))
  unfold Zip.extractZipFile
  dsimp only
  generalize mkdirAll env index (rooted (dir entry.name)) (elements (dir entry.name)).reverse
    state = reached at ready ⊢
  rw [if_neg (by rw [isLink]; decide), if_pos isLink, extractZipSymlinkEntry, opens, content]
  have removed : Unchanged tree accesses (remove env index entry.name reached.2).2 :=
    ready.call (others .remove _ (by decide) (by decide))
  exact removed.call_succeeds (succeeds _) made

theorem extracted_link {initial : Tree} (creates : entry.link = some target)
    (made : initial.symlink process target entry.name = some (next, location)) :
    Unchanged next [⟨.symlink, location⟩]
      (pass (Zip.extractZipFile (onlyFor process front.length linksAndChangesModes)) 0
        (front ++ entry :: back) ⟨initial, [], 0⟩) := by
  have before : Unchanged initial []
      (pass (Zip.extractZipFile (onlyFor process front.length linksAndChangesModes)) 0 front
        ⟨initial, [], 0⟩) := by
    apply pass_keeps _ ⟨rfl, rfl⟩
    intro other entry state _ earlier _ unchanged
    apply unchanged.extractZipFile
    intro operation calls _
    exact onlyFor_fails (by omega) operation calls
  rw [pass_append, Nat.zero_add]
  generalize pass (Zip.extractZipFile (onlyFor process front.length linksAndChangesModes)) 0
    front ⟨initial, [], 0⟩ = reached at before
  have linked : Unchanged next [⟨.symlink, location⟩] (Zip.extractZipFile
      (onlyFor process front.length linksAndChangesModes) front.length entry reached) := by
    apply before.extractZipFile_link creates _ _ made
    · intro operation calls notSymlink notChmod
      simp [onlyFor, linksAndChangesModes, notSymlink, notChmod]
    · intro calls
      simp [onlyFor, linksAndChangesModes]
  apply pass_keeps _ linked
  intro other entry state later _ _ unchanged
  apply unchanged.extractZipFile
  intro operation calls _
  exact onlyFor_fails (by omega) operation calls

theorem not_staysInside_of_link {archive : List Entry} (plain : Plain archive)
    (member : entry ∈ archive) (relativeName : rooted entry.name = false)
    (low : (relative (elements entry.name)).climb = 0)
    (creates : entry.link = some target) (leaves : rooted target = true ∨
      0 < (relative (entry.outer ++ elements target)).climb) : ¬ StaysInside archive := by
  obtain ⟨isLink, -, -, targetUsable⟩ := link_some creates
  obtain ⟨outer, last, named⟩ := lastName_of_link creates
  have noSlash : endsInSlash entry.name = false := by
    have noDir := congrArg FileMode.dir isLink
    simp only [Entry.mode, FileMode.regular, decide_eq_false_iff_not, not_or] at noDir
    simpa using noDir.2
  have linkAt : LinkAt archive (last :: entered (namesOf outer)) := by
    refine ⟨entry, member, by simp [creates], ?_⟩
    exact entered_of_lastName named
  rw [elements_of_lastName named] at low
  have outerLow : (relative (namesOf outer)).climb = 0 :=
    Nat.le_zero.mp (low ▸ climb_le_append (namesOf outer) [last])
  have straight := plain.targets entry member target creates
  rw [outer_of_lastName named] at straight leaves
  have clear : ∀ front, front <+: namesOf outer ++ (if rooted target then [] else elements target) →
      (relative front).climb = 0 →
      (relative front).entered ≠ last :: (relative (namesOf outer)).entered := by
    intro front begins frontLow same
    change entered front = _ at same
    rw [← entered] at same
    rw [← same] at linkAt
    cases fromRoot : rooted target with
    | true =>
      rw [fromRoot] at begins
      change front <+: namesOf outer ++ [] at begins
      rw [append_nil] at begins
      exact plain.not_linkAt_before member creates named begins linkAt
    | false =>
      rw [fromRoot] at begins leaves
      obtain ⟨back, whole⟩ := begins
      change front ++ back = namesOf outer ++ elements target at whole
      rw [← whole] at straight leaves
      apply straight.not_linkAt _ linkAt
      by_contra noParent
      rw [climb_append_names noParent, frontLow] at leaves
      exact absurd (leaves.resolve_left (by decide)) (Nat.lt_irrefl 0)
  have usable := plain.usable entry member
  obtain ⟨process, tree, next, made, location, here, noLinks, linked, changed, outside⟩ :=
    exists_link_out usable relativeName noSlash named outerLow targetUsable clear leaves
  obtain ⟨front, back, rfl⟩ := append_of_mem member
  exact not_staysInside rfl here noLinks (extracted_link creates linked) changed outside

end Necessity

/-- What the extraction of a plain archive touches lies in the working directory, for
every tree and whichever calls fail, exactly if the names and the targets of links in the
archive do not lead out of it. -/
theorem extraction_inside_iff {archive : List Entry} (plain : Plain archive) :
    StaysInside archive ↔ Contained archive := by
  constructor
  · intro inside
    have names : ∀ entry ∈ archive, rooted entry.name = false ∧
        (relative (elements entry.name)).climb = 0 := by
      intro entry member
      have stays : ¬ (rooted entry.name = true ∨
          0 < (relative (elements entry.name)).climb) := by
        intro leaves
        have usable := plain.usable entry member
        obtain ⟨front, back, rfl⟩ := append_of_mem member
        exact not_staysInside_of_name usable leaves inside
      rw [not_or, Bool.not_eq_true, Nat.not_lt, Nat.le_zero] at stays
      exact stays
    constructor
    · exact names
    · intro entry member target creates
      obtain ⟨relativeName, low⟩ := names entry member
      have stays : ¬ (rooted target = true ∨
          0 < (relative (entry.outer ++ elements target)).climb) := by
        intro leaves
        exact not_staysInside_of_link plain member relativeName low creates leaves inside
      rw [not_or, Bool.not_eq_true, Nat.not_lt, Nat.le_zero] at stays
      exact stays
  · intro contained
    exact staysInside_of_contained plain contained

def fileEntry (name : String) : Entry :=
  ⟨ascii name, .regular, true, some [], []⟩

def linkEntry (name target : String) : Entry :=
  ⟨ascii name, .symlink, true, some (ascii target), []⟩

def linkedArchive : List Entry :=
  [linkEntry "d/l" "../e/f/..", fileEntry "d/l/x", fileEntry "d/../y"]

theorem extraction_inside_linked : Plain linkedArchive ∧ StaysInside linkedArchive := by
  have straight : ∀ entry ∈ linkedArchive, ∀ target ∈ entry.link,
      Straight linkedArchive (entry.outer ++ elements target) := by decide +kernel
  have low : ∀ entry ∈ linkedArchive, ∀ target ∈ entry.link, rooted target = false ∧
      (relative (entry.outer ++ elements target)).climb = 0 := by decide +kernel
  have plain : Plain linkedArchive :=
    ⟨by decide +kernel, by decide +kernel, by decide +kernel, straight⟩
  have contained : Contained linkedArchive := ⟨by decide +kernel, low⟩
  exact ⟨plain, (extraction_inside_iff plain).mpr contained⟩

/-- A file in the directory above is written, by its name or through a link of the
archive. -/
theorem extraction_outside :
    ¬ StaysInside [fileEntry "../x"] ∧
      ¬ StaysInside [linkEntry "l" "..", fileEntry "l/x"] := by
  constructor
  · intro inside
    have written := inside ⟨⟨[ascii "work"], 40⟩, fun _ _ _ => false⟩
      (Tree.ofDirectories [[ascii "work"]]) (by decide +kernel) (ofDirectories_noLinks _)
      ⟨.openFile, [ascii "x"]⟩ (by decide +kernel)
    exact absurd written (by decide +kernel)
  · intro inside
    have written := inside ⟨⟨[ascii "work"], 40⟩, fun _ _ _ => false⟩
      (Tree.ofDirectories [[ascii "work"]]) (by decide +kernel) (ofDirectories_noLinks _)
      ⟨.openFile, [ascii "x"]⟩ (by decide +kernel)
    exact absurd written (by decide +kernel)

end GitlabRunner.Zip
