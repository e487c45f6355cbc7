import GitlabRunner.FileTree
import GitlabRunner.ZipExtra

/-!
# Extraction of zip archives

`ExtractZipArchive` of `helpers/archives/zip_extract.go` makes two passes over the entries
of an archive.  The first creates the directories, links and files, the second sets modes,
owners and times.
-/

namespace GitlabRunner.Zip

open SlashPaths FileTree

/-- The type of an entry, as its header gives it. -/
inductive FileType where
  | regular
  | directory
  | symlink
  | namedPipe
  | socket
  | device
  deriving DecidableEq, Repr

/-- An entry of an archive.  `opens` says that its content can be opened, `content` is
what reading it gives. -/
structure Entry where
  name : List UInt8
  type : FileType
  opens : Bool
  content : Option (List UInt8)
  extra : List UInt8
  deriving DecidableEq, Repr

/-- `Mode`: a name that ends in a slash is a directory's. -/
def Entry.mode (entry : Entry) : FileMode where
  dir := entry.type = .directory ∨ endsInSlash entry.name
  symlink := entry.type = .symlink
  namedPipe := entry.type = .namedPipe
  socket := entry.type = .socket
  device := entry.type = .device

inductive Operation where
  | stat
  | lstat
  | mkdir
  | remove
  | symlink
  | openFile
  | chmod
  | lchown
  | chtimes
  deriving DecidableEq, Repr

structure Access where
  operation : Operation
  location : Location
  deriving DecidableEq, Repr

/-- The process, and which of its calls fail: for each entry, operation and number of
earlier calls. -/
structure Environment where
  process : Process
  fails : Nat → Operation → Nat → Bool

structure State where
  tree : Tree
  accesses : List Access
  calls : Nat

variable (env : Environment) (index : Nat)

def call (operation : Operation) (run : Tree → Option (Tree × Location)) (state : State) :
    Bool × State :=
  if env.fails index operation state.calls then (false, { state with calls := state.calls + 1 })
  else
    match run state.tree with
    | none => (false, { state with calls := state.calls + 1 })
    | some (tree, location) =>
      (true, ⟨tree, state.accesses ++ [⟨operation, location⟩], state.calls + 1⟩)

def query (operation : Operation) (run : Tree → Option Node) (state : State) :
    Option Node × State :=
  (if env.fails index operation state.calls then none else run state.tree,
    { state with calls := state.calls + 1 })

def mkdir (path : List UInt8) : State → Bool × State :=
  call env index .mkdir fun tree => tree.mkdir env.process path

def remove (path : List UInt8) : State → Bool × State :=
  call env index .remove fun tree => tree.unlink env.process path

def symlink (target path : List UInt8) : State → Bool × State :=
  call env index .symlink fun tree => tree.symlink env.process target path

/-- `os.OpenFile` for writing, and writing to the file. -/
def openFile (path : List UInt8) : State → Bool × State :=
  call env index .openFile fun tree => tree.openFile env.process path

def chmod (path : List UInt8) : State → Bool × State :=
  call env index .chmod fun tree => tree.change env.process path

def lchown (path : List UInt8) : State → Bool × State :=
  call env index .lchown fun tree => tree.lchown env.process path

def chtimes (path : List UInt8) : State → Bool × State :=
  call env index .chtimes fun tree => tree.change env.process path

/-- `os.MkdirAll` for a path, where `above` makes the directories above it. -/
def mkdirWith (path : List UInt8) (above : State → Bool × State) (state : State) :
    Bool × State :=
  match query env index .stat (fun tree => tree.stat env.process path) state with
  | (some .directory, state) => (true, state)
  | (some _, state) => (false, state)
  | (none, state) =>
    match above state with
    | (false, state) => (false, state)
    | (true, state) =>
      match mkdir env index path state with
      | (true, state) => (true, state)
      | (false, state) =>
        let (node, state) :=
          query env index .lstat (fun tree => tree.lstat env.process path) state
        (node = some .directory, state)

/-- `os.MkdirAll`, for the elements of a path, innermost first. -/
def mkdirAll (fromRoot : Bool) : List (List UInt8) → State → Bool × State
  | [] => mkdirWith env index (assemble fromRoot []) fun state => (true, state)
  | [element] => mkdirWith env index (assemble fromRoot [element]) fun state => (true, state)
  | element :: second :: outer =>
    mkdirWith env index (assemble fromRoot (element :: second :: outer).reverse)
      (mkdirAll fromRoot (second :: outer))

def extractZipDirectoryEntry (entry : Entry) (state : State) : State :=
  (mkdir env index entry.name state).2

def extractZipSymlinkEntry (entry : Entry) (state : State) : State :=
  if !entry.opens then state
  else
    match entry.content with
    | none => state
    | some target =>
      (symlink env index target entry.name (remove env index entry.name state).2).2

def extractZipFileEntry (entry : Entry) (state : State) : State :=
  if !entry.opens then state
  else (openFile env index entry.name (remove env index entry.name state).2).2

def extractZipFile (entry : Entry) (state : State) : State :=
  let parents := dir entry.name
  let state := (mkdirAll env index (rooted parents) (elements parents).reverse state).2
  if entry.mode = { FileMode.regular with dir := true } then
    extractZipDirectoryEntry env index entry state
  else if entry.mode = { FileMode.regular with symlink := true } then
    extractZipSymlinkEntry env index entry state
  else if entry.mode = { FileMode.regular with namedPipe := true } ∨
      entry.mode = { FileMode.regular with socket := true } ∨
      entry.mode = { FileMode.regular with device := true } then state
  else extractZipFileEntry env index entry state

def perform (name : List UInt8) : Request → State → Bool × State
  | .lchown _ _ => lchown env index name
  | .chtimes _ => chtimes env index name

def updateZipFile (entry : Entry) (state : State) : State :=
  processZipExtra entry.mode entry.extra (perform env index entry.name)
    (chmod env index entry.name state).2

def pass (visit : Nat → Entry → State → State) : Nat → List Entry → State → State
  | _, [], state => state
  | index, entry :: entries, state => pass visit (index + 1) entries (visit index entry state)

def extractZipArchive (archive : List Entry) (tree : Tree) : State :=
  pass (updateZipFile env) 0 archive
    (pass (extractZipFile env) 0 archive ⟨tree, [], 0⟩)

variable {state : State} {visit : Nat → Entry → State → State}

section Rules

variable {env : Environment} {index : Nat} {Invariant : State → Prop}

section

variable (queried : ∀ operation run state, Invariant state →
  Invariant (query env index operation run state).2)

include queried

/-- What looking and making a directory keep, `os.MkdirAll` keeps. -/
theorem mkdirWith_keeps {path : List UInt8} {above : State → Bool × State}
    (made : ∀ state, Invariant state → Invariant (mkdir env index path state).2)
    (prepared : ∀ state, Invariant state → Invariant (above state).2)
    (initially : Invariant state) : Invariant (mkdirWith env index path above state).2 := by
  unfold mkdirWith
  have looked := queried .stat (fun tree => tree.stat env.process path) state initially
  split
  · rename_i next found
    rw [found] at looked
    exact looked
  · rename_i next _ found
    rw [found] at looked
    exact looked
  · rename_i next found
    rw [found] at looked
    have ready := prepared next looked
    split
    · rename_i after done
      rw [done] at ready
      exact ready
    · rename_i after done
      rw [done] at ready
      have last := made after ready
      split
      · rename_i final done
        rw [done] at last
        exact last
      · rename_i final done
        rw [done] at last
        exact queried .lstat (fun tree => tree.lstat env.process path) final last

theorem mkdirAll_keeps {fromRoot : Bool}
    (made : ∀ path state, Invariant state → Invariant (mkdir env index path state).2)
    (path : List (List UInt8)) : ∀ state, Invariant state →
      Invariant (mkdirAll env index fromRoot path state).2 := by
  induction path with
  | nil =>
    intro state initially
    exact mkdirWith_keeps queried (made _) (fun _ => id) initially
  | cons element outer ih =>
    intro state initially
    cases outer with
    | nil => exact mkdirWith_keeps queried (made _) (fun _ => id) initially
    | cons second others => exact mkdirWith_keeps queried (made _) ih initially

end

/-- What the calls of the first pass keep, `extractZipFile` keeps. -/
theorem extractZipFile_keeps (entry : Entry) (queried : ∀ operation run state, Invariant state →
      Invariant (query env index operation run state).2)
    (called : ∀ operation run state, operation ≠ .chmod → Invariant state →
      Invariant (call env index operation run state).2)
    (initially : Invariant state) : Invariant (extractZipFile env index entry state) := by
  have made : ∀ path state, Invariant state → Invariant (mkdir env index path state).2 :=
    fun path state => called .mkdir _ state (by decide)
  have removed : ∀ state, Invariant state → Invariant (remove env index entry.name state).2 :=
    fun state => called .remove _ state (by decide)
  unfold extractZipFile
  dsimp only
  have ready : Invariant (mkdirAll env index (rooted (dir entry.name))
      (elements (dir entry.name)).reverse state).2 :=
    mkdirAll_keeps queried made _ state initially
  generalize mkdirAll env index (rooted (dir entry.name)) (elements (dir entry.name)).reverse
    state = next at ready ⊢
  split
  · exact made _ _ ready
  · split
    · unfold extractZipSymlinkEntry
      split
      · exact ready
      · split
        · exact ready
        · exact called .symlink _ _ (by decide) (removed _ ready)
    · split
      · exact ready
      · unfold extractZipFileEntry
        split
        · exact ready
        · exact called .openFile _ _ (by decide) (removed _ ready)

/-- What the calls of the second pass keep, the update of an entry keeps. -/
theorem updateZipFile_keeps (entry : Entry) (called : ∀ operation run state, Invariant state →
      Invariant (call env index operation run state).2)
    (initially : Invariant state) : Invariant (updateZipFile env index entry state) := by
  apply processZipExtra_keeps
  · intro request state
    cases request with
    | lchown uid gid => exact called .lchown _ state
    | chtimes modTime => exact called .chtimes _ state
  · exact called .chmod _ state initially

theorem pass_keeps {entries : List Entry} :
    ∀ {first : Nat},
      (∀ index entry state, first ≤ index → index < first + entries.length →
        entry ∈ entries → Invariant state → Invariant (visit index entry state)) →
      ∀ {state : State}, Invariant state → Invariant (pass visit first entries state) := by
  induction entries with
  | nil =>
    intro first kept state initially
    exact initially
  | cons entry entries ih =>
    intro first kept state initially
    have more : (entry :: entries).length = entries.length + 1 := List.length_cons
    apply ih
    · intro index other next later before member
      exact kept index other next (by omega) (by omega) (List.mem_cons_of_mem entry member)
    · exact kept first entry state (by omega) (by omega) List.mem_cons_self initially

theorem pass_append {entries : List Entry} :
    ∀ (first : Nat) (later : List Entry) (state : State),
      pass visit first (entries ++ later) state =
        pass visit (first + entries.length) later (pass visit first entries state) := by
  induction entries with
  | nil =>
    intro first later state
    rfl
  | cons entry entries ih =>
    intro first later state
    have more : first + (entry :: entries).length = first + 1 + entries.length := by
      rw [List.length_cons]
      omega
    rw [List.cons_append, more]
    exact ih (first + 1) later (visit first entry state)

end Rules

end GitlabRunner.Zip
