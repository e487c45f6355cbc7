import GitlabRunner.SlashPaths
import Mathlib.Data.Fintype.EquivFin

/-!
# File trees with symbolic links

A tree of directories, files and symbolic links, and the system calls on path names
that create, remove or change its nodes.  A path is resolved part by part in the tree
as it is: `..` leaves the directory that was reached, also behind a link.  Every call
gives the location of the node it acts on.

A tree is confined to a directory when no link leads out of it.  In such a tree a path
that stays in the directory is resolved to a location in it.  For a path or a link that
leads out there is a tree without links in which it can be followed.
-/

namespace GitlabRunner.FileTree

open SlashPaths List

abbrev Location := List (List UInt8)

/-- A node of a tree; the contents of files are not represented. -/
inductive Node where
  | directory
  | file
  | symlink (target : List UInt8)
  deriving DecidableEq, Repr

/-- The node at a location.  The root is always a directory. -/
def lookup (nodes : List (Location × Node)) (location : Location) : Option Node :=
  if location = [] then some .directory
  else (nodes.find? fun entry => entry.1 = location).map Prod.snd

/-- A tree: every node other than the root lies in a directory. -/
structure Tree where
  nodes : List (Location × Node)
  closed : ∀ name outer, lookup nodes (name :: outer) ≠ none →
    lookup nodes outer = some .directory

theorem lookup_cons (entry : Location × Node) (nodes : List (Location × Node))
    {location : Location} (below : location ≠ []) :
    lookup (entry :: nodes) location =
      if entry.1 = location then some entry.2 else lookup nodes location := by
  simp only [lookup, below, if_false, List.find?_cons]
  by_cases same : entry.1 = location
  · simp [same]
  · simp [same]

theorem lookup_filter (nodes : List (Location × Node)) {removed location : Location}
    (below : location ≠ []) :
    lookup (nodes.filter fun entry => entry.1 ≠ removed) location =
      if location = removed then none else lookup nodes location := by
  induction nodes with
  | nil => simp [lookup, below]
  | cons entry nodes ih =>
    by_cases dropped : entry.1 = removed
    · rw [filter_cons_of_neg (by simpa using dropped), ih, lookup_cons entry nodes below]
      grind
    · rw [filter_cons_of_pos (by simpa using dropped), lookup_cons _ _ below,
        lookup_cons _ _ below, ih]
      grind

variable {node : Node}

namespace Tree

def find (tree : Tree) (location : Location) : Option Node :=
  lookup tree.nodes location

def create (tree : Tree) (outer : Location) (name : List UInt8) (node : Node)
    (inside : tree.find outer = some .directory) (free : tree.find (name :: outer) = none) :
    Tree where
  nodes := (name :: outer, node) :: tree.nodes
  closed := by
    have kept : ∀ location, tree.find location = some .directory →
        lookup ((name :: outer, node) :: tree.nodes) location = some .directory := by
      intro location isDirectory
      by_cases root : location = []
      · rw [root]
        rfl
      · rw [lookup_cons _ _ root, if_neg]
        · exact isDirectory
        · intro same
          rw [← same, free] at isDirectory
          cases isDirectory
    intro other place occupied
    rw [lookup_cons _ _ (by simp)] at occupied
    by_cases same : name :: outer = other :: place
    · rw [← (List.cons.inj same).2]
      exact kept outer inside
    · rw [if_neg same] at occupied
      exact kept place (tree.closed other place occupied)

def isEmpty (tree : Tree) (location : Location) : Bool :=
  tree.nodes.all fun entry => entry.1 = [] ∨ entry.1.tail ≠ location

theorem find_of_isEmpty {tree : Tree} {location : Location}
    (empty : tree.isEmpty location = true) (name : List UInt8) :
    tree.find (name :: location) = none := by
  have unused := all_eq_true.mp empty
  have none : tree.nodes.find? (fun entry => entry.1 = name :: location) = none := by
    rw [List.find?_eq_none]
    intro entry member found
    have free := unused entry member
    have same : entry.1 = name :: location := by simpa using found
    simp [same] at free
  rw [find, lookup, if_neg (by simp), none]
  rfl

def remove (tree : Tree) (location : Location) (empty : tree.isEmpty location = true) :
    Tree where
  nodes := tree.nodes.filter fun entry => entry.1 ≠ location
  closed := by
    intro name outer occupied
    rw [lookup_filter _ (by simp)] at occupied
    split at occupied
    · exact (occupied rfl).elim
    · have isDirectory := tree.closed name outer occupied
      by_cases root : outer = []
      · rw [root]
        rfl
      · rw [lookup_filter _ root, if_neg]
        · exact isDirectory
        · intro removed
          rw [removed] at occupied
          exact occupied (find_of_isEmpty empty name)

theorem find_create {tree : Tree} {outer : Location} {name : List UInt8}
    (inside : tree.find outer = some .directory) (free : tree.find (name :: outer) = none)
    (location : Location) :
    (tree.create outer name node inside free).find location =
      if name :: outer = location then some node else tree.find location := by
  by_cases root : location = []
  · rw [root, if_neg (by simp)]
    rfl
  · exact lookup_cons _ _ root

theorem find_remove {tree : Tree} {removed location : Location}
    (empty : tree.isEmpty removed = true)
    (found : (tree.remove removed empty).find location = some node) :
    tree.find location = some node := by
  by_cases root : location = []
  · rw [root] at found ⊢
    exact found
  · rw [find, remove, lookup_filter _ root] at found
    split at found
    · cases found
    · exact found

end Tree

/-- The path ends in a slash, so that its last part must be a directory. -/
def endsInSlash (path : List UInt8) : Bool :=
  path.getLast? = some slash

def followed (path : List UInt8) : List (List UInt8) :=
  parts path ++ if endsInSlash path then [[dot]] else []

/-- The last part of a path, if it is a name, and the parts before it. -/
def lastName (path : List UInt8) : Option (List (List UInt8) × List UInt8) :=
  match (parts path).reverse with
  | [] => none
  | last :: outer =>
    if last = [dot] ∨ last = parent then none else some (outer.reverse, last)

/-- A process: its working directory, and the number of parts that it may follow for
one path. -/
structure Process where
  cwd : Location
  limit : Nat

/-- Where the resolution of a path starts.  No path is empty or has a zero byte. -/
def Process.start (process : Process) (path : List UInt8) : Option Location :=
  if path = [] ∨ 0 ∈ path then none
  else some (if rooted path then [] else process.cwd)

namespace Tree

def resolve (tree : Tree) : Nat → Location → List (List UInt8) → Option Location
  | _, location, [] => some location
  | 0, _, _ :: _ => none
  | steps + 1, location, part :: rest =>
    if tree.find location = some .directory then
      if part = [dot] then tree.resolve steps location rest
      else if part = parent then tree.resolve steps location.tail rest
      else
        match tree.find (part :: location) with
        | none => none
        | some (.symlink target) =>
          tree.resolve steps (if rooted target then [] else location) (followed target ++ rest)
        | some _ => tree.resolve steps (part :: location) rest
    else none

def resolvePath (tree : Tree) (process : Process) (path : List UInt8) : Option Location :=
  (process.start path).bind fun start => tree.resolve process.limit start (followed path)

/-- The directory and the name of a path, behind the links on the way. -/
def locate (tree : Tree) (process : Process) (path : List UInt8) :
    Option (Location × List UInt8) :=
  (process.start path).bind fun start =>
    (lastName path).bind fun (outer, name) =>
      (tree.resolve process.limit start outer).map fun location => (location, name)

def createAt (tree : Tree) (outer : Location) (name : List UInt8) (node : Node) :
    Option (Tree × Location) :=
  if inside : tree.find outer = some .directory then
    if free : tree.find (name :: outer) = none then
      some (tree.create outer name node inside free, name :: outer)
    else none
  else none

def stat (tree : Tree) (process : Process) (path : List UInt8) : Option Node :=
  (tree.resolvePath process path).bind tree.find

def lstat (tree : Tree) (process : Process) (path : List UInt8) : Option Node :=
  if endsInSlash path ∨ lastName path = none then tree.stat process path
  else (tree.locate process path).bind fun (outer, name) => tree.find (name :: outer)

def mkdir (tree : Tree) (process : Process) (path : List UInt8) :
    Option (Tree × Location) :=
  (tree.locate process path).bind fun (outer, name) => tree.createAt outer name .directory

def symlink (tree : Tree) (process : Process) (target path : List UInt8) :
    Option (Tree × Location) :=
  if endsInSlash path ∨ target = [] ∨ 0 ∈ target then none
  else
    (tree.locate process path).bind fun (outer, name) =>
      tree.createAt outer name (.symlink target)

def removeAt (tree : Tree) (location : Location) : Option (Tree × Location) :=
  if empty : tree.isEmpty location = true then some (tree.remove location empty, location)
  else none

/-- `unlink`, and `rmdir` for a directory. -/
def unlink (tree : Tree) (process : Process) (path : List UInt8) :
    Option (Tree × Location) :=
  (tree.locate process path).bind fun (outer, name) =>
    match tree.find (name :: outer) with
    | none => none
    | some .directory => tree.removeAt (name :: outer)
    | some _ => if endsInSlash path then none else tree.removeAt (name :: outer)

/-- Open a file of a directory for writing, or create it; the links it is behind are
followed. -/
def openAt (tree : Tree) (limit : Nat) :
    Nat → Location → List UInt8 → Option (Tree × Location)
  | steps, outer, name =>
    match tree.find (name :: outer) with
    | none => tree.createAt outer name .file
    | some .file => some (tree, name :: outer)
    | some .directory => none
    | some (.symlink target) =>
      match steps with
      | 0 => none
      | steps + 1 =>
        if endsInSlash target then none
        else
          (lastName target).bind fun (front, last) =>
            (tree.resolve limit (if rooted target then [] else outer) front).bind fun next =>
              tree.openAt limit steps next last

def openFile (tree : Tree) (process : Process) (path : List UInt8) :
    Option (Tree × Location) :=
  if endsInSlash path then none
  else
    (tree.locate process path).bind fun (outer, name) =>
      tree.openAt process.limit process.limit outer name

/-- `chmod` and `utimes`: the node behind all links. -/
def change (tree : Tree) (process : Process) (path : List UInt8) :
    Option (Tree × Location) :=
  (tree.resolvePath process path).map fun location => (tree, location)

/-- `lchown`: a link that the path names is not followed. -/
def lchown (tree : Tree) (process : Process) (path : List UInt8) :
    Option (Tree × Location) :=
  if endsInSlash path ∨ lastName path = none then tree.change process path
  else
    (tree.locate process path).bind fun (outer, name) =>
      (tree.find (name :: outer)).map fun _ => (tree, name :: outer)

end Tree

/-- Parts that stay in a directory: every `..` leaves a directory below it, and no `..`
comes behind a link. -/
def Stays (base : Location) (tree : Tree) : Location → List (List UInt8) → Prop
  | _, [] => True
  | location, part :: rest =>
    if part = [dot] then Stays base tree location rest
    else if part = parent then
      base.length < location.length ∧ Stays base tree location.tail rest
    else
      parent ∉ rest ∨ (∀ target, tree.find (part :: location) ≠ some (.symlink target)) ∧
        Stays base tree (part :: location) rest

section Stays

variable {base location : Location} {tree : Tree} {part : List UInt8}
  {path front back rest : List (List UInt8)}

theorem stays_dot : Stays base tree location ([dot] :: rest) ↔ Stays base tree location rest := by
  rw [Stays, if_pos rfl]

theorem stays_parent :
    Stays base tree location (parent :: rest) ↔
      base.length < location.length ∧ Stays base tree location.tail rest := by
  rw [Stays, if_neg (by decide), if_pos rfl]

theorem stays_name (notDot : part ≠ [dot]) (notParent : part ≠ parent) :
    Stays base tree location (part :: rest) ↔
      parent ∉ rest ∨ (∀ target, tree.find (part :: location) ≠ some (.symlink target)) ∧
        Stays base tree (part :: location) rest := by
  rw [Stays, if_neg notDot, if_neg notParent]

theorem stays_names (names : parent ∉ path) (location : Location) :
    Stays base tree location path := by
  fun_induction Stays base tree location path with
  | case1 => trivial
  | case2 location rest ih => exact ih (not_mem_of_not_mem_cons names)
  | case3 => exact (names mem_cons_self).elim
  | case4 => exact .inl (not_mem_of_not_mem_cons names)

theorem Stays.append (names : parent ∉ back) (stays : Stays base tree location front) :
    Stays base tree location (front ++ back) := by
  fun_induction Stays base tree location front with
  | case1 location => exact stays_names names location
  | case2 location rest ih => exact stays_dot.mpr (ih stays)
  | case3 location rest _ ih => exact stays_parent.mpr ⟨stays.1, ih stays.2⟩
  | case4 location part rest notDot notParent ih =>
    rw [cons_append, stays_name notDot notParent, mem_append, not_or]
    exact stays.imp (⟨·, names⟩) (And.imp_right ih)

theorem Stays.of_append (stays : Stays base tree location (front ++ back)) :
    Stays base tree location front := by
  fun_induction Stays base tree location front with
  | case1 => trivial
  | case2 location rest ih => exact ih (stays_dot.mp stays)
  | case3 location rest _ ih => exact (stays_parent.mp stays).imp_right ih
  | case4 location part rest notDot notParent ih =>
    rw [cons_append, stays_name notDot notParent, mem_append, not_or] at stays
    exact stays.imp And.left (And.imp_right ih)

theorem stays_of_namesOf (stays : Stays base tree location (namesOf path)) :
    Stays base tree location path := by
  fun_induction Stays base tree location path with
  | case1 => trivial
  | case2 location rest ih =>
    rw [namesOf_dot] at stays
    exact ih stays
  | case3 location rest notDot ih =>
    rw [namesOf_cons notDot, stays_parent] at stays
    exact stays.imp_right ih
  | case4 location part rest notDot notParent ih =>
    rw [namesOf_cons notDot, stays_name notDot notParent, parent_mem_namesOf_iff] at stays
    exact stays.imp_right (And.imp_right ih)

/-- A path that does not climb, with no link where a `..` follows, stays in the directory.
The location is given by the path that has led to it. -/
theorem stays_of_climb :
    ∀ {begun : List (List UInt8)}, [dot] ∉ path → (relative (begun ++ path)).climb = 0 →
      (∀ front back, path = front ++ back → parent ∈ back → ∀ target,
        tree.find ((relative (begun ++ front)).entered ++ base) ≠ some (.symlink target)) →
      Stays base tree ((relative begun).entered ++ base) path := by
  induction path with
  | nil =>
    intro begun _ _ _
    trivial
  | cons part rest ih =>
    intro begun noDots low noLinks
    rw [append_cons] at low
    have behind : Stays base tree ((relative (begun ++ [part])).entered ++ base) rest := by
      apply ih (not_mem_of_not_mem_cons noDots) low
      rintro front back rfl follows
      rw [append_assoc]
      exact noLinks ([part] ++ front) back rfl follows
    have notDot : part ≠ [dot] := (ne_of_not_mem_cons noDots).symm
    by_cases isParent : part = parent
    · subst isParent
      have lowHere : (relative (begun ++ [parent])).climb = 0 :=
        Nat.le_zero.mp (low ▸ climb_le_append _ rest)
      obtain ⟨innermost, entered⟩ := entered_of_climb_parent lowHere
      rw [stays_parent, entered]
      refine ⟨?_, behind⟩
      rw [length_append, length_cons]
      omega
    · rw [stays_name notDot isParent]
      by_cases follows : parent ∈ rest
      · have noLink := noLinks [part] rest rfl follows
        rw [entered_append_name isParent] at noLink behind
        exact .inr ⟨noLink, behind⟩
      · exact .inl follows

end Stays

/-- All links of the tree lead to the directory or below. -/
def Confined (base : Location) (tree : Tree) : Prop :=
  ∀ name outer target, tree.find (name :: outer) = some (.symlink target) →
    rooted target = false ∧ Stays base tree outer (followed target)

theorem suffix_tail {base location : Location} (inside : base <:+ location)
    (deep : base.length < location.length) : base <:+ location.tail := by
  cases location with
  | nil => cases deep
  | cons name outer =>
    rcases suffix_cons_iff.mp inside with same | inside
    · rw [same] at deep
      exact absurd deep (Nat.lt_irrefl _)
    · exact inside

variable {base : Location} {tree : Tree} {steps : Nat}

/-- In a confined tree a path that stays in the directory is resolved inside. -/
theorem Confined.resolve (confined : Confined base tree)
    {location reached : Location} {path : List (List UInt8)} (inside : base <:+ location)
    (stays : Stays base tree location path)
    (resolved : tree.resolve steps location path = some reached) : base <:+ reached := by
  fun_induction Tree.resolve tree steps location path with
  | case1 =>
    cases resolved
    exact inside
  | case3 steps location rest isDirectory ih => exact ih inside (stays_dot.mp stays) resolved
  | case4 steps location rest isDirectory notDot ih =>
    obtain ⟨deep, stays⟩ := stays_parent.mp stays
    exact ih (suffix_tail inside deep) stays resolved
  | case6 steps location part rest isDirectory notDot notParent target found ih =>
    rw [stays_name notDot notParent] at stays
    have noParent : parent ∉ rest := stays.resolve_right fun behind => behind.1 target found
    obtain ⟨relative, within⟩ := confined part location target found
    rw [relative] at ih resolved
    exact ih inside (within.append noParent) resolved
  | case7 steps location part rest isDirectory notDot notParent node found _ ih =>
    rw [stays_name notDot notParent] at stays
    refine ih (inside.trans (suffix_cons _ _)) ?_ resolved
    exact stays.elim (fun noParent => stays_names noParent _) And.right
  | case2 | case5 | case8 => cases resolved

def KeepsLinks (tree next : Tree) : Prop :=
  ∀ location target, next.find location = some (.symlink target) →
    tree.find location = some (.symlink target)

structure Inward (base : Location) (tree : Tree) (path : List UInt8) : Prop where
  relative : rooted path = false
  stays : Stays base tree base (followed path)

theorem inward_of_names {path : List UInt8} (relative : rooted path = false)
    (names : parent ∉ parts path) : Inward base tree path := by
  constructor
  · exact relative
  · apply stays_names
    intro member
    rcases mem_append.mp member with inPath | last
    · exact names inPath
    · split at last
      · exact absurd (mem_singleton.mp last) (by decide)
      · cases last
variable {name : List UInt8}

theorem lastName_parts {path : List UInt8} {outer : List (List UInt8)}
    (named : lastName path = some (outer, name)) :
    parts path = outer ++ [name] ∧ name ≠ [dot] ∧ name ≠ parent := by
  unfold lastName at named
  split at named
  · cases named
  · rename_i last others reversed
    split at named
    · cases named
    · rename_i proper
      cases named
      rw [not_or] at proper
      have whole := congrArg List.reverse reversed
      rw [reverse_reverse, reverse_cons] at whole
      exact ⟨whole, proper⟩

variable {process : Process} {next : Tree} {path target : List UInt8} {location : Location}

theorem Process.start_relative (relative : rooted path = false) {start : Location}
    (found : process.start path = some start) : start = process.cwd := by
  unfold Process.start at found
  split at found
  · cases found
  · rw [relative] at found
    cases found
    rfl

/-- The directory of a relative path is found from the working directory. -/
theorem locate_some (relative : rooted path = false)
    (located : tree.locate process path = some (location, name)) :
    ∃ outer, lastName path = some (outer, name) ∧
      tree.resolve process.limit process.cwd outer = some location := by
  obtain ⟨start, found, rest⟩ := Option.bind_eq_some_iff.mp located
  obtain ⟨⟨outer, last⟩, named, rest⟩ := Option.bind_eq_some_iff.mp rest
  obtain ⟨reached, resolved, same⟩ := Option.map_eq_some_iff.mp rest
  cases same
  rw [Process.start_relative relative found] at resolved
  exact ⟨outer, named, resolved⟩

open Tree

theorem createAt_some {outer : Location}
    (created : tree.createAt outer name node = some (next, location)) :
    location = name :: outer ∧ ∀ other, next.find other =
      if name :: outer = other then some node else tree.find other := by
  unfold createAt at created
  split at created
  · split at created
    · cases created
      exact ⟨rfl, find_create _ _⟩
    · cases created
  · cases created

/-- What a call on an inward path does: it acts inside and adds no link. -/
structure ActsInside (process : Process) (tree next : Tree) (location : Location) :
    Prop where
  inside : process.cwd <:+ location
  keepsLinks : KeepsLinks tree next

/-- A node other than a link is created inside a directory that is inside. -/
theorem createAt_actsInside {outer : Location}
    (plain : ∀ target, node ≠ .symlink target) (inside : process.cwd <:+ outer)
    (created : tree.createAt outer name node = some (next, location)) :
    ActsInside process tree next location := by
  constructor
  · rw [(createAt_some created).1]
    exact inside.trans (suffix_cons _ _)
  · intro other target isLink
    rw [(createAt_some created).2] at isLink
    split at isLink
    · exact (plain target (Option.some.inj isLink)).elim
    · exact isLink

theorem followed_of_lastName {outer : List (List UInt8)}
    (noSlash : endsInSlash path = false) (named : lastName path = some (outer, name)) :
    followed path = outer ++ [name] := by
  rw [followed, noSlash, (lastName_parts named).1]
  exact append_nil _

/-- The ways to open a file: it is new, it is there, or it is behind a link. -/
theorem openAt_cases {limit : Nat} {outer : Location}
    (opened : tree.openAt limit steps outer name = some (next, location)) :
    tree.createAt outer name .file = some (next, location) ∨
      next = tree ∧ location = name :: outer ∨
      ∃ fewer target front last reached, steps = fewer + 1 ∧
        tree.find (name :: outer) = some (.symlink target) ∧
        endsInSlash target = false ∧ lastName target = some (front, last) ∧
        tree.resolve limit (if rooted target then [] else outer) front = some reached ∧
        tree.openAt limit fewer reached last = some (next, location) := by
  unfold openAt at opened
  split at opened
  · exact .inl opened
  · cases opened
    exact .inr (.inl ⟨rfl, rfl⟩)
  · cases opened
  · rename_i target isLink
    cases steps with
    | zero => cases opened
    | succ fewer =>
      dsimp only at opened
      split at opened
      · cases opened
      · rename_i noSlash
        obtain ⟨⟨front, last⟩, named, rest⟩ := Option.bind_eq_some_iff.mp opened
        obtain ⟨reached, resolved, opened⟩ := Option.bind_eq_some_iff.mp rest
        exact .inr (.inr ⟨fewer, target, front, last, reached, rfl, isLink,
          by simpa using noSlash, named, resolved, opened⟩)

theorem Confined.openAt (confined : Confined process.cwd tree) {limit : Nat} :
    ∀ {outer : Location} {name : List UInt8}, process.cwd <:+ outer →
      tree.openAt limit steps outer name = some (next, location) →
      ActsInside process tree next location := by
  induction steps using Nat.strongRecOn with
  | ind steps ih =>
    intro outer name inside opened
    rcases openAt_cases opened with created | ⟨rfl, rfl⟩ |
      ⟨fewer, target, front, last, reached, rfl, isLink, noSlash, named, resolved, opened⟩
    · exact createAt_actsInside (by simp) inside created
    · exact ⟨inside.trans (suffix_cons _ _), fun _ _ isLink => isLink⟩
    · obtain ⟨relative, stays⟩ := confined name outer target isLink
      rw [followed_of_lastName noSlash named] at stays
      rw [relative] at resolved
      exact ih fewer (Nat.lt_succ_self _) (confined.resolve inside stays.of_append resolved) opened

section Confined

variable (confined : Confined process.cwd tree) (inward : Inward process.cwd tree path)

include confined inward

/-- In a tree confined to the working directory, an inward path names a node inside. -/
theorem Confined.resolvePath (resolved : tree.resolvePath process path = some location) :
    process.cwd <:+ location := by
  obtain ⟨start, found, resolved⟩ := Option.bind_eq_some_iff.mp resolved
  rw [Process.start_relative inward.relative found] at resolved
  exact confined.resolve suffix_rfl inward.stays resolved

theorem Confined.locate (located : tree.locate process path = some (location, name)) :
    process.cwd <:+ location := by
  obtain ⟨outer, named, resolved⟩ := locate_some inward.relative located
  have stays := inward.stays
  rw [FileTree.followed, (lastName_parts named).1, append_assoc] at stays
  exact confined.resolve suffix_rfl stays.of_append resolved

theorem Confined.mkdir (made : tree.mkdir process path = some (next, location)) :
    ActsInside process tree next location := by
  obtain ⟨⟨outer, name⟩, located, created⟩ := Option.bind_eq_some_iff.mp made
  exact createAt_actsInside (by simp) (confined.locate inward located) created

theorem Confined.unlink (done : tree.unlink process path = some (next, location)) :
    ActsInside process tree next location := by
  obtain ⟨⟨outer, name⟩, located, rest⟩ := Option.bind_eq_some_iff.mp done
  have removed : tree.removeAt (name :: outer) = some (next, location) := by
    dsimp only at rest
    split at rest
    · cases rest
    · exact rest
    · split at rest
      · cases rest
      · exact rest
  unfold removeAt at removed
  split at removed
  · rename_i empty
    cases removed
    exact ⟨(confined.locate inward located).trans (suffix_cons _ _),
      fun other target isLink => find_remove empty isLink⟩
  · cases removed

theorem Confined.change (changed : tree.change process path = some (next, location)) :
    ActsInside process tree next location := by
  obtain ⟨reached, resolved, same⟩ := Option.map_eq_some_iff.mp changed
  cases same
  exact ⟨confined.resolvePath inward resolved, fun _ _ isLink => isLink⟩

theorem Confined.lchown (changed : tree.lchown process path = some (next, location)) :
    ActsInside process tree next location := by
  unfold Tree.lchown at changed
  split at changed
  · exact confined.change inward changed
  · obtain ⟨⟨outer, name⟩, located, rest⟩ := Option.bind_eq_some_iff.mp changed
    obtain ⟨node, found, same⟩ := Option.map_eq_some_iff.mp rest
    cases same
    exact ⟨(confined.locate inward located).trans (suffix_cons _ _), fun _ _ isLink => isLink⟩

theorem Confined.openFile (opened : tree.openFile process path = some (next, location)) :
    ActsInside process tree next location := by
  unfold Tree.openFile at opened
  split at opened
  · cases opened
  · obtain ⟨⟨outer, name⟩, located, opened⟩ := Option.bind_eq_some_iff.mp opened
    exact confined.openAt (confined.locate inward located) opened

end Confined

theorem symlink_some (made : tree.symlink process target path = some (next, location)) :
    (target ≠ [] ∧ 0 ∉ target) ∧
    ∃ outer name, tree.locate process path = some (outer, name) ∧ location = name :: outer ∧
      ∀ other reached, next.find other = some (.symlink reached) →
        other = location ∧ reached = target ∨ tree.find other = some (.symlink reached) := by
  unfold symlink at made
  split at made
  · cases made
  · rename_i usable
    rw [not_or, not_or] at usable
    obtain ⟨⟨outer, name⟩, located, created⟩ := Option.bind_eq_some_iff.mp made
    obtain ⟨same, found⟩ := createAt_some created
    refine ⟨usable.2, outer, name, located, same, ?_⟩
    intro other reached isLink
    rw [found] at isLink
    split at isLink
    · rename_i here
      cases isLink
      exact .inl ⟨here.symm.trans same.symm, rfl⟩
    · exact .inr isLink

/-- Parts that do not climb and lead through no link are followed one after the other. -/
theorem resolve_lexical {reached : Location} {begun path : List (List UInt8)}
    (low : (relative (begun ++ namesOf path)).climb = 0)
    (noLinks : ∀ front target, front <+: namesOf path → front ≠ [] →
      tree.find ((relative (begun ++ front)).entered ++ base) ≠ some (.symlink target))
    (resolved : tree.resolve steps ((relative begun).entered ++ base) path = some reached) :
    reached = (relative (begun ++ namesOf path)).entered ++ base := by
  generalize isAt : (relative begun).entered ++ base = location at resolved
  fun_induction resolve tree steps location path generalizing begun with
  | case1 =>
    cases resolved
    rw [namesOf, filter_nil, append_nil, isAt]
  | case3 steps location rest isDirectory ih =>
    rw [namesOf_dot] at low noLinks ⊢
    exact ih low noLinks isAt resolved
  | case4 steps location rest isDirectory notDot ih =>
    rw [namesOf_cons notDot] at noLinks
    rw [namesOf_cons notDot, append_cons] at low ⊢
    have lowHere : (relative (begun ++ [parent])).climb = 0 :=
      Nat.le_zero.mp (low ▸ climb_le_append _ (namesOf rest))
    obtain ⟨innermost, entered⟩ := entered_of_climb_parent lowHere
    refine ih low (fun front target begins _ => ?_) ?_ resolved
    · rw [append_assoc]
      exact noLinks (parent :: front) target (cons_prefix_cons.mpr ⟨rfl, begins⟩) (cons_ne_nil _ _)
    · rw [← isAt, entered]
      rfl
  | case6 steps location part rest isDirectory notDot notParent target found ih =>
    have noLink := noLinks [part] target (namesOf_cons notDot rest ▸ ⟨_, rfl⟩) (cons_ne_nil _ _)
    rw [entered_append_name notParent, cons_append, isAt] at noLink
    exact (noLink found).elim
  | case7 steps location part rest isDirectory notDot notParent node found _ ih =>
    rw [namesOf_cons notDot] at noLinks
    rw [namesOf_cons notDot, append_cons] at low ⊢
    refine ih low (fun front target begins _ => ?_) ?_ resolved
    · rw [append_assoc]
      exact noLinks (part :: front) target (cons_prefix_cons.mpr ⟨rfl, begins⟩) (cons_ne_nil _ _)
    · rw [entered_append_name notParent, cons_append, isAt]
  | case2 | case5 | case8 => cases resolved

def directoryNodes (locations : List Location) : List (Location × Node) :=
  locations.flatMap fun location => location.tails.map fun place => (place, .directory)

variable {locations : List Location}

theorem mem_directoryNodes {entry : Location × Node} :
    entry ∈ directoryNodes locations ↔
      entry.2 = .directory ∧ ∃ location ∈ locations, entry.1 <:+ location := by
  constructor
  · intro member
    obtain ⟨location, isLocation, member⟩ := mem_flatMap.mp member
    obtain ⟨place, isTail, rfl⟩ := mem_map.mp member
    exact ⟨rfl, location, isLocation, (mem_tails place location).mp isTail⟩
  · rintro ⟨isDirectory, location, isLocation, above⟩
    apply mem_flatMap.mpr ⟨location, isLocation, _⟩
    apply mem_map.mpr ⟨entry.1, (mem_tails _ _).mpr above, _⟩
    rw [← isDirectory]

variable {place : Location}

theorem lookup_directoryNodes (locations : List Location) (below : place ≠ []) :
    lookup (directoryNodes locations) place =
      if ∃ location ∈ locations, place <:+ location then some .directory else none := by
  rw [lookup, if_neg below]
  by_cases listed : ∃ location ∈ locations, place <:+ location
  · rw [if_pos listed]
    cases found : (directoryNodes locations).find? fun entry => entry.1 = place with
    | none =>
      have absent := List.find?_eq_none.mp found (place, .directory)
        (mem_directoryNodes.mpr ⟨rfl, listed⟩)
      simp at absent
    | some entry =>
      have isDirectory := (mem_directoryNodes.mp (mem_of_find?_eq_some found)).1
      rw [Option.map_some, isDirectory]
  · rw [if_neg listed, List.find?_eq_none.mpr, Option.map_none]
    intro entry member same
    have isPlace : entry.1 = place := by simpa using same
    have above := (mem_directoryNodes.mp member).2
    rw [isPlace] at above
    exact listed above

def Tree.ofDirectories (locations : List Location) : Tree where
  nodes := directoryNodes locations
  closed := by
    intro name outer occupied
    rw [lookup_directoryNodes locations (by simp)] at occupied
    by_cases root : outer = []
    · rw [root]
      rfl
    · rw [lookup_directoryNodes locations root, if_pos]
      split at occupied
      · rename_i listed
        obtain ⟨location, isLocation, above⟩ := listed
        exact ⟨location, isLocation, (suffix_cons name outer).trans above⟩
      · exact (occupied rfl).elim

theorem find_ofDirectories (locations : List Location) (place : Location) :
    (ofDirectories locations).find place =
      if place = [] ∨ ∃ location ∈ locations, place <:+ location then some .directory
      else none := by
  by_cases root : place = []
  · rw [root, if_pos (.inl rfl)]
    rfl
  · have same := lookup_directoryNodes locations root
    simp only [root, false_or]
    exact same

section Steps

variable {start : Location} {part : List UInt8}

end Steps

theorem follow_parent {start : Location} (names : parent ∉ start) :
    follow true start parent = start.tail := by
  cases start with
  | nil => rfl
  | cons innermost outer =>
    have name : innermost ≠ parent := fun same => names (by simp [same])
    exact ascend_name name true outer

theorem walk_cons (fromRoot : Bool) (start : Location) (element : List UInt8)
    (path : List (List UInt8)) :
    walk fromRoot start (element :: path) = walk fromRoot (follow fromRoot start element) path :=
  rfl

/-- In a tree with all the directories on the way, parts are followed one after the
other. -/
theorem resolve_directories {front : List (List UInt8)} :
    ∀ {start : Location}, parent ∉ start →
      (∀ begun, begun <+: front →
        tree.find (walk true start (namesOf begun)) = some .directory) →
      ∀ (steps : Nat) (back : List (List UInt8)),
        tree.resolve (front.length + steps) start (front ++ back) =
          tree.resolve steps (walk true start (namesOf front)) back := by
  induction front with
  | nil =>
    intro start _ _ steps back
    rw [length_nil, Nat.zero_add]
    rfl
  | cons part rest ih =>
    intro start names directories steps back
    have here : tree.find start = some .directory := directories [] nil_prefix
    have later : ∀ begun, begun <+: rest →
        tree.find (walk true start (namesOf (part :: begun))) = some .directory :=
      fun begun begins => directories _ (cons_prefix_cons.mpr ⟨rfl, begins⟩)
    have more : (part :: rest).length + steps = rest.length + steps + 1 := by
      rw [length_cons]
      omega
    rw [more, cons_append]
    by_cases isDot : part = [dot]
    · subst isDot
      simp only [namesOf_dot] at later
      rw [resolve, if_pos here, if_pos rfl, namesOf_dot]
      exact ih names later steps back
    · simp only [namesOf_cons isDot, walk_cons] at later
      rw [namesOf_cons isDot, walk_cons]
      by_cases isParent : part = parent
      · subst isParent
        have namesTail : parent ∉ start.tail :=
          fun member => names (mem_of_mem_tail member)
        rw [follow_parent names] at later ⊢
        rw [resolve, if_pos here, if_neg (by decide), if_pos rfl]
        exact ih namesTail later steps back
      · have namesEntered : parent ∉ part :: start := by
          rw [mem_cons, not_or]
          exact ⟨fun same => isParent same.symm, names⟩
        rw [follow_name isParent] at later ⊢
        have entered : tree.find (part :: start) = some .directory := later [] nil_prefix
        rw [resolve, if_pos here, if_neg isDot, if_neg isParent, entered]
        exact ih namesEntered later steps back

theorem namesOf_followed (path : List UInt8) : namesOf (followed path) = elements path := by
  rw [followed, namesOf_append, elements_eq_namesOf]
  split
  · rw [namesOf_dot]
    exact append_nil _
  · exact append_nil _

theorem resolve_nil (tree : Tree) (steps : Nat) (start : Location) :
    tree.resolve steps start [] = some start := by
  cases steps with
  | zero | succ => rfl

section Links

variable {outer : List (List UInt8)} {last : List UInt8}

theorem locate_directories (started : process.start path = some process.cwd)
    (named : lastName path = some (outer, last)) (startNames : parent ∉ process.cwd)
    (directories : ∀ begun, begun <+: outer →
      tree.find (walk true process.cwd (namesOf begun)) = some .directory)
    (limit : process.limit = outer.length + steps) :
    tree.locate process path = some (walk true process.cwd (namesOf outer), last) := by
  have walked := resolve_directories startNames directories steps []
  rw [append_nil, resolve_nil] at walked
  rw [locate, started, Option.bind_some, named, Option.bind_some, limit]
  dsimp only
  rw [walked, Option.map_some]

theorem resolvePath_link (started : process.start path = some process.cwd)
    (noSlash : endsInSlash path = false) (named : lastName path = some (outer, last))
    (startNames : parent ∉ process.cwd) (directories : ∀ begun, begun <+: outer →
      tree.find (walk true process.cwd (namesOf begun)) = some .directory)
    (isLink : tree.find (last :: walk true process.cwd (namesOf outer)) =
      some (.symlink target)) (limit : process.limit = outer.length + (steps + 1)) :
    tree.resolvePath process path =
      tree.resolve steps (if rooted target then [] else walk true process.cwd (namesOf outer))
        (followed target) := by
  obtain ⟨-, notDot, notParent⟩ := lastName_parts named
  have walked := resolve_directories startNames directories (steps + 1) [last]
  rw [resolve, if_pos (directories _ prefix_rfl), if_neg notDot, if_neg notParent, isLink]
    at walked
  dsimp only at walked
  rw [resolvePath, started, Option.bind_some, followed_of_lastName noSlash named, limit,
    walked, append_nil]

theorem symlink_new {directory : Location}
    (noSlash : endsInSlash path = false) (usable : target ≠ [] ∧ 0 ∉ target)
    (located : tree.locate process path = some (directory, last))
    (inside : tree.find directory = some .directory) (free : tree.find (last :: directory) = none) :
    tree.symlink process target path =
      some (tree.create directory last (.symlink target) inside free, last :: directory) := by
  rw [symlink, if_neg (by simp [noSlash, usable]), located, Option.bind_some]
  dsimp only
  rw [createAt, dif_pos inside, dif_pos free]

end Links

theorem exists_fresh (names : List (List UInt8)) : ∃ fresh, fresh ∉ names ∧ parent ∉ [fresh] := by
  obtain ⟨fresh, absent⟩ := Infinite.exists_notMem_finset (parent :: names).toFinset
  rw [mem_toFinset, mem_cons, not_or] at absent
  exact ⟨fresh, absent.2, by simpa using Ne.symm absent.1⟩

theorem walk_from_root (path : List (List UInt8)) :
    walk true [] path = (relative path).entered := by
  rw [walk_root not_mem_nil, drop_nil, append_nil]

section Escapes

theorem ofDirectories_noLinks (locations : List Location) (location : Location)
    (target : List UInt8) : (ofDirectories locations).find location ≠ some (.symlink target) := by
  rw [find_ofDirectories]
  split
  · exact nofun
  · exact nofun

theorem ofDirectories_listed (listed : location ∈ locations) :
    (ofDirectories locations).find location = some .directory := by
  rw [find_ofDirectories, if_pos]
  exact .inr ⟨location, listed, suffix_rfl⟩

def visited (start : Location) (path : List (List UInt8)) : List Location :=
  path.inits.map (walk true start)

theorem mem_visited {start : Location} {path : List (List UInt8)} :
    place ∈ visited start path ↔ ∃ begun, begun <+: path ∧ walk true start begun = place := by
  rw [visited, mem_map]
  simp only [mem_inits]

theorem start_usable (nonempty : path ≠ []) (usable : 0 ∉ path) :
    process.start path = some (if rooted path then [] else process.cwd) := by
  rw [Process.start, if_neg]
  rw [not_or]
  exact ⟨nonempty, usable⟩

/-- In a tree with all the directories on the way, a path leads where it says. -/
theorem resolve_visited {start : Location} (startNames : parent ∉ start)
    (directories : ∀ place ∈ visited start (elements path), tree.find place = some .directory) :
    tree.resolve (followed path).length start (followed path) =
      some (walk true start (elements path)) := by
  have walked := resolve_directories startNames (fun begun begins => by
    apply directories
    rw [mem_visited, ← namesOf_followed]
    exact ⟨namesOf begun, begins.filter _, rfl⟩) 0 []
  rw [append_nil, Nat.add_zero, resolve_nil, namesOf_followed] at walked
  exact walked

theorem not_inside_of_not_mem {fresh : List UInt8}
    (absent : fresh ∉ place) : ¬ [fresh] <:+ place := by
  intro inside
  exact absent (inside.subset mem_cons_self)

theorem walk_out {fresh : List UInt8} (startNames : parent ∉ [fresh])
    {path : List (List UInt8)} (climbs : 0 < (relative path).climb) :
    walk true [fresh] path = (relative path).entered := by
  rw [walk_root startNames, drop_eq_nil_iff.mpr, append_nil]
  exact climbs

/-- A path that leads out of a working directory, and a tree without links in which it
can be followed. -/
theorem exists_path_out (usable : 0 ∉ path)
    (leaves : rooted path = true ∨ 0 < (relative (elements path)).climb) :
    ∃ (process : Process) (tree : Tree) (location : Location),
      tree.find process.cwd = some .directory ∧
      (∀ location target, tree.find location ≠ some (.symlink target)) ∧
      tree.change process path = some (tree, location) ∧ ¬ process.cwd <:+ location := by
  obtain ⟨fresh, absent, isName⟩ := exists_fresh (elements path)
  have nonempty : path ≠ [] := by
    rintro rfl
    revert leaves
    decide
  have startNames : parent ∉ (if rooted path then [] else [fresh]) := by
    split
    · exact not_mem_nil
    · exact isName
  have walked : walk true (if rooted path then [] else [fresh]) (elements path) =
      (relative (elements path)).entered := by
    cases fromRoot : rooted path with
    | true => exact walk_from_root _
    | false =>
      rw [fromRoot] at leaves
      exact walk_out isName (leaves.resolve_left (by decide))
  refine ⟨⟨[fresh], (followed path).length⟩,
    ofDirectories ([fresh] :: visited (if rooted path then [] else [fresh]) (elements path)),
    (relative (elements path)).entered, ofDirectories_listed mem_cons_self,
    ofDirectories_noLinks _, ?_, not_inside_of_not_mem fun member =>
      absent (entered_subset _ member)⟩
  rw [change, resolvePath, start_usable nonempty usable, Option.bind_some,
    resolve_visited startNames, walked]
  · rfl
  · intro place member
    exact ofDirectories_listed (mem_cons_of_mem _ member)

/-- A place that a path does not enter is not above the places that it visits. -/
theorem not_above_visited {fresh : List UInt8} (startNames : parent ∉ [fresh])
    {path link : List (List UInt8)} (absent : fresh ∉ path)
    (clear : ∀ front, front <+: path → (relative front).climb = 0 →
      (relative front).entered ≠ link) (member : place ∈ visited [fresh] path) :
    ¬ link ++ [fresh] <:+ place := by
  intro above
  obtain ⟨begun, begins, rfl⟩ := mem_visited.mp member
  rcases Nat.eq_zero_or_pos (relative begun).climb with low | climbs
  · rw [walk_root startNames, low, drop_zero] at above
    obtain ⟨below, same⟩ := above
    rw [← append_assoc] at same
    obtain ⟨front, earlier, entered⟩ :=
      exists_entered ⟨below, append_cancel_right same⟩
    apply clear front (earlier.trans begins) _ entered
    obtain ⟨rest, rfl⟩ := earlier
    exact Nat.le_zero.mp (low ▸ climb_le_append front rest)
  · rw [walk_out startNames climbs] at above
    apply absent
    apply begins.subset
    apply entered_subset
    apply above.subset
    exact mem_append_right _ mem_cons_self

section LinkOut

variable {target last fresh : List UInt8} {outer : List (List UInt8)}

def sceneOf (fresh : List UInt8) (outer : List (List UInt8)) (target : List UInt8) : Tree :=
  Tree.ofDirectories (visited [fresh] outer ++
    visited (if rooted target then [] else walk true [fresh] outer) (elements target))

theorem sceneOf_free (startNames : parent ∉ [fresh]) (absent : fresh ∉ outer ++ elements target)
    (low : (relative outer).climb = 0)
    (clear : ∀ front, front <+: outer ++ (if rooted target then [] else elements target) →
      (relative front).climb = 0 → (relative front).entered ≠ last :: (relative outer).entered) :
    (sceneOf fresh outer target).find (last :: walk true [fresh] outer) = none := by
  have based : last :: walk true [fresh] outer = last :: (relative outer).entered ++ [fresh] := by
    rw [walk_root startNames, low]
    rfl
  rw [based, sceneOf, find_ofDirectories, if_neg]
  rintro (empty | ⟨place, listed, above⟩)
  · cases empty
  · rcases mem_append.mp listed with inOuter | inTarget
    · refine not_above_visited startNames (fun member => absent (mem_append_left _ member))
        ?_ inOuter above
      intro front begins
      exact clear front (begins.trans (prefix_append _ _))
    · cases fromRoot : rooted target with
      | true =>
        rw [fromRoot] at inTarget
        obtain ⟨begun, begins, rfl⟩ := mem_visited.mp inTarget
        change _ <:+ walk true [] begun at above
        rw [walk_from_root] at above
        apply absent
        apply mem_append_right
        apply begins.subset
        apply entered_subset
        apply above.subset
        exact mem_append_right _ mem_cons_self
      | false =>
        rw [fromRoot] at inTarget clear
        obtain ⟨begun, begins, rfl⟩ := mem_visited.mp inTarget
        refine not_above_visited startNames absent clear ?_ above
        rw [mem_visited]
        refine ⟨outer ++ begun, (prefix_append_right_inj outer).mpr begins, ?_⟩
        exact walk_append true [fresh] outer begun

theorem walk_target (startNames : parent ∉ [fresh]) (absent : fresh ∉ outer ++ elements target)
    (leaves : rooted target = true ∨ 0 < (relative (outer ++ elements target)).climb) :
    fresh ∉ walk true (if rooted target then [] else walk true [fresh] outer)
      (elements target) := by
  intro member
  apply absent
  cases fromRoot : rooted target with
  | true =>
    rw [fromRoot] at member
    change fresh ∈ walk true [] (elements target) at member
    rw [walk_from_root] at member
    exact mem_append_right _ (entered_subset _ member)
  | false =>
    rw [fromRoot] at leaves member
    have climbs := leaves.resolve_left (by decide)
    change fresh ∈ walk true (walk true [fresh] outer) (elements target) at member
    rw [← walk_append, walk_out startNames climbs] at member
    exact entered_subset _ member

end LinkOut

/-- A link that leads out of a working directory, and a tree without links in which it
can be made and followed. -/
theorem exists_link_out {last : List UInt8} {outer : List (List UInt8)}
    (usable : 0 ∉ path) (relativePath : rooted path = false)
    (noSlash : endsInSlash path = false) (named : lastName path = some (outer, last))
    (low : (relative (namesOf outer)).climb = 0) (targetUsable : target ≠ [] ∧ 0 ∉ target)
    (clear : ∀ front, front <+: namesOf outer ++ (if rooted target then [] else elements target) →
      (relative front).climb = 0 →
      (relative front).entered ≠ last :: (relative (namesOf outer)).entered)
    (leaves : rooted target = true ∨
      0 < (relative (namesOf outer ++ elements target)).climb) :
    ∃ (process : Process) (tree next : Tree) (made location : Location),
      tree.find process.cwd = some .directory ∧
      (∀ location target, tree.find location ≠ some (.symlink target)) ∧
      tree.symlink process target path = some (next, made) ∧
      next.change process path = some (next, location) ∧ ¬ process.cwd <:+ location := by
  obtain ⟨fresh, absent, startNames⟩ := exists_fresh (namesOf outer ++ elements target)
  have nonempty : path ≠ [] := by
    rintro rfl
    cases named
  have started : Process.start ⟨[fresh], outer.length + ((followed target).length + 1)⟩ path =
      some [fresh] := by
    rw [start_usable nonempty usable, relativePath]
    rfl
  have directories : ∀ begun, begun <+: outer →
      (sceneOf fresh (namesOf outer) target).find (walk true [fresh] (namesOf begun)) =
        some .directory :=
    fun begun begins => ofDirectories_listed (mem_append_left _
      (mem_visited.mpr ⟨_, begins.filter _, rfl⟩))
  have inside := directories outer prefix_rfl
  have free := sceneOf_free startNames absent low clear
  have located : (sceneOf fresh (namesOf outer) target).locate
      ⟨[fresh], outer.length + ((followed target).length + 1)⟩ path =
        some (walk true [fresh] (namesOf outer), last) :=
    locate_directories started named startNames directories rfl
  refine ⟨⟨[fresh], outer.length + ((followed target).length + 1)⟩,
    sceneOf fresh (namesOf outer) target, _, _,
    walk true (if rooted target then [] else walk true [fresh] (namesOf outer))
      (elements target), directories [] nil_prefix, ofDirectories_noLinks _,
    symlink_new noSlash targetUsable located inside free, ?_,
    not_inside_of_not_mem (walk_target startNames absent leaves)⟩
  have found : ∀ location, (create _ _ last (.symlink target) inside free).find location =
      if last :: walk true [fresh] (namesOf outer) = location then some (.symlink target)
      else (sceneOf fresh (namesOf outer) target).find location := find_create inside free
  generalize create _ _ last (.symlink target) inside free = next at found
  have kept : ∀ place, (sceneOf fresh (namesOf outer) target).find place = some .directory →
      next.find place = some .directory := by
    intro place isDirectory
    rw [found, if_neg]
    · exact isDirectory
    · rintro rfl
      rw [free] at isDirectory
      cases isDirectory
  have isLink : next.find (last :: walk true [fresh] (namesOf outer)) = some (.symlink target) := by
    rw [found, if_pos rfl]
  have resolved := resolvePath_link started noSlash named startNames
    (fun begun begins => kept _ (directories begun begins)) isLink rfl
  have targetStart : parent ∉
      (if rooted target then [] else walk true [fresh] (namesOf outer)) := by
    split
    · exact not_mem_nil
    · exact parent_not_mem_walk startNames (namesOf outer)
  have out := resolve_visited targetStart fun place member =>
    kept place (ofDirectories_listed (mem_append_right _ member))
  rw [change, resolved, out]
  rfl

end Escapes

end GitlabRunner.FileTree
