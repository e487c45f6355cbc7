import GitlabRunner.GoStrings

/-!
# Looking up the session of a request

`findSessionByURL` of `commands/builds_helper.go` reads the endpoint of every build it
passes, and a build may have no session.
-/

namespace GitlabRunner.SessionLookup

open ByteText GoStrings

structure Session where
  endpoint : List UInt8
  token : List UInt8
  deriving DecidableEq, Repr

structure Build where
  session : Option Session
  deriving DecidableEq, Repr

/-- What `processRunner` finds when it starts a build: whether there is a session server,
the feature of the executor, and the session that `NewSession` would make. -/
structure Start where
  sessionServer : Bool
  sessionFeature : Bool
  fresh : Session
  deriving DecidableEq, Repr

def createSession (start : Start) : Option Session :=
  if !start.sessionServer || !start.sessionFeature then none else some start.fresh

def addBuild (builds : List Build) (start : Start) : List Build :=
  builds ++ [⟨createSession start⟩]

/-- The read of a field of a session that is not there. -/
structure NilDereference where
  deriving DecidableEq, Repr

def findSessionByURL (url : List UInt8) : List Build → Except NilDereference (Option Session)
  | [] => .ok none
  | build :: builds =>
    match build.session with
    | none => .error ⟨⟩
    | some session =>
      if startsWith url (session.endpoint ++ [byte '/']) then .ok (some session)
      else findSessionByURL url builds

def Build.Serves (build : Build) (url : List UInt8) (session : Session) : Prop :=
  build.session = some session ∧ startsWith url (session.endpoint ++ [byte '/']) = true

/-- The session of a build that serves the request, or none if there is no such build. -/
def Exact (url : List UInt8) (builds : List Build) :
    Except NilDereference (Option Session) → Prop
  | .error _ => False
  | .ok (some session) => ∃ build ∈ builds, build.Serves url session
  | .ok none => ∀ build ∈ builds, ∀ session, ¬ build.Serves url session

/-- Whoever serves the request stands before the first build without a session. -/
def ServedEarly (url : List UInt8) : List Build → Prop
  | [] => True
  | build :: builds =>
    build.session ≠ none ∧ ((∃ session, build.Serves url session) ∨ ServedEarly url builds)

theorem exact_findSessionByURL_iff (url : List UInt8) (builds : List Build) :
    Exact url builds (findSessionByURL url builds) ↔ ServedEarly url builds := by
  induction builds with
  | nil => simp [findSessionByURL, Exact, ServedEarly]
  | cons build builds ih =>
    cases isSession : build.session with
    | none => simp [findSessionByURL, isSession, Exact, ServedEarly]
    | some session =>
      by_cases serves : startsWith url (session.endpoint ++ [byte '/']) = true
      · have found : build.Serves url session := ⟨isSession, serves⟩
        simp only [findSessionByURL, isSession, if_pos serves, ServedEarly]
        exact ⟨fun _ => ⟨nofun, .inl ⟨session, found⟩⟩, fun _ => ⟨build, List.mem_cons_self, found⟩⟩
      · have skipped : ∀ other, ¬ build.Serves url other := by
          rintro other ⟨isOther, matched⟩
          rw [isSession, Option.some.injEq] at isOther
          exact serves (isOther ▸ matched)
        have same : ∀ result, Exact url (build :: builds) result ↔ Exact url builds result := by
          rintro (failure | found | session)
          · rfl
          · simp [Exact, skipped]
          · simp [Exact, skipped]
        simp only [findSessionByURL, isSession, if_neg serves, ServedEarly, same, ih]
        simp [skipped]

/-- The lookup among the builds that `processRunner` has added is safe and exact if and
only if no build without a session stands before the one that is looked for. -/
theorem findSessionByURL_exact_iff (url : List UInt8) (starts : List Start) :
    Exact url (starts.foldl addBuild []) (findSessionByURL url (starts.foldl addBuild [])) ↔
      ServedEarly url (starts.map fun start => ⟨createSession start⟩) := by
  have added : ∀ builds, starts.foldl addBuild builds =
      builds ++ starts.map fun start => ⟨createSession start⟩ := by
    induction starts with
    | nil => exact fun builds => (List.append_nil builds).symm
    | cons start starts ih =>
      intro builds
      rw [List.foldl_cons, ih, addBuild, List.append_assoc]
      rfl
  rw [exact_findSessionByURL_iff, added, List.nil_append]

/-- A shell build stands before the build that the request is for. -/
theorem shell_build_dereferenced :
    ¬ Exact (ascii "/session/a/exec")
      ([⟨true, false, ⟨[], []⟩⟩, ⟨true, true, ⟨ascii "/session/a", []⟩⟩].foldl addBuild [])
      (findSessionByURL (ascii "/session/a/exec")
        ([⟨true, false, ⟨[], []⟩⟩, ⟨true, true, ⟨ascii "/session/a", []⟩⟩].foldl addBuild [])) :=
  not_false

end GitlabRunner.SessionLookup
