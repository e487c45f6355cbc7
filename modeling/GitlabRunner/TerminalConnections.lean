import GitlabRunner.LockedSections

/-!
# The terminal connection of a session

A session of `session/session.go` has at most one terminal connection.  Handlers open one
and close their own, and `Kill` closes whichever is there, all of them under the lock of the
session.
-/

namespace GitlabRunner.TerminalConnections

open LockedSections Option

abbrev Error := List UInt8

/-- A session.  Connections are numbered in the order in which `Connect` returned them, and
`closed` says of each of them whether `Close` has been called. -/
structure Session where
  locked : Bool
  terminalConn : Option Nat
  closed : List Bool
  deriving DecidableEq, Repr

def Session.new : Session := ⟨false, none, []⟩

def Session.Open (session : Session) (conn : Nat) : Prop :=
  session.closed[conn]? = some false

def Session.close (session : Session) (conn : Nat) : Session :=
  { session with closed := session.closed.set conn true }

def Session.lock {Position : Type} (session : Session) (next : Position) :
    Option (Session × Position) :=
  if session.locked then none else some ({ session with locked := true }, next)

inductive ConnectResult where
  | connected (conn : Nat)
  | connectionInUse
  | failed (err : Error)
  deriving DecidableEq, Repr

/-- The positions of `newTerminalConn`: before the lock, before the test of the field,
before `Connect`, before the assignment, before the lock is given back, and returned. -/
inductive NewPc where
  | entering
  | checking
  | connecting
  | storing (conn : Nat)
  | leaving (result : ConnectResult)
  | returned (result : ConnectResult)
  deriving DecidableEq, Repr

/-- The next statement of `newTerminalConn`.  `err` is the error of `Connect`. -/
def newTerminalConn (err : Option Error) (session : Session) : NewPc → Option (Session × NewPc)
  | .entering => session.lock .checking
  | .checking =>
    some (session, if session.terminalConn.isSome then .leaving .connectionInUse else .connecting)
  | .connecting =>
    match err with
    | some err => some (session, .leaving (.failed err))
    | none =>
      some ({ session with closed := session.closed ++ [false] }, .storing session.closed.length)
  | .storing conn =>
    some ({ session with terminalConn := some conn }, .leaving (.connected conn))
  | .leaving result => some ({ session with locked := false }, .returned result)
  | .returned _ => none

/-- The positions of `closeTerminalConn`: before the lock, before `Close`, before the
comparison, before the field is cleared, before the lock is given back, and returned. -/
inductive ClosePc where
  | entering
  | closing
  | comparing
  | clearing
  | leaving
  | returned
  deriving DecidableEq, Repr

/-- The next statement of `closeTerminalConn`.  An error of `Close` is only logged. -/
def closeTerminalConn (conn : Nat) (session : Session) : ClosePc → Option (Session × ClosePc)
  | .entering => session.lock .closing
  | .closing => some (session.close conn, .comparing)
  | .comparing => some (session, if session.terminalConn = some conn then .clearing else .leaving)
  | .clearing => some ({ session with terminalConn := none }, .leaving)
  | .leaving => some ({ session with locked := false }, .returned)
  | .returned => none

/-- The positions of `Kill`: before the lock, before the test of the field, before `Close`,
before the field is cleared, before the lock is given back, and returned. -/
inductive KillPc where
  | entering
  | checking
  | closing
  | clearing (err : Option Error)
  | leaving (err : Option Error)
  | returned (err : Option Error)
  deriving DecidableEq, Repr

/-- The next statement of `Kill`.  `err` is the error of `Close`. -/
def kill (err : Option Error) (session : Session) : KillPc → Option (Session × KillPc)
  | .entering => session.lock .checking
  | .checking => some (session, if session.terminalConn.isNone then .leaving none else .closing)
  | .closing => session.terminalConn.map fun conn => (session.close conn, .clearing err)
  | .clearing err => some ({ session with terminalConn := none }, .leaving err)
  | .leaving err => some ({ session with locked := false }, .returned err)
  | .returned _ => none

inductive Thread where
  | opening (pc : NewPc)
  | ending (conn : Nat) (pc : ClosePc)
  | killing (pc : KillPc)
  deriving DecidableEq, Repr

/-- The next step of `execHandler` or of `Kill`.  A handler with a connection calls `Start`
and then closes the connection. -/
def advance (err : Option Error) (session : Session) : Thread → Option (Session × Thread)
  | .opening (.returned (.connected conn)) => some (session, .ending conn .entering)
  | .opening pc => (newTerminalConn err session pc).map fun (session, pc) => (session, .opening pc)
  | .ending conn pc =>
    (closeTerminalConn conn session pc).map fun (session, pc) => (session, .ending conn pc)
  | .killing pc => (kill err session pc).map fun (session, pc) => (session, .killing pc)

def Thread.inside : Thread → Bool
  | .opening .entering | .opening (.returned _) => false
  | .ending _ .entering | .ending _ .returned => false
  | .killing .entering | .killing (.returned _) => false
  | _ => true

def code : Code Session Thread (Option Error) where
  locked := Session.locked
  starts thread := thread = .opening .entering || thread = .killing .entering
  inside := Thread.inside
  advance := advance

abbrev System := Pool Session Thread

def System.new : System := ⟨.new, []⟩

/-- The thread has called `Connect` or `Close` and not made the assignment that belongs to
it. -/
def Thread.between : Thread → Bool
  | .opening (.storing _) | .ending _ .comparing | .ending _ .clearing => true
  | .killing (.clearing _) => true
  | _ => false

structure Exclusive (system : System) : Prop where
  atMostOne : ∀ first second, system.state.Open first → system.state.Open second → first = second
  current : (∀ thread ∈ system.threads, thread.between = false) →
    ∀ conn, system.state.terminalConn = some conn ↔ system.state.Open conn
  keepsNewer : ∀ index conn pc newer err later, system.threads[index]? = some (.ending conn pc) →
    system.state.terminalConn = some newer → newer ≠ conn →
    system.step code (.advance index err) = some later → later.state.terminalConn = some newer
  refuses : ∀ index err later, system.threads[index]? = some (.opening .checking) →
    system.step code (.advance index err) = some later →
    (later.threads[index]? = some (.opening (.leaving .connectionInUse)) ↔
      ∃ conn, system.state.Open conn)

theorem open_close (session : Session) (conn other : Nat) :
    (session.close conn).Open other ↔ session.Open other ∧ other ≠ conn := by
  unfold Session.Open Session.close
  rw [List.getElem?_set]
  by_cases same : conn = other
  · subst same
    simp
  · simp [same, Ne.symm same]

theorem open_append (session : Session) (other : Nat) :
    ({ session with closed := session.closed ++ [false] } : Session).Open other ↔
      session.Open other ∨ other = session.closed.length := by
  unfold Session.Open
  rcases Nat.lt_trichotomy other session.closed.length with less | rfl | greater
  · simp [List.getElem?_append_left less, Nat.ne_of_lt less]
  · simp
  · rw [List.getElem?_eq_none (by simp; omega), List.getElem?_eq_none (by omega)]
    simp
    omega

def Session.Consistent (session : Session) : Prop :=
  ∀ conn, session.terminalConn = some conn ↔ session.Open conn

/-- What holds of the session while a thread is at a position inside. -/
def Within : Thread → Session → Prop
  | .opening .connecting, session => session.Consistent ∧ session.terminalConn = none
  | .opening (.storing conn), session =>
    session.terminalConn = none ∧ ∀ other, session.Open other ↔ other = conn
  | .ending conn .comparing, session =>
    ∀ other, session.Open other ↔ session.terminalConn = some other ∧ other ≠ conn
  | .ending conn .clearing, session =>
    session.terminalConn = some conn ∧ ∀ other, ¬session.Open other
  | .killing (.clearing _), session => ∀ other, ¬session.Open other
  | _, session => session.Consistent

/-- A thread that was inside still is, or it has given the lock back. -/
def Proper (session : Session) (thread : Thread) : Prop :=
  (session.locked = true ∧ thread.inside = true ∧ Within thread session) ∨
    (session.locked = false ∧ thread.inside = false ∧ session.Consistent)
variable {session later : Session} {err : Option Error}

theorem newTerminalConn_proper {pc next : NewPc}
    (advanced : newTerminalConn err session pc = some (later, next))
    (isInside : (Thread.opening pc).inside = true) (locked : session.locked = true)
    (within : Within (.opening pc) session) : Proper later (.opening next) := by
  cases pc with
  | entering | returned => cases isInside
  | checking =>
    cases advanced
    cases known : session.terminalConn with
    | none => exact .inl ⟨locked, rfl, within, known⟩
    | some conn => exact .inl ⟨locked, rfl, within⟩
  | connecting =>
    obtain ⟨consistent, absent⟩ := within
    cases err with
    | some err =>
      cases advanced
      exact .inl ⟨locked, rfl, consistent⟩
    | none =>
      cases advanced
      refine .inl ⟨locked, rfl, absent, ?_⟩
      intro other
      rw [open_append, ← consistent, absent]
      simp
  | storing conn =>
    cases advanced
    refine .inl ⟨locked, rfl, ?_⟩
    intro other
    exact (some_inj.trans eq_comm).trans (within.2 other).symm
  | leaving result =>
    cases advanced
    exact .inr ⟨rfl, rfl, within⟩

theorem closeTerminalConn_proper {conn : Nat} {pc next : ClosePc}
    (advanced : closeTerminalConn conn session pc = some (later, next))
    (isInside : (Thread.ending conn pc).inside = true) (locked : session.locked = true)
    (within : Within (.ending conn pc) session) : Proper later (.ending conn next) := by
  cases pc with
  | entering | returned => cases isInside
  | closing =>
    cases advanced
    refine .inl ⟨locked, rfl, ?_⟩
    intro other
    rw [open_close, ← within other]
    rfl
  | comparing =>
    cases advanced
    by_cases own : session.terminalConn = some conn
    · rw [if_pos own]
      refine .inl ⟨locked, rfl, own, ?_⟩
      intro other isOpen
      obtain ⟨known, apart⟩ := (within other).mp isOpen
      exact apart (some.inj (known.symm.trans own))
    · rw [if_neg own]
      refine .inl ⟨locked, rfl, ?_⟩
      intro other
      rw [within other, iff_self_and]
      rintro known rfl
      exact own known
  | clearing =>
    cases advanced
    refine .inl ⟨locked, rfl, ?_⟩
    intro other
    exact iff_of_false (some_ne_none other).symm (within.2 other)
  | leaving =>
    cases advanced
    exact .inr ⟨rfl, rfl, within⟩

theorem kill_proper {pc next : KillPc} (advanced : kill err session pc = some (later, next))
    (isInside : (Thread.killing pc).inside = true) (locked : session.locked = true)
    (within : Within (.killing pc) session) : Proper later (.killing next) := by
  cases pc with
  | entering | returned => cases isInside
  | checking =>
    cases advanced
    cases session.terminalConn with
    | none => exact .inl ⟨locked, rfl, within⟩
    | some conn => exact .inl ⟨locked, rfl, within⟩
  | closing =>
    obtain ⟨conn, known, same⟩ := map_eq_some_iff.mp advanced
    cases same
    refine .inl ⟨locked, rfl, ?_⟩
    intro other isOpen
    obtain ⟨wasOpen, apart⟩ := (open_close session conn other).mp isOpen
    have otherKnown := (within other).mpr wasOpen
    exact apart (some.inj (otherKnown.symm.trans known))
  | clearing err =>
    cases advanced
    refine .inl ⟨locked, rfl, ?_⟩
    intro other
    exact iff_of_false (some_ne_none other).symm (within other)
  | leaving err =>
    cases advanced
    exact .inr ⟨rfl, rfl, within⟩
variable {thread next : Thread}

theorem advance_proper (advanced : advance err session thread = some (later, next))
    (isInside : thread.inside = true) (locked : session.locked = true)
    (within : Within thread session) : Proper later next := by
  cases thread with
  | opening pc =>
    have opens : advance err session (.opening pc) =
        (newTerminalConn err session pc).map fun (session, pc) => (session, .opening pc) := by
      cases pc with
      | returned result => cases isInside
      | _ => rfl
    rw [opens] at advanced
    obtain ⟨⟨_, _⟩, moved, same⟩ := map_eq_some_iff.mp advanced
    cases same
    exact newTerminalConn_proper moved isInside locked within
  | ending conn pc =>
    obtain ⟨⟨_, _⟩, moved, same⟩ := map_eq_some_iff.mp advanced
    cases same
    exact closeTerminalConn_proper moved isInside locked within
  | killing pc =>
    obtain ⟨⟨_, _⟩, moved, same⟩ := map_eq_some_iff.mp advanced
    cases same
    exact kill_proper moved isInside locked within

theorem lock_proper
    (isInside : thread.inside = true) (consistent : Within thread = Session.Consistent)
    (entered : session.lock thread = some (later, next)) :
    session.locked = false ∧ later.locked = true ∧ next.inside = true ∧
      (session.Consistent → Within next later) := by
  cases unlocked : session.locked <;> simp [Session.lock, unlocked] at entered
  obtain ⟨rfl, rfl⟩ := entered
  rw [consistent]
  exact ⟨rfl, rfl, isInside, id⟩

theorem lock_map {Position : Type} (session : Session) (next : Position)
    (thread : Position → Thread) :
    ((session.lock next).map fun (session, pc) => (session, thread pc)) =
      session.lock (thread next) := by
  unfold Session.lock
  split <;> rfl

/-- A thread outside has to take the lock before it changes anything. -/
theorem advance_outside (advanced : advance err session thread = some (later, next))
    (isOutside : thread.inside = false) :
    (later = session ∧ next.inside = false) ∨
      (session.locked = false ∧ later.locked = true ∧ next.inside = true ∧
        (session.Consistent → Within next later)) := by
  unfold Thread.inside at isOutside
  split at isOutside
  · exact .inr (lock_proper rfl rfl ((lock_map session _ _).symm.trans advanced))
  · rename_i result
    cases result with
    | connected conn =>
      cases advanced
      exact .inl ⟨rfl, rfl⟩
    | connectionInUse | failed => cases advanced
  · exact .inr (lock_proper rfl rfl ((lock_map session _ _).symm.trans advanced))
  · cases advanced
  · exact .inr (lock_proper rfl rfl ((lock_map session _ _).symm.trans advanced))
  · cases advanced
  · cases isOutside

theorem guard : Guard code Session.Consistent Within where
  starts thread starts := by
    simp only [code, Bool.or_eq_true, decide_eq_true_eq] at starts
    rcases starts with rfl | rfl <;> rfl
  outside _ _ _ _ _ := advance_outside
  inside _ _ _ _ _ := advance_proper

theorem guarded_of_run {actions : List (Action Thread (Option Error))} {system : System}
    (reached : ActionRuns.run (Pool.step code) System.new actions = some system) :
    system.Guarded code Session.Consistent Within := by
  have initially : System.new.Guarded code Session.Consistent Within := by
    refine .free rfl ?_ ?_
    · intro thread member
      cases member
    · intro conn
      simp [System.new, Session.new, Session.Open]
  exact initially.run guard reached

theorem Session.Consistent.unique (consistent : session.Consistent)
    {first second : Nat} (isFirst : session.Open first) (isSecond : session.Open second) :
    first = second :=
  some.inj (((consistent first).mpr isFirst).symm.trans ((consistent second).mpr isSecond))

/-- Wherever the thread inside is, at most one connection is open. -/
theorem Within.unique (within : Within thread session)
    {first second : Nat} (isFirst : session.Open first) (isSecond : session.Open second) :
    first = second := by
  unfold Within at within
  split at within
  · exact within.1.unique isFirst isSecond
  · exact ((within.2 first).mp isFirst).trans ((within.2 second).mp isSecond).symm
  · have isCurrent := ((within first).mp isFirst).1
    exact some.inj (isCurrent.symm.trans ((within second).mp isSecond).1)
  · exact absurd isFirst (within.2 first)
  · exact absurd isFirst (within first)
  · exact Session.Consistent.unique within isFirst isSecond

theorem Within.consistent (within : Within thread session)
    (settled : thread.between = false) : session.Consistent := by
  unfold Within at within
  split at within
  · exact within.1
  · cases settled
  · cases settled
  · cases settled
  · cases settled
  · exact within

/-- The close of a connection leaves the field alone if another connection is in it. -/
theorem closeTerminalConn_terminalConn {conn newer : Nat}
    {pc next : ClosePc} (advanced : closeTerminalConn conn session pc = some (later, next))
    (within : pc = .clearing → Within (.ending conn .clearing) session)
    (known : session.terminalConn = some newer) (apart : newer ≠ conn) :
    later.terminalConn = some newer := by
  cases pc with
  | entering =>
    cases locked : session.locked <;> simp [closeTerminalConn, Session.lock, locked] at advanced
    rw [← advanced.1]
    exact known
  | clearing =>
    have own := (within rfl).1
    exact absurd (some.inj (known.symm.trans own)) apart
  | returned => cases advanced
  | _ =>
    cases advanced
    exact known

/-- Every interleaving of the three operations keeps the connections apart. -/
theorem exclusive_of_run (actions : List (Action Thread (Option Error))) (system : System)
    (reached : ActionRuns.run (Pool.step code) System.new actions = some system) :
    Exclusive system := by
  have guarded := guarded_of_run reached
  constructor
  · intro first second isFirst isSecond
    cases guarded with
    | free _ _ consistent => exact consistent.unique isFirst isSecond
    | held _ _ _ _ _ _ within => exact within.unique isFirst isSecond
  · intro settled
    cases guarded with
    | free _ _ consistent => exact consistent
    | held _ thread _ found _ _ within =>
      exact within.consistent (settled thread (List.mem_of_getElem? found))
  · intro index conn pc newer err later found known apart stepTo
    obtain ⟨state, next, advanced, rfl⟩ := Pool.step_advance found stepTo
    obtain ⟨⟨_, _⟩, closed, same⟩ := map_eq_some_iff.mp advanced
    cases same
    refine closeTerminalConn_terminalConn closed ?_ known apart
    rintro rfl
    exact (guarded.holder found rfl).2.2
  · intro index err later found stepTo
    have bound := (List.getElem?_eq_some_iff.mp found).1
    have consistent : system.state.Consistent := (guarded.holder found rfl).2.2
    obtain ⟨state, next, advanced, rfl⟩ := Pool.step_advance found stepTo
    cases advanced
    simp only [List.getElem?_set_self bound, ← consistent _, ← isSome_iff_exists]
    cases system.state.terminalConn <;> simp

/-- A connection is killed, a newer one is opened, and then the first handler closes its
own. -/
theorem exclusive_after_kill : Exclusive
    { state := ⟨false, some 1, [true, false]⟩
      threads := [.ending 0 .returned, .killing (.returned none),
        .opening (.returned (.connected 1))] } :=
  exclusive_of_run
    [.start (.opening .entering), .advance 0 none, .advance 0 none, .advance 0 none,
      .advance 0 none, .advance 0 none, .start (.killing .entering), .advance 1 none,
      .advance 1 none, .advance 1 none, .advance 1 none, .advance 1 none,
      .start (.opening .entering), .advance 2 none, .advance 2 none, .advance 2 none,
      .advance 2 none, .advance 2 none, .advance 0 none, .advance 0 none, .advance 0 none,
      .advance 0 none, .advance 0 none]
    _ rfl

end GitlabRunner.TerminalConnections
