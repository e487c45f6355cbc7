import GitlabRunner.ActionRuns

/-!
# Threads with a lock

Threads share a state with a lock in it.  A thread is either inside, between taking the lock
and giving it back, or outside, where it does not touch the state.
-/

namespace GitlabRunner.LockedSections

open Option

variable {State Thread Input : Type}
variable (State Thread Input) in
/-- The code of the threads.  `starts` are the positions in which a thread begins. -/
structure Code where
  locked : State → Bool
  starts : Thread → Bool
  inside : Thread → Bool
  advance : Input → State → Thread → Option (State × Thread)

variable (State Thread) in
structure Pool where
  state : State
  threads : List Thread
  deriving DecidableEq, Repr

variable (Thread Input) in
/-- A new thread, or the next step of a thread. -/
inductive Action where
  | start (thread : Thread)
  | advance (index : Nat) (input : Input)
  deriving DecidableEq, Repr

def Pool.step (code : Code State Thread Input) (pool : Pool State Thread) :
    Action Thread Input → Option (Pool State Thread)
  | .start thread =>
    if code.starts thread then some { pool with threads := pool.threads ++ [thread] } else none
  | .advance index input =>
    pool.threads[index]?.bind fun thread =>
      (code.advance input pool.state thread).map fun (state, next) =>
        { state := state, threads := pool.threads.set index next }

/-- `Free` is what holds of the state while the lock is free, and `Within` what belongs to
the position of the thread inside. -/
structure Guard (code : Code State Thread Input) (Free : State → Prop)
    (Within : Thread → State → Prop) : Prop where
  starts : ∀ thread, code.starts thread = true → code.inside thread = false
  outside : ∀ input state thread later next,
    code.advance input state thread = some (later, next) → code.inside thread = false →
      (later = state ∧ code.inside next = false) ∨
      (code.locked state = false ∧ code.locked later = true ∧ code.inside next = true ∧
        (Free state → Within next later))
  inside : ∀ input state thread later next,
    code.advance input state thread = some (later, next) → code.inside thread = true →
    code.locked state = true → Within thread state →
      (code.locked later = true ∧ code.inside next = true ∧ Within next later) ∨
      (code.locked later = false ∧ code.inside next = false ∧ Free later)

def OthersOutside (code : Code State Thread Input) (threads : List Thread) (index : Nat) : Prop :=
  ∀ other thread, other ≠ index → threads[other]? = some thread → code.inside thread = false

/-- The lock is free and nobody is inside, or one thread is. -/
inductive Pool.Guarded (code : Code State Thread Input) (Free : State → Prop)
    (Within : Thread → State → Prop) (pool : Pool State Thread) : Prop where
  | free (unlocked : code.locked pool.state = false)
      (outside : ∀ thread ∈ pool.threads, code.inside thread = false) (holds : Free pool.state)
  | held (index : Nat) (thread : Thread) (locked : code.locked pool.state = true)
      (found : pool.threads[index]? = some thread) (isInside : code.inside thread = true)
      (others : OthersOutside code pool.threads index) (holds : Within thread pool.state)

variable {code : Code State Thread Input} {Free : State → Prop} {Within : Thread → State → Prop}
  {pool later : Pool State Thread} {action : Action Thread Input}
variable {index : Nat} {thread : Thread} {input : Input}

theorem Pool.step_advance (found : pool.threads[index]? = some thread)
    (stepTo : pool.step code (.advance index input) = some later) :
    ∃ state next, code.advance input pool.state thread = some (state, next) ∧
      later = { state := state, threads := pool.threads.set index next } := by
  rw [Pool.step, found, bind_some, map_eq_some_iff] at stepTo
  obtain ⟨⟨state, next⟩, advanced, same⟩ := stepTo
  exact ⟨state, next, advanced, same.symm⟩

theorem Pool.step_cases (stepTo : pool.step code action = some later) :
    (∃ thread, action = .start thread ∧ code.starts thread = true ∧
      later = { pool with threads := pool.threads ++ [thread] }) ∨
    ∃ index input thread state next, action = .advance index input ∧
      pool.threads[index]? = some thread ∧
      code.advance input pool.state thread = some (state, next) ∧
      later = { state := state, threads := pool.threads.set index next } := by
  cases action with
  | start thread =>
    simp only [Pool.step, ite_none_right_eq_some, some.injEq] at stepTo
    exact .inl ⟨thread, rfl, stepTo.1, stepTo.2.symm⟩
  | advance index input =>
    obtain ⟨thread, found, -⟩ := bind_eq_some_iff.mp stepTo
    obtain ⟨state, next, advanced, same⟩ := Pool.step_advance found stepTo
    exact .inr ⟨index, input, thread, state, next, rfl, found, advanced, same⟩

variable {threads : List Thread} {next : Thread}

theorem OthersOutside.set {other : Nat} (others : OthersOutside code threads index)
    (changed : other = index ∨ code.inside next = false) :
    OthersOutside code (threads.set other next) index := by
  intro position thread apart found
  rw [List.getElem?_set] at found
  split at found
  · rename_i same
    split at found
    · obtain rfl := some.inj found
      exact changed.resolve_left (same ▸ apart)
    · cases found
  · exact others position thread apart found

theorem othersOutside_of_outside
    (outside : ∀ thread ∈ threads, code.inside thread = false) (index : Nat) :
    OthersOutside code threads index :=
  fun _ thread _ found => outside thread (List.mem_of_getElem? found)

theorem OthersOutside.leave
    (others : OthersOutside code threads index) (leaves : code.inside next = false) :
    ∀ thread ∈ threads.set index next, code.inside thread = false := by
  intro thread member
  obtain ⟨position, found⟩ := List.mem_iff_getElem?.mp member
  by_cases own : position = index
  · rw [own, List.getElem?_set_self'] at found
    obtain ⟨_, _, rfl⟩ := map_eq_some_iff.mp found
    exact leaves
  · rw [List.getElem?_set_ne (Ne.symm own)] at found
    exact others position thread own found

section

variable (guarded : pool.Guarded code Free Within)

include guarded

theorem Pool.Guarded.start
    (isOutside : code.inside thread = false) :
    ({ pool with threads := pool.threads ++ [thread] } : Pool State Thread).Guarded
      code Free Within := by
  cases guarded with
  | free unlocked outside holds =>
    refine .free unlocked ?_ holds
    simpa [or_imp, forall_and] using ⟨outside, isOutside⟩
  | held index holder locked found isInside others holds =>
    have bound := (List.getElem?_eq_some_iff.mp found).1
    refine .held index holder locked ?_ isInside ?_ holds
    · rw [List.getElem?_append_left bound, found]
    · intro other started apart isFound
      rw [List.getElem?_append] at isFound
      split at isFound
      · exact others other started apart isFound
      · have new := List.mem_of_getElem? isFound
        rw [List.mem_singleton.mp new]
        exact isOutside

theorem Pool.Guarded.holder (found : pool.threads[index]? = some thread)
    (isInside : code.inside thread = true) :
    code.locked pool.state = true ∧ OthersOutside code pool.threads index ∧
      Within thread pool.state := by
  cases guarded with
  | free _ outside _ => simp [outside thread (List.mem_of_getElem? found)] at isInside
  | held holding holder locked isFound _ others holds =>
    by_cases same : index = holding
    · subst same
      obtain rfl : thread = holder := by simpa [found] using isFound
      exact ⟨locked, others, holds⟩
    · simp [others index thread same found] at isInside

variable (guard : Guard code Free Within)

include guard

theorem Pool.Guarded.outside {state : State}
    (found : pool.threads[index]? = some thread) (isOutside : code.inside thread = false)
    (advanced : code.advance input pool.state thread = some (state, next)) :
    ({ state := state, threads := pool.threads.set index next } : Pool State Thread).Guarded
      code Free Within := by
  have bound := (List.getElem?_eq_some_iff.mp found).1
  obtain ⟨rfl, stays⟩ | ⟨unlocked, locked, enters, within⟩ :=
    guard.outside _ _ _ _ _ advanced isOutside
  · cases guarded with
    | free unlocked outside holds =>
      exact .free unlocked ((othersOutside_of_outside outside index).leave stays) holds
    | held holding holder locked isFound isInside others holds =>
      have apart : index ≠ holding := by
        rintro rfl
        rw [found, some.injEq] at isFound
        simp [← isFound, isOutside] at isInside
      refine .held holding holder locked ?_ isInside (others.set (.inr stays)) holds
      rw [List.getElem?_set_ne apart, isFound]
  · cases guarded with
    | free _ outside holds =>
      exact .held index next locked (List.getElem?_set_self bound) enters
        ((othersOutside_of_outside outside index).set (.inl rfl)) (within holds)
    | held holding holder isLocked isFound isInside others holds =>
      rw [unlocked] at isLocked
      cases isLocked

theorem Pool.Guarded.inside {state : State}
    (found : pool.threads[index]? = some thread) (isInside : code.inside thread = true)
    (advanced : code.advance input pool.state thread = some (state, next)) :
    ({ state := state, threads := pool.threads.set index next } : Pool State Thread).Guarded
      code Free Within := by
  have bound := (List.getElem?_eq_some_iff.mp found).1
  obtain ⟨locked, others, holds⟩ := guarded.holder found isInside
  obtain ⟨stillLocked, stays, within⟩ | ⟨unlocked, leaves, free⟩ :=
    guard.inside _ _ _ _ _ advanced isInside locked holds
  · exact .held index next stillLocked (List.getElem?_set_self bound) stays
      (others.set (.inl rfl)) within
  · exact .free unlocked (others.leave leaves) free

theorem Pool.Guarded.step (stepTo : pool.step code action = some later) :
    later.Guarded code Free Within := by
  obtain ⟨started, -, starts, rfl⟩ | ⟨index, input, thread, state, next, -, found, advanced, rfl⟩ :=
    Pool.step_cases stepTo
  · exact guarded.start (guard.starts started starts)
  · cases position : code.inside thread with
    | false => exact guarded.outside guard found position advanced
    | true => exact guarded.inside guard found position advanced

theorem Pool.Guarded.run {actions : List (Action Thread Input)}
    (reached : ActionRuns.run (Pool.step code) pool actions = some later) :
    later.Guarded code Free Within :=
  ActionRuns.run_invariant_of_step (Pool.Guarded code Free Within)
    (fun _ _ _ guarded stepTo => guarded.step guard stepTo) guarded reached

end

end GitlabRunner.LockedSections
