import GitlabRunner.ActionRuns

/-!
# Programs that run side by side

A program is a tree of atomic commands.  A pool of programs shares one state: an
action lets one program perform its next command, with an input that stands for
whatever the environment decides, and a command may start a new program.

A discipline states what every command keeps: an invariant of the shared state,
and for each thread the changes that it has to expect from the others.  `Safe`
says that a program keeps the discipline from a state on.  The rules below prove
it command by command, and a pool of safe programs stays safe along every run.
-/

namespace GitlabRunner.Concurrent

open Option

inductive Program (Command : Type → Type) (α : Type) : Type 1 where
  | done (value : α)
  | perform {β : Type} (command : Command β) (next : β → Program Command α)

namespace Program

variable {Command : Type → Type} {α β : Type}

def bind : Program Command α → (α → Program Command β) → Program Command β
  | .done value, rest => rest value
  | .perform command next, rest => .perform command fun response => (next response).bind rest

instance : Monad (Program Command) where
  pure := .done
  bind := bind

def call (command : Command α) : Program Command α :=
  .perform command .done

def isDone : Program Command α → Bool
  | .done _ => true
  | .perform _ _ => false

/-- Every command that a program can perform has a property. -/
def Every (property : {β : Type} → Command β → Bool) : Program Command α → Prop
  | .done _ => True
  | .perform command next =>
    property command = true ∧ ∀ response, (next response).Every property

variable {property : {β : Type} → Command β → Bool}

theorem Every.pure (value : α) : (Pure.pure value : Program Command α).Every property :=
  trivial

theorem Every.call {command : Command α} (holds : property command = true) :
    (call command).Every property :=
  ⟨holds, fun _ => trivial⟩

variable {rest : α → Program Command β} {program : Program Command α}

theorem Every.bind
    (every : program.Every property) (follows : ∀ value, (rest value).Every property) :
    (program >>= rest).Every property := by
  induction program with
  | done value => exact follows value
  | perform command next ih => exact ⟨every.1, fun response => ih response (every.2 response)⟩

theorem Every.after {command : Command α}
    (holds : property command = true) (follows : ∀ response, (rest response).Every property) :
    (Program.call command >>= rest).Every property :=
  ⟨holds, follows⟩

theorem Every.mono {weak : {β : Type} → Command β → Bool} (every : program.Every property)
    (weaker : ∀ {β : Type} (command : Command β), property command = true →
      weak command = true) : program.Every weak := by
  induction program with
  | done value => trivial
  | perform command next ih =>
    exact ⟨weaker command every.1, fun response => ih response (every.2 response)⟩

/-- Every value that a program can return has a property, whatever its commands
respond. -/
def Returns (valid : α → Prop) : Program Command α → Prop
  | .done value => valid value
  | .perform _ next => ∀ response, (next response).Returns valid

theorem Returns.pure {valid : α → Prop} {value : α} (holds : valid value) :
    (Pure.pure value : Program Command α).Returns valid :=
  holds

theorem Returns.after {valid : β → Prop} (follows : ∀ value, (rest value).Returns valid) :
    (program >>= rest).Returns valid := by
  induction program with
  | done value => exact follows value
  | perform command next ih => exact ih

end Program

/-- What the commands do.  `execute` gets the number of the thread that performs
the command and the number that a started thread will have; a command that is
not enabled has no result. -/
structure Semantics (State : Type) (Command : Type → Type) (Input Job : Type) where
  execute : Nat → Nat → {β : Type} → Command β → Input → State →
    Option (State × β × Option Job)
  body : Job → Program Command Unit

variable {State : Type} {Command : Type → Type} {Input Job : Type}

structure Pool (State : Type) (Command : Type → Type) where
  state : State
  threads : List (Program Command Unit)

def Pool.step (semantics : Semantics State Command Input Job) (pool : Pool State Command)
    (action : Nat × Input) : Option (Pool State Command) :=
  match pool.threads[action.1]? with
  | some (.perform command next) =>
    (semantics.execute action.1 pool.threads.length command action.2 pool.state).map
      fun (state, response, job) =>
        { state := state
          threads := pool.threads.set action.1 (next response) ++
            job.toList.map semantics.body }
  | _ => none

/-- A condition on commands holds for the command that an action performs. -/
def Pool.meets (allowed : Nat → {β : Type} → Command β → Input → State → Bool)
    (pool : Pool State Command) (action : Nat × Input) : Bool :=
  match pool.threads[action.1]? with
  | some (.perform command _) => allowed action.1 command action.2 pool.state
  | _ => true

/-- A rely-guarantee discipline.  `allowed` restricts the commands of the runs
that are considered, `Invariant` may mention the number of threads, `Rely` is
what a thread expects the others to do, and `Spawned` is what a started thread
finds. -/
structure Discipline (semantics : Semantics State Command Input Job) where
  allowed : Nat → {β : Type} → Command β → Input → State → Bool
  Invariant : Nat → State → Prop
  Rely : Nat → State → State → Prop
  Spawned : Job → Nat → State → Prop
  rely_refl : ∀ self state, Rely self state state
  rely_trans : ∀ self first second third,
    Rely self first second → Rely self second third → Rely self first third

namespace Discipline

variable {semantics : Semantics State Command Input Job} (discipline : Discipline semantics)
  {α β : Type}

/-- A command keeps the discipline and leads from `pre` to `post`. -/
def Keeps (self : Nat) (pre : State → Prop) (command : Command β)
    (post : β → State → Prop) : Prop :=
  ∀ threads state input after response job, pre state →
    discipline.Invariant threads state → self < threads →
    discipline.allowed self command input state = true →
    semantics.execute self threads command input state = some (after, response, job) →
    discipline.Invariant (threads + job.toList.length) after ∧
      (∀ other < threads, other ≠ self → discipline.Rely other state after) ∧
      (∀ started ∈ job, discipline.Spawned started threads after) ∧
      post response after

/-- A program keeps the discipline from a state on, whatever the other threads
do before each of its commands, and ends in `post`. -/
def Safe (self : Nat) (post : α → State → Prop) : Program Command α → State → Prop
  | .done value, state => post value state
  | .perform command next, state =>
    discipline.Keeps self (discipline.Rely self state) command
      fun response after => Safe self post (next response) after

/-- A property of the state that the other threads do not change. -/
def Stable (self : Nat) (property : State → Prop) : Prop :=
  ∀ state later, discipline.Rely self state later → property state → property later

variable {discipline} {self : Nat}

theorem Stable.and {first second : State → Prop} (left : discipline.Stable self first)
    (right : discipline.Stable self second) :
    discipline.Stable self fun state => first state ∧ second state :=
  fun state later others both =>
    ⟨left state later others both.1, right state later others both.2⟩

theorem Keeps.mono {pre strong : State → Prop} {command : Command β}
    {post weak : β → State → Prop} (keeps : discipline.Keeps self pre command post)
    (stronger : ∀ state, strong state → pre state)
    (weaker : ∀ response state, post response state → weak response state) :
    discipline.Keeps self strong command weak := by
  intro threads state input after response job holds invariant running allowed executed
  obtain ⟨kept, others, started, ends⟩ := keeps threads state input after response job
    (stronger state holds) invariant running allowed executed
  exact ⟨kept, others, started, weaker response after ends⟩
variable {state : State} {post : α → State → Prop} {program : Program Command α}
variable {rest : α → Program Command β} {last : β → State → Prop}

section

variable (safe : discipline.Safe self post program state)

include safe

theorem Safe.later {later : State} (stable : ∀ value, discipline.Stable self (post value))
    (others : discipline.Rely self state later) : discipline.Safe self post program later := by
  cases program with
  | done value => exact stable value state later others safe
  | perform command next =>
    refine Keeps.mono safe ?_ (fun _ _ => id)
    intro last relied
    exact discipline.rely_trans self state later last others relied

theorem Safe.mono {weak : α → State → Prop}
    (weaker : ∀ value state, post value state → weak value state) :
    discipline.Safe self weak program state := by
  induction program generalizing state with
  | done value => exact weaker value state safe
  | perform command next ih =>
    exact Keeps.mono safe (fun _ => id) (fun response after => ih response)

theorem Safe.returns {valid : α → Prop} (returns : program.Returns valid) :
    discipline.Safe self (fun value state => valid value ∧ post value state) program state := by
  induction program generalizing state with
  | done value => exact ⟨returns, safe⟩
  | perform command next ih =>
    exact Keeps.mono safe (fun _ => id)
      (fun response after safe => ih response safe (returns response))

theorem Safe.bind (follows : ∀ value state, post value state →
      discipline.Safe self last (rest value) state) :
    discipline.Safe self last (program >>= rest) state := by
  induction program generalizing state with
  | done value => exact follows value state safe
  | perform command next ih =>
    exact Keeps.mono safe (fun _ => id) (fun response after => ih response)

end

/-- A single command, from a property that the other threads do not change. -/
theorem Safe.call {pre : State → Prop} {command : Command α} (holds : pre state)
    (stable : discipline.Stable self pre) (keeps : discipline.Keeps self pre command post) :
    discipline.Safe self post (Program.call command) state :=
  Keeps.mono keeps (fun later others => stable state later others holds) (fun _ _ => id)

/-- A program whose commands all keep a property that the other threads do not
change. -/
theorem Safe.of_every {property : {β : Type} → Command β → Bool} {pre : State → Prop}
    (every : program.Every property) (stable : discipline.Stable self pre)
    (keeps : ∀ {β : Type} (command : Command β), property command = true →
      discipline.Keeps self pre command (fun _ => pre)) (holds : pre state) :
    discipline.Safe self (fun _ => pre) program state := by
  induction program generalizing state with
  | done value => exact holds
  | perform command next ih =>
    exact Keeps.mono (keeps command every.1) (fun later others => stable state later others holds)
      (fun response after => ih response (every.2 response))

variable (discipline) in
/-- The program is safe from every state with `pre`, and ends in `post`. -/
def Triple (self : Nat) (pre : State → Prop) (program : Program Command α)
    (post : α → State → Prop) : Prop :=
  ∀ state, pre state → discipline.Safe self post program state

section Triples

variable {pre : State → Prop}

theorem Triple.bind (first : discipline.Triple self pre program post)
    (next : ∀ value, discipline.Triple self (post value) (rest value) last) :
    discipline.Triple self pre (program >>= rest) last :=
  fun state holds => (first state holds).bind next

theorem Triple.call {command : Command α} (stable : discipline.Stable self pre)
    (keeps : discipline.Keeps self pre command post) :
    discipline.Triple self pre (Program.call command) post :=
  fun _ holds => Safe.call holds stable keeps

theorem Triple.weaken {strong : State → Prop} (triple : discipline.Triple self pre program post)
    (stronger : ∀ state, strong state → pre state) : discipline.Triple self strong program post :=
  fun state holds => triple state (stronger state holds)

end Triples

end Discipline

/-- A pool whose threads are safe and end in their goals. -/
structure Pool.Safe {semantics : Semantics State Command Input Job}
    (discipline : Discipline semantics) (goal : Nat → State → Prop)
    (pool : Pool State Command) : Prop where
  invariant : discipline.Invariant pool.threads.length pool.state
  threads : ∀ index program, pool.threads[index]? = some program →
    discipline.Safe index (fun _ => goal index) program pool.state

variable {semantics : Semantics State Command Input Job} {discipline : Discipline semantics}
  {goal : Nat → State → Prop}
variable {pool : Pool State Command} {next : Pool State Command}

theorem Pool.step_eq_some {action : Nat × Input}
    (stepTo : pool.step semantics action = some next) :
    ∃ (β : Type) (command : Command β) (rest : β → Program Command Unit) (state : State)
      (response : β) (job : Option Job),
      pool.threads[action.1]? = some (.perform command rest) ∧
      semantics.execute action.1 pool.threads.length command action.2 pool.state =
        some (state, response, job) ∧
      next = { state := state
               threads := pool.threads.set action.1 (rest response) ++
                 job.toList.map semantics.body } := by
  unfold step at stepTo
  split at stepTo
  · rename_i β command rest found
    obtain ⟨⟨state, response, job⟩, executed, same⟩ := map_eq_some_iff.mp stepTo
    exact ⟨β, command, rest, state, response, job, found, executed, same.symm⟩
  · cases stepTo

variable {actions : List (Nat × Input)}

section

variable (safe : pool.Safe discipline goal)

include safe

/-- A thread of a safe pool that has returned has reached its goal. -/
theorem Pool.Safe.reaches {index : Nat}
    (returned : pool.threads[index]?.any Program.isDone = true) : goal index pool.state := by
  obtain ⟨program, found, finished⟩ := (any_eq_true _ _).mp returned
  cases program with
  | done value => exact safe.threads index _ found
  | perform command next => cases finished

variable (stable : ∀ index, discipline.Stable index (goal index))
  (jobs : ∀ job index state, discipline.Spawned job index state →
    discipline.Safe index (fun _ => goal index) (semantics.body job) state)

include stable jobs

theorem Pool.Safe.step {action : Nat × Input} (meets : pool.meets discipline.allowed action = true)
    (stepTo : pool.step semantics action = some next) : next.Safe discipline goal := by
  obtain ⟨β, command, rest, state, response, job, found, executed, rfl⟩ :=
    Pool.step_eq_some stepTo
  have running : action.1 < pool.threads.length := (List.getElem?_eq_some_iff.mp found).1
  have allowed : discipline.allowed action.1 command action.2 pool.state = true := by
    simpa [Pool.meets, found] using meets
  obtain ⟨invariant, others, started, ends⟩ := safe.threads action.1 _ found
    pool.threads.length pool.state action.2 state response job
    (discipline.rely_refl _ _) safe.invariant running allowed executed
  refine ⟨by simpa using invariant, ?_⟩
  intro index program position
  rcases Nat.lt_or_ge index pool.threads.length with old | new
  · rw [List.getElem?_append_left (by simpa using old)] at position
    by_cases same : index = action.1
    · subst same
      rw [List.getElem?_set_self running, some.injEq] at position
      subst position
      exact ends
    · rw [List.getElem?_set_ne (Ne.symm same)] at position
      exact (safe.threads index program position).later (fun _ => stable index)
        (others index old same)
  · rw [List.getElem?_append_right (by simpa using new)] at position
    cases job with
    | none => simp at position
    | some first =>
      have last : index = pool.threads.length := by
        by_contra beyond
        rw [List.getElem?_eq_none (by simp; omega)] at position
        cases position
      subst last
      simp only [List.length_set, Nat.sub_self, toList_some, List.map_cons,
        List.map_nil, List.getElem?_cons_zero, some.injEq] at position
      subst position
      exact jobs first _ _ (started first rfl)

/-- A safe pool is safe at the end of every run of allowed actions. -/
theorem Pool.Safe.run {last : Pool State Command}
    (meets : ActionRuns.MeetsAlong (Pool.step semantics)
      (fun pool action => pool.meets discipline.allowed action = true) pool actions)
    (reached : ActionRuns.run (Pool.step semantics) pool actions = some last) :
    last.Safe discipline goal :=
  ActionRuns.run_invariant (Pool.Safe discipline goal)
    (fun _ _ _ safe meets stepTo => safe.step stable jobs meets stepTo) safe meets reached

end

section Track

variable {Ghost : Type}
  (note : Nat → Nat → {β : Type} → Command β → Input → State → Ghost → Ghost)

/-- The same commands with a second component of the state that they write and do not
read. -/
def Semantics.track (semantics : Semantics State Command Input Job) :
    Semantics (State × Ghost) Command Input Job where
  execute self fresh _ command input state :=
    (semantics.execute self fresh command input state.1).map fun (after, response, job) =>
      ((after, note self fresh command input state.1 state.2), response, job)
  body := semantics.body

theorem Semantics.track_eq_some {self fresh : Nat} {β : Type} {command : Command β}
    {input : Input} {state after : State × Ghost} {response : β} {job : Option Job}
    (executed : (semantics.track note).execute self fresh command input state =
      some (after, response, job)) :
    semantics.execute self fresh command input state.1 = some (after.1, response, job) ∧
      after.2 = note self fresh command input state.1 state.2 := by
  obtain ⟨⟨next, given, started⟩, performed, same⟩ := map_eq_some_iff.mp executed
  cases same
  exact ⟨performed, rfl⟩

def Pool.tracked (pool : Pool State Command) (ghost : Ghost) : Pool (State × Ghost) Command where
  state := (pool.state, ghost)
  threads := pool.threads

def Pool.noted (pool : Pool State Command) (action : Nat × Input) (ghost : Ghost) : Ghost :=
  match pool.threads[action.1]? with
  | some (.perform command _) =>
    note action.1 pool.threads.length command action.2 pool.state ghost
  | _ => ghost

theorem Pool.step_tracked (pool : Pool State Command) (action : Nat × Input) (ghost : Ghost) :
    (pool.tracked ghost).step (semantics.track note) action =
      (pool.step semantics action).map fun next => next.tracked (pool.noted note action ghost) := by
  cases found : pool.threads[action.1]? with
  | none => simp only [step, tracked, found, map_none]
  | some program =>
    cases program with
    | done value => simp only [step, tracked, found, map_none]
    | perform command next =>
      simp only [step, tracked, noted, Semantics.track, found, map_map]
      rfl

/-- A pool that is safe together with a second component is safe at the end of every run
of the pool itself. -/
theorem Pool.Safe.run_tracked {discipline : Discipline (semantics.track note)}
    {goal : Nat → State × Ghost → Prop} {pool last : Pool State Command} {ghost : Ghost}
    {allowed : Nat → {β : Type} → Command β → Input → State → Bool}
    (safe : (pool.tracked ghost).Safe discipline goal)
    (stable : ∀ index, discipline.Stable index (goal index))
    (jobs : ∀ job index state, discipline.Spawned job index state →
      discipline.Safe index (fun _ => goal index) (semantics.body job) state)
    (permits : ∀ {β : Type} (self : Nat) (command : Command β) (input : Input)
      (state : State × Ghost), allowed self command input state.1 = true →
      discipline.allowed self command input state = true)
    (meets : ActionRuns.MeetsAlong (Pool.step semantics)
      (fun pool action => pool.meets allowed action = true) pool actions)
    (reached : ActionRuns.run (Pool.step semantics) pool actions = some last) :
    ∃ final, (last.tracked final).Safe discipline goal := by
  refine ActionRuns.run_invariant (fun pool => ∃ ghost, (pool.tracked ghost).Safe discipline goal)
    ?_ ⟨ghost, safe⟩ meets reached
  rintro pool action next ⟨ghost, safe⟩ meets stepTo
  have permitted : (pool.tracked ghost).meets discipline.allowed action = true := by
    unfold Pool.meets at meets ⊢
    simp only [Pool.tracked]
    split
    · rename_i found
      rw [found] at meets
      exact permits _ _ _ _ meets
    · rfl
  have stepped : (pool.tracked ghost).step (semantics.track note) action =
      some (next.tracked (pool.noted note action ghost)) := by
    rw [Pool.step_tracked, stepTo, map_some]
  exact ⟨_, safe.step stable jobs permitted stepped⟩

end Track

/-- How a program runs alone: the numbers of its thread and of a started one, the inputs of
its commands, and what is noted of them.  Programs that it starts do not run. -/
structure Solo (State : Type) (Command : Type → Type) (Input Note : Type) where
  self : Nat
  fresh : Nat
  answer : {β : Type} → Command β → State → Input
  noted : {β : Type} → Command β → State → Option Note

namespace Program

variable {Note α β : Type} (semantics : Semantics State Command Input Job)
  (solo : Solo State Command Input Note)

/-- The state, the value and the notes of a program that runs alone. -/
def alone : Program Command α → State → Option (State × α × List Note)
  | .done value, state => some (state, value, [])
  | .perform command next, state =>
    (semantics.execute solo.self solo.fresh command (solo.answer command state) state).bind
      fun (after, response, _) =>
        ((next response).alone after).map fun (last, value, notes) =>
          (last, value, (solo.noted command state).toList ++ notes)

variable {semantics solo}

theorem alone_pure (value : α) (state : State) :
    (Pure.pure value : Program Command α).alone semantics solo state = some (state, value, []) :=
  rfl

theorem alone_bind {program : Program Command α} {rest : α → Program Command β}
    {state after last : State} {value : α} {result : β} {first second : List Note}
    (ran : program.alone semantics solo state = some (after, value, first))
    (follows : (rest value).alone semantics solo after = some (last, result, second)) :
    (program >>= rest).alone semantics solo state = some (last, result, first ++ second) := by
  induction program generalizing state first with
  | done value =>
    cases ran
    exact follows
  | perform command next ih =>
    obtain ⟨⟨between, response, job⟩, executed, continued⟩ := bind_eq_some_iff.mp ran
    obtain ⟨⟨_, _, notes⟩, ranNext, same⟩ := map_eq_some_iff.mp continued
    cases same
    have whole := ih response ranNext
    apply bind_eq_some_iff.mpr
    refine ⟨(between, response, job), executed, ?_⟩
    apply map_eq_some_iff.mpr
    exact ⟨_, whole, by rw [List.append_assoc]⟩

theorem alone_call {command : Command α} {state after : State} {response : α} {job : Option Job}
    (executed : semantics.execute solo.self solo.fresh command (solo.answer command state)
      state = some (after, response, job)) :
    (call command).alone semantics solo state =
      some (after, response, (solo.noted command state).toList) := by
  apply bind_eq_some_iff.mpr
  refine ⟨(after, response, job), executed, ?_⟩
  rw [alone, map_some]
  dsimp only
  rw [List.append_nil]

end Program

end GitlabRunner.Concurrent
