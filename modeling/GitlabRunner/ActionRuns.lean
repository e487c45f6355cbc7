import Mathlib.Data.List.Basic

/-!
# Runs of a system with explicit actions

A system is a partial step function: an action that is not enabled in a state has no result.
-/

namespace GitlabRunner.ActionRuns

open Option

variable {State Action : Type*} (step : State → Action → Option State)

/-- The state after a list of actions, if each of them is enabled. -/
def run : State → List Action → Option State
  | state, [] => some state
  | state, action :: actions => (step state action).bind fun next => run next actions

/-- Every step along a list of actions meets a condition on the state before the
step. -/
def MeetsAlong (condition : State → Action → Prop) : State → List Action → Prop
  | _, [] => True
  | state, action :: actions =>
    condition state action ∧
      match step state action with
      | none => True
      | some next => MeetsAlong condition next actions

instance decidableMeetsAlong (condition : State → Action → Prop)
    [∀ state action, Decidable (condition state action)] :
    (state : State) → (actions : List Action) →
      Decidable (MeetsAlong step condition state actions)
  | _, [] => instDecidableTrue
  | state, action :: actions =>
    have : Decidable (match step state action with
        | none => True
        | some next => MeetsAlong step condition next actions) :=
      match step state action with
      | none => instDecidableTrue
      | some next => decidableMeetsAlong condition next actions
    inferInstanceAs (Decidable (condition state action ∧ _))

/-- The number of steps along a list of actions that are of a kind. -/
def count (kind : State → State → Bool) : State → List Action → Nat
  | _, [] => 0
  | state, action :: actions =>
    match step state action with
    | none => 0
    | some next => (kind state next).toNat + count kind next actions

variable {step}

theorem run_cons (state : State) (action : Action) (actions : List Action) :
    run step state (action :: actions) =
      (step state action).bind fun next => run step next actions :=
  rfl
variable {state : State} {actions : List Action} {last : State}

theorem run_cons_eq_some {action : Action} :
    run step state (action :: actions) = some last ↔
      ∃ next, step state action = some next ∧ run step next actions = some last := by
  rw [run_cons, bind_eq_some_iff]

theorem run_append (state : State) (earlier later : List Action) :
    run step state (earlier ++ later) =
      (run step state earlier).bind fun next => run step next later := by
  induction earlier generalizing state with
  | nil => rfl
  | cons action earlier ih => simp only [List.cons_append, run_cons, bind_assoc, ih]

/-- The later of two moments of a run is reached from the earlier one. -/
theorem run_between {first : State} {earlier later : Nat} (ordered : earlier ≤ later)
    (reached : run step state (actions.take earlier) = some first)
    (continued : run step state (actions.take later) = some last) :
    ∃ between, run step first between = some last := by
  obtain ⟨distance, rfl⟩ := Nat.exists_eq_add_of_le ordered
  rw [List.take_add, run_append, reached] at continued
  exact ⟨_, continued⟩

variable {condition : State → Action → Prop}

/-- A property that every conditioned step preserves holds at the end of every
run that meets the condition. -/
theorem run_invariant (Invariant : State → Prop)
    (preserved : ∀ state action next, Invariant state → condition state action →
      step state action = some next → Invariant next) (initially : Invariant state)
    (meets : MeetsAlong step condition state actions)
    (reached : run step state actions = some last) : Invariant last := by
  induction actions generalizing state with
  | nil =>
    obtain rfl := some.inj reached
    exact initially
  | cons action actions ih =>
    obtain ⟨next, stepTo, reachedNext⟩ := run_cons_eq_some.mp reached
    simp only [MeetsAlong, stepTo] at meets
    exact ih (preserved state action next initially meets.1 stepTo) meets.2 reachedNext

theorem meetsAlong_of_forall
    (all : ∀ action ∈ actions, ∀ state, condition state action) (state : State) :
    MeetsAlong step condition state actions := by
  induction actions generalizing state with
  | nil => trivial
  | cons action actions ih =>
    refine ⟨all action (by simp) state, ?_⟩
    cases step state action with
    | none => trivial
    | some next => exact ih (fun later member => all later (by simp [member])) next

/-- A property that every step preserves holds at the end of every run. -/
theorem run_invariant_of_step (Invariant : State → Prop)
    (preserved : ∀ state action next, Invariant state →
      step state action = some next → Invariant next) (initially : Invariant state)
    (reached : run step state actions = some last) : Invariant last :=
  run_invariant Invariant (fun state action next holds _ => preserved state action next holds)
    initially (meetsAlong_of_forall (fun _ _ _ => trivial) state) reached

variable {kind : State → State → Bool}

theorem count_cons {next : State} {action : Action}
    (stepTo : step state action = some next) (actions : List Action) :
    count step kind state (action :: actions) =
      (kind state next).toNat + count step kind next actions := by
  simp only [count, stepTo]

/-- Steps of a kind that each use up a unit of a potential are as few as the
potential at the start. -/
theorem count_add_le {Invariant : State → Prop} (potential : State → Nat)
    (preserved : ∀ state action next, Invariant state → condition state action →
      step state action = some next → Invariant next)
    (decreases : ∀ state action next, Invariant state → condition state action →
      step state action = some next →
      (kind state next).toNat + potential next ≤ potential state) (initially : Invariant state)
    (meets : MeetsAlong step condition state actions)
    (reached : run step state actions = some last) :
    count step kind state actions + potential last ≤ potential state := by
  induction actions generalizing state with
  | nil =>
    obtain rfl := some.inj reached
    simp [count]
  | cons action actions ih =>
    obtain ⟨next, stepTo, reachedNext⟩ := run_cons_eq_some.mp reached
    simp only [MeetsAlong, stepTo] at meets
    have used := decreases state action next initially meets.1 stepTo
    have later := ih (preserved state action next initially meets.1 stepTo) meets.2 reachedNext
    rw [count_cons stepTo]
    omega

/-- Actions of a kind that each use up a unit of a potential are as few as the
potential at the start. -/
theorem countP_add_le {kind : Action → Bool} (potential : State → Nat)
    (decreases : ∀ state action next, step state action = some next →
      (kind action).toNat + potential next ≤ potential state)
    (reached : run step state actions = some last) :
    actions.countP kind + potential last ≤ potential state := by
  induction actions generalizing state with
  | nil =>
    obtain rfl := some.inj reached
    simp
  | cons action actions ih =>
    obtain ⟨next, stepTo, reachedNext⟩ := run_cons_eq_some.mp reached
    have used := decreases state action next stepTo
    have later := ih reachedNext
    rw [List.countP_cons]
    cases isKind : kind action <;> simp only [isKind, Bool.toNat_false, Bool.toNat_true] at used
    · simp
      omega
    · simp
      omega

end GitlabRunner.ActionRuns
