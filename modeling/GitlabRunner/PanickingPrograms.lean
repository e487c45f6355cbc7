import Mathlib.Data.List.Basic

/-!
# Programs that may panic

A program changes a state and returns a value, or it panics, which ends everything.
-/

namespace GitlabRunner.Panicking

variable {σ τ : Type}

/-- A program on a state; a program without a result has panicked. -/
abbrev Program (σ : Type) :=
  StateT σ Option

def Program.lift {α : Type} (result : Option α) : Program σ α :=
  fun state => result.map (·, state)

/-- A program that is left out if a condition does not hold. -/
def Program.when (condition : Bool) (program : Program σ Unit) : Program σ Unit :=
  if condition then program else pure ()

def Program.each {α : Type} (program : α → Program σ Unit) : List α → Program σ Unit
  | [] => pure ()
  | element :: rest => do
    program element
    Program.each program rest

theorem bind_apply {α β : Type} (first : Program σ α) (next : α → Program σ β) (state : σ) :
    (first >>= next) state = (first state).bind fun result => next result.1 result.2 :=
  rfl

/-- From related states two programs run to related states, and return the same value. -/
def Together {α : Type} (before after : σ → τ → Prop) (program : Program σ α)
    (other : Program τ α) : Prop :=
  ∀ state state', before state state' → ∃ value next next',
    program state = some (value, next) ∧ other state' = some (value, next') ∧ after next next'

def Panics {α : Type} (program : Program σ α) : Prop :=
  ∀ state, program state = none

section Rules

variable {α β : Type} {before between after : σ → τ → Prop}

theorem Together.pure (value : α) :
    Together before before (pure value : Program σ α) (pure value : Program τ α) :=
  fun state state' related => ⟨value, state, state', rfl, rfl, related⟩

variable {next : α → Program σ β}

theorem Together.bind {first : Program σ α} {other : Program τ α}
    {next' : α → Program τ β} (together : Together before between first other)
    (later : ∀ value, Together between after (next value) (next' value)) :
    Together before after (first >>= next) (other >>= next') := by
  intro state state' related
  obtain ⟨value, _, _, result, result', reached⟩ := together state state' related
  obtain ⟨final, last, last', ended, ended', holds⟩ := later value _ _ reached
  refine ⟨final, last, last', ?_, ?_, holds⟩
  · rw [bind_apply, result]
    exact ended
  · rw [bind_apply, result']
    exact ended'

theorem Together.lift {result : Option α} (some : result.isSome) :
    Together before before (Program.lift result : Program σ α)
      (Program.lift result : Program τ α) := by
  intro state state' related
  obtain ⟨value, rfl⟩ := Option.isSome_iff_exists.mp some
  exact ⟨value, state, state', rfl, rfl, related⟩

theorem Together.when {condition : Bool} {program : Program σ Unit} {other : Program τ Unit}
    (together : condition = true → Together before before program other) :
    Together before before (program.when condition) (other.when condition) := by
  cases condition with
  | true => exact together rfl
  | false => exact Together.pure ()

theorem Together.ite {condition : Prop} [Decidable condition] {yes no : Program σ α}
    {yes' no' : Program τ α} (ifYes : condition → Together before after yes yes')
    (ifNo : ¬condition → Together before after no no') :
    Together before after (if condition then yes else no) (if condition then yes' else no') := by
  split
  · case isTrue holds => exact ifYes holds
  · case isFalse fails => exact ifNo fails

theorem Together.each {program : α → Program σ Unit} {other : α → Program τ Unit}
    {elements : List α}
    (together : ∀ element ∈ elements, Together before before (program element) (other element)) :
    Together before before (Program.each program elements) (Program.each other elements) := by
  induction elements with
  | nil => exact Together.pure ()
  | cons element rest ih =>
    refine .bind (together element (by simp)) fun _ => ?_
    exact ih fun later member => together later (List.mem_cons_of_mem element member)

theorem Panics.bind {first : Program σ α} (panics : Panics first) (next : α → Program σ β) :
    Panics (first >>= next) := by
  intro state
  rw [bind_apply, panics state]
  rfl

theorem Panics.later (first : Program σ α)
    (panics : ∀ value, Panics (next value)) : Panics (first >>= next) := by
  intro state
  rw [bind_apply]
  cases first state with
  | none => rfl
  | some result => exact panics result.1 result.2

theorem Panics.lift {result : Option α} (none : result = none) :
    Panics (Program.lift result : Program σ α) := by
  intro state
  rw [none]
  rfl

end Rules

end GitlabRunner.Panicking
