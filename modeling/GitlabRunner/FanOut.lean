import Mathlib.Data.List.Basic

/-!
# Fan-out to goroutines

A number of goroutines with a task each.  Every one of them works on its task and then sends
its result on a channel without a buffer, so that it is finished only when somebody has
received the result.
-/

namespace GitlabRunner.FanOut

open List

variable {Task Result : Type}

/-- A goroutine: at work, with a result that nobody has received yet, or finished. -/
inductive Worker (Task Result : Type) where
  | working (task : Task)
  | sending (task : Task) (result : Result)
  | sent (task : Task) (result : Result)
  deriving DecidableEq, Repr

def start (tasks : List Task) : List (Worker Task Result) :=
  tasks.map .working

def finish (workers : List (Worker Task Result)) (index : Nat) (result : Result) :
    Option (Task × List (Worker Task Result)) :=
  match workers[index]? with
  | some (.working task) => some (task, workers.set index (.sending task result))
  | _ => none

def receive (workers : List (Worker Task Result)) (index : Nat) :
    Option ((Task × Result) × List (Worker Task Result)) :=
  match workers[index]? with
  | some (.sending task result) => some ((task, result), workers.set index (.sent task result))
  | _ => none

def Worker.isSent : Worker Task Result → Bool
  | .sent _ _ => true
  | _ => false

/-- All goroutines are finished, so that the channel is closed. -/
def AllSent (workers : List (Worker Task Result)) : Prop :=
  ∀ worker ∈ workers, worker.isSent = true

instance (workers : List (Worker Task Result)) : Decidable (AllSent workers) :=
  inferInstanceAs (Decidable (∀ worker ∈ workers, worker.isSent = true))

theorem allSent_nil : AllSent ([] : List (Worker Task Result)) :=
  fun _ member => absurd member not_mem_nil

variable {workers next : List (Worker Task Result)} {index : Nat} {task : Task}
  {result : Result}

theorem mem_start {tasks : List Task} {worker : Worker Task Result} :
    worker ∈ start tasks ↔ ∃ task ∈ tasks, worker = .working task := by
  rw [start, mem_map]
  simp only [eq_comm]

/-- One goroutine goes from one stage to another. -/
structure Moves (workers next : List (Worker Task Result)) (old new : Worker Task Result) :
    Prop where
  length : next.length = workers.length
  leaves : old ∈ workers
  enters : new ∈ next
  earlier : ∀ worker ∈ workers, worker = old ∨ worker ∈ next
  later : ∀ worker ∈ next, worker = new ∨ worker ∈ workers

theorem moves_set {old new : Worker Task Result} (found : workers[index]? = some old) :
    Moves workers (workers.set index new) old new := by
  obtain ⟨inRange, isOld⟩ := List.getElem?_eq_some_iff.mp found
  constructor
  · exact length_set
  · exact mem_of_getElem? found
  · exact mem_set inRange new
  · intro worker member
    obtain ⟨place, inPlace, rfl⟩ := mem_iff_getElem.mp member
    by_cases same : index = place
    · subst same
      exact .inl isOld
    · right
      apply mem_iff_getElem.mpr
      refine ⟨place, by rw [length_set]; exact inPlace, ?_⟩
      exact getElem_set_ne same _
  · intro worker member
    rcases mem_or_eq_of_mem_set member with earlier | isNew
    · exact .inr earlier
    · exact .inl isNew

theorem finish_some (finished : finish workers index result = some (task, next)) :
    Moves workers next (.working task) (.sending task result) := by
  unfold finish at finished
  split at finished
  · rename_i found
    cases finished
    exact moves_set found
  · cases finished

theorem receive_some (received : receive workers index = some ((task, result), next)) :
    Moves workers next (.sending task result) (.sent task result) := by
  unfold receive at received
  split at received
  · rename_i found
    cases received
    exact moves_set found
  · cases received

def Has (workers : List (Worker Task Result)) (result : Result) : Prop :=
  ∃ task, .sending task result ∈ workers ∨ .sent task result ∈ workers

theorem not_has_start {tasks : List Task} : ¬ Has (start tasks) result := by
  rintro ⟨task, isSending | isSent⟩
  · obtain ⟨_, -, same⟩ := mem_start.mp isSending
    cases same
  · obtain ⟨_, -, same⟩ := mem_start.mp isSent
    cases same

variable {other : Result}

theorem Moves.has_of_finish (moves : Moves workers next (.working task) (.sending task result))
    (has : Has next other) : other = result ∨ Has workers other := by
  obtain ⟨source, isSending | isSent⟩ := has
  · rcases moves.later _ isSending with same | earlier
    · cases same
      exact .inl rfl
    · exact .inr ⟨source, .inl earlier⟩
  · rcases moves.later _ isSent with same | earlier
    · cases same
    · exact .inr ⟨source, .inr earlier⟩

theorem Moves.finish_has (moves : Moves workers next (.working task) (.sending task result))
    (has : Has workers other) : Has next other := by
  obtain ⟨source, isSending | isSent⟩ := has
  · rcases moves.earlier _ isSending with same | later
    · cases same
    · exact ⟨source, .inl later⟩
  · rcases moves.earlier _ isSent with same | later
    · cases same
    · exact ⟨source, .inr later⟩

theorem Moves.has_iff (moves : Moves workers next (.sending task result) (.sent task result)) :
    Has next other ↔ Has workers other := by
  constructor
  · rintro ⟨source, isSending | isSent⟩
    · rcases moves.later _ isSending with same | earlier
      · cases same
      · exact ⟨source, .inl earlier⟩
    · rcases moves.later _ isSent with same | earlier
      · cases same
        exact ⟨task, .inl moves.leaves⟩
      · exact ⟨source, .inr earlier⟩
  · rintro ⟨source, isSending | isSent⟩
    · rcases moves.earlier _ isSending with same | later
      · cases same
        exact ⟨task, .inr moves.enters⟩
      · exact ⟨source, .inl later⟩
    · rcases moves.earlier _ isSent with same | later
      · cases same
      · exact ⟨source, .inr later⟩

theorem AllSent.not_working (allSent : AllSent workers) : .working task ∉ workers := by
  intro member
  cases allSent _ member

end GitlabRunner.FanOut
