import Mathlib.Order.Nat

/-!
# Retrying a request

`retry_helper.go` of the helper commands: an error that is wrapped as retryable makes
`doRetry` call its handler again, as often as it is allowed to.  What a call finds is
what the failed calls before it have left.
-/

namespace GitlabRunner.Retry

inductive Cause where
  | network
  | body
  | received (status : Nat)
  | notExist
  | system
  deriving DecidableEq, Repr

inductive Error where
  | plain (cause : Cause)
  | retryableErr (cause : Cause)
  deriving DecidableEq, Repr

def retryOnServerError (status : Nat) : Option Error :=
  if status / 100 = 2 then none
  else if status / 100 = 5 then some (.retryableErr (.received status))
  else some (.plain (.received status))

variable {State : Type*} (handler : Nat → State → Option Error × State)

/-- `doRetry`, with the number of retries that are left and of the calls that were made. -/
def doRetry : Nat → Nat → State → Option Error × State
  | 0, calls, state => handler calls state
  | retries + 1, calls, state =>
    match handler calls state with
    | (some (.retryableErr _), next) => doRetry retries (calls + 1) next
    | result => result

/-- The state after a number of calls, if all of them ask for another one. -/
def retried : Nat → Nat → State → Option State
  | 0, _, state => some state
  | count + 1, calls, state =>
    match handler calls state with
    | (some (.retryableErr _), next) => retried count (calls + 1) next
    | _ => none

variable {handler}

theorem retried_succ_eq_some {count calls : Nat} {state before : State} :
    retried handler (count + 1) calls state = some before ↔
      ∃ cause next, handler calls state = (some (.retryableErr cause), next) ∧
        retried handler count (calls + 1) next = some before := by
  rw [retried]
  constructor
  · intro reached
    split at reached
    · rename_i cause next asked
      exact ⟨cause, next, asked, reached⟩
    · cases reached
  · rintro ⟨cause, next, asked, reached⟩
    rw [asked]
    exact reached

/-- What holds before a call, by its number, and is kept by a call that asks for another
one. -/
theorem retried_invariant {Holds : Nat → State → Prop}
    (keeps : ∀ {calls state cause next}, Holds calls state →
      handler calls state = (some (.retryableErr cause), next) → Holds (calls + 1) next)
    {count calls : Nat} {state before : State} (start : Holds calls state)
    (reached : retried handler count calls state = some before) : Holds (calls + count) before := by
  induction count generalizing calls state with
  | zero =>
    cases reached
    exact start
  | succ count ih =>
    obtain ⟨cause, next, asked, reached⟩ := retried_succ_eq_some.mp reached
    rw [Nat.add_comm count, ← Nat.add_assoc]
    exact ih (keeps start asked) reached

/-- The result of `doRetry` is that of its last call, after calls that asked for another
one. -/
theorem doRetry_cases (retries calls : Nat) (state : State) :
    ∃ count ≤ retries, ∃ before, retried handler count calls state = some before ∧
      doRetry handler retries calls state = handler (calls + count) before := by
  induction retries generalizing calls state with
  | zero => exact ⟨0, le_rfl, state, rfl, rfl⟩
  | succ retries ih =>
    unfold doRetry
    split
    · rename_i cause next asked
      obtain ⟨count, few, before, reached, same⟩ := ih (calls + 1) next
      refine ⟨count + 1, Nat.succ_le_succ few, before, ?_, ?_⟩
      · rw [retried, asked]
        exact reached
      · rw [same, Nat.add_assoc, Nat.add_comm 1]
    · exact ⟨0, Nat.zero_le _, state, rfl, rfl⟩

/-- `doRetry` goes on where the calls that asked for another one have left the state. -/
theorem doRetry_retried {count retries calls : Nat} {state before : State}
    (few : count ≤ retries) (reached : retried handler count calls state = some before) :
    doRetry handler retries calls state =
      doRetry handler (retries - count) (calls + count) before := by
  induction count generalizing retries calls state with
  | zero =>
    cases reached
    rfl
  | succ count ih =>
    cases retries with
    | zero => cases few
    | succ retries =>
      obtain ⟨cause, next, asked, reached⟩ := retried_succ_eq_some.mp reached
      rw [doRetry, asked]
      dsimp only
      rw [ih (Nat.le_of_succ_le_succ few) reached, Nat.succ_sub_succ, Nat.add_assoc, Nat.add_comm 1]

theorem doRetry_of_ends {retries calls : Nat} {state : State}
    (ends : ∀ cause, (handler calls state).1 ≠ some (.retryableErr cause)) :
    doRetry handler retries calls state = handler calls state := by
  cases retries with
  | zero => rfl
  | succ retries =>
    unfold doRetry
    split
    · rename_i cause next asked
      rw [asked] at ends
      exact (ends cause rfl).elim
    · rfl

/-- What every call keeps holds after `doRetry` if it holds after its first call. -/
theorem doRetry_keeps {Holds : State → Prop}
    (keeps : ∀ calls state, Holds state → Holds (handler calls state).2)
    {retries calls : Nat} {state : State} (first : Holds (handler calls state).2) :
    Holds (doRetry handler retries calls state).2 := by
  induction retries generalizing calls state with
  | zero => exact first
  | succ retries ih =>
    unfold doRetry
    split
    · rename_i cause next asked
      rw [asked] at first
      exact ih (keeps (calls + 1) next first)
    · exact first

end GitlabRunner.Retry
