import GitlabRunner.ByteText
import GitlabRunner.KeyedCaches

/-!
# The backoff of requests to the coordinator

After a response with an error status, `doBackoffRequest` of `network/client.go` sleeps for
a time that grows with the number of failures in a row.
-/

namespace GitlabRunner.RequestBackoff

open ByteText KeyedStates Function

/-- The fields of `http.Request` that the backoff is chosen by. -/
structure Request where
  method : List UInt8
  requestURI : List UInt8
  deriving DecidableEq, Repr

/-- The method of a request: an empty one is `GET`. -/
def requestMethod (method : List UInt8) : List UInt8 :=
  if method = [] then ascii "GET" else method

/-- `http.NewRequest`, which leaves the field of the server's side empty. -/
def newRequest (method : List UInt8) : Request :=
  ⟨requestMethod method, []⟩

/-- What becomes of a request: it cannot be created, it gets no response, or it gets one. -/
inductive Outcome where
  | notCreated
  | notAnswered
  | status (code : Int)
  deriving DecidableEq, Repr

structure Call where
  method : List UInt8
  uri : List UInt8
  outcome : Outcome
  deriving DecidableEq, Repr

/-- `requestBackOffs`: the attempts that each backoff has counted. -/
abbrev Client := List UInt8 → Option Nat

def backoffKey (method uri : List UInt8) : List UInt8 :=
  method ++ ascii "_" ++ uri

def ensureBackoff (client : Client) (method uri : List UInt8) : Nat × Client :=
  match client (backoffKey method uri) with
  | some attempt => (attempt, client)
  | none => (0, update client (backoffKey method uri) (some 0))

def backoffRequired (code : Int) : Bool :=
  400 ≤ code && code < 600

/-- The attempt that the delay is computed for, if there is one, and the client after a
response.  `Duration` counts the attempt, and `Reset` starts again. -/
def respond (client : Client) (request : Request) (code : Int) : Option Nat × Client :=
  let (attempt, ensured) := ensureBackoff client request.method request.requestURI
  let key := backoffKey request.method request.requestURI
  if backoffRequired code then (some attempt, update ensured key (some (attempt + 1)))
  else (none, update ensured key (some 0))

def doBackoffRequest (client : Client) (request : Request) (outcome : Outcome) :
    Option Nat × Client :=
  match outcome with
  | .status code => respond client request code
  | _ => (none, client)

def perform (client : Client) (call : Call) : Option Nat × Client :=
  if call.outcome = .notCreated then (none, client)
  else doBackoffRequest client (newRequest call.method) call.outcome

def clientAfter (calls : List Call) : Client :=
  calls.foldl (fun client call => (perform client call).2) fun _ => none

def SameEndpoint (first second : Call) : Prop :=
  requestMethod first.method = requestMethod second.method ∧ first.uri = second.uri

instance (first second : Call) : Decidable (SameEndpoint first second) :=
  inferInstanceAs (Decidable (_ ∧ _))

def countFailures (failures : Nat) (call : Call) : Nat :=
  match call.outcome with
  | .status code => if 400 ≤ code ∧ code < 600 then failures + 1 else 0
  | _ => failures

def ownFailures (earlier : List Call) (call : Call) : Nat :=
  (earlier.filter fun other => SameEndpoint other call).foldl countFailures 0

/-- Every delay is computed for the failures of its own endpoint. -/
def Independent (calls : List Call) : Prop :=
  ∀ earlier call later, calls = earlier ++ call :: later →
    ∀ attempt, (perform (clientAfter earlier) call).1 = some attempt →
      attempt = ownFailures earlier call

def move (counter : Option Nat) (call : Call) : Option Nat :=
  match call.outcome with
  | .status code => some (if backoffRequired code then counter.getD 0 + 1 else 0)
  | _ => counter

def callKey (call : Call) : List UInt8 :=
  backoffKey (newRequest call.method).method (newRequest call.method).requestURI

variable (client : Client)

theorem ensureBackoff_fst (method uri : List UInt8) :
    (ensureBackoff client method uri).1 = (client (backoffKey method uri)).getD 0 := by
  unfold ensureBackoff
  cases client (backoffKey method uri) <;> rfl

/-- A backoff that has to be made does not matter once its counter is set. -/
theorem update_ensureBackoff (method uri : List UInt8) (counter : Option Nat) :
    update (ensureBackoff client method uri).2 (backoffKey method uri) counter =
      update client (backoffKey method uri) counter := by
  unfold ensureBackoff
  cases client (backoffKey method uri) with
  | none => exact update_idem _ _ _
  | some attempt => rfl

theorem respond_snd (request : Request) (code : Int) :
    (respond client request code).2 = update client (backoffKey request.method request.requestURI)
        (some (if backoffRequired code then
          (client (backoffKey request.method request.requestURI)).getD 0 + 1 else 0)) := by
  rw [← ensureBackoff_fst, ← update_ensureBackoff]
  cases required : backoffRequired code <;> simp [respond, required]

theorem respond_fst (request : Request) (code : Int) :
    (respond client request code).1 =
      if backoffRequired code then
        some ((client (backoffKey request.method request.requestURI)).getD 0) else none := by
  rw [← ensureBackoff_fst]
  cases required : backoffRequired code <;> simp [respond, required]

theorem perform_eq_step (call : Call) :
    (perform client call).2 = step callKey move client call := by
  obtain ⟨method, uri, outcome⟩ := call
  cases outcome with
  | notCreated | notAnswered => exact (update_eq_self _ _).symm
  | status code => exact respond_snd client (newRequest method) code

theorem perform_fst (call : Call) :
    (perform client call).1 =
      match call.outcome with
      | .status code => if backoffRequired code then some ((client (callKey call)).getD 0) else none
      | _ => none := by
  obtain ⟨method, uri, outcome⟩ := call
  cases outcome with
  | notCreated | notAnswered => rfl
  | status code => exact respond_fst client (newRequest method) code

theorem perform_attempt {client : Client} {call : Call} {attempt : Nat}
    (sleeps : (perform client call).1 = some attempt) :
    attempt = (client (callKey call)).getD 0 := by
  rw [perform_fst] at sleeps
  split at sleeps
  · split at sleeps
    · exact (Option.some.inj sleeps).symm
    · cases sleeps
  · cases sleeps

theorem clientAfter_eq_run (calls : List Call) :
    clientAfter calls = run callKey move (fun _ => none) calls := by
  unfold clientAfter run
  congr
  funext client call
  exact perform_eq_step client call

theorem callKey_eq_iff (first second : Call) :
    callKey first = callKey second ↔ requestMethod first.method = requestMethod second.method := by
  simp [callKey, backoffKey, newRequest]

theorem foldl_move (calls : List Call) (counter : Option Nat) :
    (calls.foldl move counter).getD 0 = calls.foldl countFailures (counter.getD 0) := by
  induction calls generalizing counter with
  | nil => rfl
  | cons call rest ih =>
    have moved : (move counter call).getD 0 = countFailures (counter.getD 0) call := by
      unfold move countFailures
      cases call.outcome with
      | notCreated => rfl
      | notAnswered => rfl
      | status code => simp [backoffRequired]
    rw [List.foldl_cons, List.foldl_cons, ih, moved]

/-- The counter of a call counts the failures of all endpoints with its method. -/
theorem counter_eq (earlier : List Call) (call : Call) :
    (clientAfter earlier (callKey call)).getD 0 = (earlier.filter fun other =>
        requestMethod other.method = requestMethod call.method).foldl countFailures 0 := by
  simp only [clientAfter_eq_run, run_apply, callKey_eq_iff]
  exact foldl_move _ none

def OneURIPerMethod (endpoints : List UInt8 → List UInt8 → Prop) : Prop :=
  ∀ firstMethod firstURI secondMethod secondURI, endpoints firstMethod firstURI →
    endpoints secondMethod secondURI → requestMethod firstMethod = requestMethod secondMethod →
      firstURI = secondURI

/-- The endpoints of a set do not influence each other's backoff exactly if the set has one
URI for each method. -/
theorem independent_iff (endpoints : List UInt8 → List UInt8 → Prop) :
    (∀ calls : List Call, (∀ call ∈ calls, endpoints call.method call.uri) → Independent calls) ↔
      OneURIPerMethod endpoints := by
  constructor
  · intro independent firstMethod firstURI secondMethod secondURI isFirst isSecond sameMethod
    let first : Call := ⟨firstMethod, firstURI, .status 500⟩
    let second : Call := ⟨secondMethod, secondURI, .status 500⟩
    by_contra different
    have sleeps : (perform (clientAfter [first]) second).1 =
        some ((clientAfter [first] (callKey second)).getD 0) := perform_fst _ _
    have attempt := independent [first, second] (by simp [first, second, isFirst, isSecond])
      [first] second [] rfl _ sleeps
    have shared : (clientAfter [first] (callKey second)).getD 0 = 1 := by
      rw [counter_eq]
      simp [first, second, sameMethod, countFailures]
    have own : ownFailures [first] second = 0 := by
      simp [ownFailures, SameEndpoint, first, second, different]
    omega
  · intro one calls among earlier call later split attempt sleeps
    rw [perform_attempt sleeps, counter_eq, ownFailures]
    congr 1
    apply List.filter_congr
    intro other member
    have otherAmong := among other (by rw [split]; exact List.mem_append_left _ member)
    have callAmong := among call (by rw [split]; simp)
    rw [decide_eq_decide, SameEndpoint, and_iff_left_of_imp]
    exact one _ _ _ _ otherAmong callAmong

/-- A failed request to another URI counts for the delay of the next one. -/
theorem other_uri_lengthens_backoff : ¬∀ calls : List Call, Independent calls := by
  intro independent
  have attempt := independent
    [⟨ascii "GET", ascii "a", .status 500⟩, ⟨ascii "GET", ascii "b", .status 500⟩]
    [⟨ascii "GET", ascii "a", .status 500⟩] ⟨ascii "GET", ascii "b", .status 500⟩ [] rfl 1
    (by decide)
  revert attempt
  decide

end GitlabRunner.RequestBackoff
