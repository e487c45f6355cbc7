import GitlabRunner.DecimalText

/-!
# Answers of the coordinator

`network/gitlab.go` turns the outcome of an HTTP request into an `UpdateState` for the trace
client: `PatchTrace` for a piece of the job log, `UpdateJob` for the job status.
-/

namespace GitlabRunner.Network

open DecimalText

inductive UpdateState where
  | updateSucceeded
  | updateNotFound
  | updateAbort
  | updateFailed
  | updateRangeMismatch
  deriving DecidableEq, Repr

/-- The parts of an HTTP response that the trace client reads: the status code
and the `Job-Status` and `Range` headers. -/
structure Response where
  statusCode : Int
  remoteState : String
  remoteRange : String
  deriving DecidableEq, Repr

/-- The outcome of a request.  `clientError` is a client that could not be
created, `transportError` a request without a response. -/
inductive Outcome where
  | clientError
  | transportError
  | response (response : Response)
  deriving DecidableEq, Repr

def statusOK : Int := 200

def statusAccepted : Int := 202

def statusForbidden : Int := 403

def statusNotFound : Int := 404

def statusRequestedRangeNotSatisfiable : Int := 416

def clientErrorCode : Int := -100

def Response.isAborted (response : Response) : Bool :=
  if response.remoteState = "canceled" ∨ response.remoteState = "failed" then true
  else if response.statusCode = statusForbidden then true
  else false

/-- `TracePatchResponse.NewOffset`.  The error of `Atoi` is ignored. -/
def newOffset (remoteRange : String) : Int :=
  match DecimalText.split '-' remoteRange.toList with
  | [_, last] => (DecimalText.atoi last).1
  | _ => 0

def patchTrace (content : List UInt8) (startOffset : Int) (outcome : Outcome) :
    Int × UpdateState :=
  if content.length = 0 then (startOffset, .updateSucceeded)
  else
    let endOffset := startOffset + content.length
    match outcome with
    | .clientError => (startOffset, .updateFailed)
    | .transportError => (startOffset, .updateFailed)
    | .response response =>
      if response.isAborted then (startOffset, .updateAbort)
      else if response.statusCode = statusAccepted then (endOffset, .updateSucceeded)
      else if response.statusCode = statusNotFound then (startOffset, .updateNotFound)
      else if response.statusCode = statusRequestedRangeNotSatisfiable then
        (newOffset response.remoteRange, .updateRangeMismatch)
      else if response.statusCode = clientErrorCode then (startOffset, .updateAbort)
      else (startOffset, .updateFailed)

def updateJob (outcome : Outcome) : UpdateState :=
  match outcome with
  | .clientError => .updateAbort
  | .transportError => .updateFailed
  | .response response =>
    if response.isAborted then .updateAbort
    else if response.statusCode = statusOK then .updateSucceeded
    else if response.statusCode = statusNotFound then .updateAbort
    else if response.statusCode = statusForbidden then .updateAbort
    else if response.statusCode = clientErrorCode then .updateAbort
    else .updateFailed

/-- The offset that a range mismatch reports is never negative: a minus sign
would be a third part of the header. -/
theorem newOffset_nonneg (remoteRange : String) : 0 ≤ newOffset remoteRange := by
  unfold newOffset
  split
  · rename_i first last parts
    apply atoi_nonneg
    have member : last ∈ split '-' remoteRange.toList := by simp [parts]
    exact separator_not_mem_split member
  · exact Int.le_refl 0

def rangeHeader (length : Nat) : String :=
  "0-" ++ toString length

/-- `NewOffset` reads the length back from the coordinator's own header. -/
theorem newOffset_rangeHeader {length : Nat} (small : length < 2 ^ 63) :
    newOffset (rangeHeader length) = length := by
  have unsigned : '-' ∉ Nat.toDigits 10 length := by
    intro member
    have := Nat.isDigit_of_mem_toDigits (by decide) (by decide) member
    exact absurd this (by decide)
  have chars : (rangeHeader length).toList = ['0'] ++ '-' :: Nat.toDigits 10 length := by
    simp [rangeHeader]
  rw [newOffset, chars, split_append_separator (by decide),
    split_eq_singleton unsigned]
  simp [atoi_toDigits small]

/-- What `PatchTrace` can return for a nonempty patch, apart from an unchanged
offset with a state that stores nothing. -/
theorem patchTrace_cases {content : List UInt8} {startOffset offset : Int}
    {outcome : Outcome} {state : UpdateState} (nonempty : content ≠ [])
    (returned : patchTrace content startOffset outcome = (offset, state)) :
    (state = .updateSucceeded ∧ offset = startOffset + content.length ∧
      ∃ response, outcome = .response response ∧ response.isAborted = false ∧
        response.statusCode = statusAccepted) ∨
    (state = .updateRangeMismatch ∧ ∃ response, outcome = .response response ∧
      response.isAborted = false ∧
      response.statusCode = statusRequestedRangeNotSatisfiable ∧
      offset = newOffset response.remoteRange) ∨
    (state ≠ .updateSucceeded ∧ state ≠ .updateRangeMismatch) := by
  have hasContent : content.length ≠ 0 := by simpa using nonempty
  cases outcome with
  | clientError | transportError =>
    simp only [patchTrace, hasContent, if_false, Prod.mk.injEq] at returned
    exact .inr (.inr (by simp [← returned.2]))
  | response response =>
    simp only [patchTrace, hasContent, if_false] at returned
    split at returned
    · cases returned
      exact .inr (.inr (by decide))
    · rename_i notAborted
      have live : response.isAborted = false := by simpa using notAborted
      split at returned
      · rename_i accepted
        cases returned
        exact .inl ⟨rfl, rfl, response, rfl, live, accepted⟩
      · split at returned
        · cases returned
          exact .inr (.inr (by decide))
        · split at returned
          · rename_i mismatch
            cases returned
            exact .inr (.inl ⟨rfl, response, rfl, live, mismatch, rfl⟩)
          · split at returned <;> cases returned <;>
              exact .inr (.inr (by decide))

end GitlabRunner.Network
