import GitlabRunner.ByteText

/-!
# Extra fields of zip entries

`processZipExtra` of `helpers/archives/zip_extra.go` reads the extra data of a zip entry
field by field.  Two kinds of fields ask for a change of the extracted node: one of its
owner, one of its times.
-/

namespace GitlabRunner.Zip

def littleEndian : List UInt8 → Nat
  | [] => 0
  | byte :: bytes => byte.toNat + 256 * littleEndian bytes

def zipUIDGidFieldType : Nat := 0x7875

def zipTimestampFieldType : Nat := 0x5455

structure FileMode where
  dir : Bool
  symlink : Bool
  namedPipe : Bool
  socket : Bool
  device : Bool
  deriving DecidableEq, Repr

def FileMode.regular : FileMode :=
  ⟨false, false, false, false, false⟩

inductive FieldRead where
  | eof
  | unexpectedEOF
  | field (type : Nat) (data rest : List UInt8)
  deriving DecidableEq, Repr

/-- `readZipExtraField`: the data of a field that is cut off is filled up with
zeros. -/
def readZipExtraField (extra : List UInt8) : FieldRead :=
  if extra = [] then .eof
  else if extra.length < 4 then .unexpectedEOF
  else
    let size := littleEndian ((extra.drop 2).take 2)
    let rest := extra.drop 4
    if rest = [] then .eof
    else
      .field (littleEndian (extra.take 2))
        (rest.take size ++ List.replicate (size - rest.length) 0) (rest.drop size)

inductive Request where
  | lchown (uid gid : Nat)
  | chtimes (modTime : Nat)
  deriving DecidableEq, Repr

inductive FieldError where
  | tooShort
  | uidGidNotSupported
  deriving DecidableEq, Repr

/-- `processZipUIDGidField`, up to its system call. -/
def processZipUIDGidField (data : List UInt8) : Except FieldError (Option Request) :=
  if data.length < 11 then .error .tooShort
  else if data[0]? = some 1 ∧ data[1]? = some 4 ∧ data[6]? = some 4 then
    .ok (some (.lchown (littleEndian ((data.drop 2).take 4))
      (littleEndian ((data.drop 7).take 4))))
  else .error .uidGidNotSupported

/-- `processZipTimestampField`, up to its system call. -/
def processZipTimestampField (mode : FileMode) (data : List UInt8) :
    Except FieldError (Option Request) :=
  if !mode.dir ∧ mode ≠ .regular then .ok none
  else if data.length < 5 then .error .tooShort
  else if (data[0]?.getD 0).toNat % 2 = 1 then
    .ok (some (.chtimes (littleEndian ((data.drop 1).take 4))))
  else .ok none

def processField (mode : FileMode) (type : Nat) (data : List UInt8) :
    Except FieldError (Option Request) :=
  if type = zipUIDGidFieldType then processZipUIDGidField data
  else if type = zipTimestampFieldType then processZipTimestampField mode data
  else .ok none

/-- The loop of `processZipExtra`, which reads at least four bytes in every round.  The
request of a field is carried out by `perform`, which says whether it succeeded. -/
def processFields {State : Type} (mode : FileMode)
    (perform : Request → State → Bool × State) : Nat → List UInt8 → State → State
  | 0, _, state => state
  | rounds + 1, extra, state =>
    match readZipExtraField extra with
    | .eof => state
    | .unexpectedEOF => state
    | .field type data rest =>
      match processField mode type data with
      | .error _ => state
      | .ok none => processFields mode perform rounds rest state
      | .ok (some request) =>
        match perform request state with
        | (true, state) => processFields mode perform rounds rest state
        | (false, state) => state

def processZipExtra {State : Type} (mode : FileMode) (extra : List UInt8)
    (perform : Request → State → Bool × State) (state : State) : State :=
  processFields mode perform extra.length extra state

theorem processZipExtra_keeps {State : Type} {Invariant : State → Prop} (mode : FileMode)
    (extra : List UInt8) {perform : Request → State → Bool × State}
    (kept : ∀ request state, Invariant state → Invariant (perform request state).2)
    {state : State} (initially : Invariant state) :
    Invariant (processZipExtra mode extra perform state) := by
  unfold processZipExtra
  generalize extra.length = rounds
  induction rounds generalizing extra state with
  | zero => exact initially
  | succ rounds ih =>
    unfold processFields
    split
    · exact initially
    · exact initially
    · rename_i type data rest _
      split
      · exact initially
      · exact ih rest initially
      · rename_i request _
        have after := kept request state initially
        split
        · rename_i next performed
          rw [performed] at after
          exact ih rest after
        · rename_i next performed
          rw [performed] at after
          exact after

end GitlabRunner.Zip
