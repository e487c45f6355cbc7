import GitlabRunner.ZipExtra
import Mathlib.Order.Nat

/-!
# Results of reading the extra data of zip entries

What `processZipExtra` returns beside the changes it makes, for data that consists of
complete fields, for data that ends inside a field, and for the data `createZipExtra` makes.
-/

namespace GitlabRunner.ZipMetadata

open Zip

inductive Error where
  | unexpectedEOF
  | field (err : FieldError)
  | request (request : Request)
  deriving DecidableEq, Repr

section Reading

variable {State : Type} (mode : FileMode) (perform : Request → State → Bool × State)

def handle (type : Nat) (data : List UInt8) (state : State) : Option Error × State :=
  match processField mode type data with
  | .error err => (some (.field err), state)
  | .ok none => (none, state)
  | .ok (some request) =>
    match perform request state with
    | (true, next) => (none, next)
    | (false, next) => (some (.request request), next)

theorem length_rest_lt {extra data rest : List UInt8} {type : Nat}
    (isRead : readZipExtraField extra = .field type data rest) : rest.length < extra.length := by
  unfold readZipExtraField at isRead
  split at isRead
  · cases isRead
  · split at isRead
    · cases isRead
    · dsimp only at isRead
      split at isRead
      · cases isRead
      · cases isRead
        simp only [List.length_drop]
        omega

/-- `processZipExtra`, with what it returns. -/
def processZipExtra (extra : List UInt8) (state : State) : Option Error × State :=
  match _isRead : readZipExtraField extra with
  | .eof => (none, state)
  | .unexpectedEOF => (some .unexpectedEOF, state)
  | .field type data rest =>
    match handle mode perform type data state with
    | (none, next) => processZipExtra rest next
    | (some err, next) => (some err, next)
termination_by extra.length
decreasing_by exact length_rest_lt _isRead

theorem processZipExtra_eq (extra : List UInt8) (state : State) :
    processZipExtra mode perform extra state =
      match readZipExtraField extra with
      | .eof => (none, state)
      | .unexpectedEOF => (some .unexpectedEOF, state)
      | .field type data rest =>
        match handle mode perform type data state with
        | (none, next) => processZipExtra mode perform rest next
        | (some err, next) => (some err, next) := by
  rw [processZipExtra]
  split
  · simp only [*]
  · simp only [*]
  · simp only [*]

/-- The changes are those of the model without results. -/
theorem processZipExtra_snd (extra : List UInt8) (state : State) :
    (processZipExtra mode perform extra state).2 =
      Zip.processZipExtra mode extra perform state := by
  have rounds : ∀ rounds extra (state : State), extra.length ≤ rounds →
      (processZipExtra mode perform extra state).2 =
        processFields mode perform rounds extra state := by
    intro rounds
    induction rounds with
    | zero =>
      intro extra state few
      rw [List.length_eq_zero_iff.mp (Nat.le_zero.mp few), processZipExtra_eq]
      rfl
    | succ rounds ih =>
      intro extra state few
      rw [processZipExtra_eq, processFields]
      cases isRead : readZipExtraField extra with
      | eof | unexpectedEOF => rfl
      | field type data rest =>
        have shorter := length_rest_lt isRead
        have again := fun next : State => ih rest next (by omega)
        simp only [handle]
        cases processField mode type data with
        | error err => rfl
        | ok request =>
          cases request with
          | none => exact again state
          | some request =>
            dsimp only
            obtain ⟨_ | _, next⟩ := perform request state
            · rfl
            · exact again next
  exact rounds extra.length extra state le_rfl

/-- A field of extra data: a type and data whose length fits into two bytes. -/
structure Field where
  type : UInt16
  data : List UInt8
  short : data.length < 65536

def twoBytes (value : Nat) : List UInt8 :=
  [UInt8.ofNat value, UInt8.ofNat (value / 256)]

theorem littleEndian_twoBytes {value : Nat} (small : value < 65536) :
    littleEndian (twoBytes value) = value := by
  simp only [twoBytes, littleEndian, UInt8.toNat_ofNat']
  omega

def Field.bytes (field : Field) : List UInt8 :=
  twoBytes field.type.toNat ++ twoBytes field.data.length ++ field.data

theorem readZipExtraField_bytes (field : Field) {rest : List UInt8}
    (more : field.data ++ rest ≠ []) :
    readZipExtraField (field.bytes ++ rest) = .field field.type.toNat field.data rest := by
  have size : littleEndian (((field.bytes ++ rest).drop 2).take 2) = field.data.length :=
    littleEndian_twoBytes field.short
  have type : littleEndian ((field.bytes ++ rest).take 2) = field.type.toNat :=
    littleEndian_twoBytes field.type.toNat_lt
  have behind : (field.bytes ++ rest).drop 4 = field.data ++ rest := rfl
  have long : ¬ (field.bytes ++ rest).length < 4 := by simp [Field.bytes, twoBytes]
  have notEmpty : field.bytes ++ rest ≠ [] := nofun
  unfold readZipExtraField
  rw [if_neg notEmpty, if_neg long, size, type, behind]
  simp [more]

/-- The fields are handled in their order, up to the first error. -/
def handleFields : List Field → State → Option Error × State
  | [], state => (none, state)
  | field :: fields, state =>
    match handle mode perform field.type.toNat field.data state with
    | (none, next) => handleFields fields next
    | (some err, next) => (some err, next)

theorem processZipExtra_fields {fields : List Field} {tail : List UInt8}
    (ends : ∀ last ∈ fields.getLast?, last.data ++ tail ≠ []) (state : State) :
    processZipExtra mode perform (fields.flatMap Field.bytes ++ tail) state =
      match handleFields mode perform fields state with
      | (none, next) => processZipExtra mode perform tail next
      | (some err, next) => (some err, next) := by
  induction fields generalizing state with
  | nil => rfl
  | cons field fields ih =>
    have more : field.data ++ (fields.flatMap Field.bytes ++ tail) ≠ [] := by
      cases fields with
      | nil => exact ends field rfl
      | cons next fields => simp [Field.bytes, twoBytes]
    have later : ∀ last ∈ fields.getLast?, last.data ++ tail ≠ [] := by
      cases fields with
      | nil => nofun
      | cons next fields => exact ends
    have isRead := readZipExtraField_bytes field more
    rw [List.flatMap_cons, List.append_assoc, processZipExtra_eq, isRead, handleFields]
    dsimp only
    rcases handle mode perform field.type.toNat field.data state with ⟨_ | err, next⟩
    · exact ih later next
    · rfl

/-- The bytes behind the complete fields end inside a header, or before the data that it
declares does. -/
def Incomplete (tail : List UInt8) : Prop :=
  tail ≠ [] ∧ (4 ≤ tail.length → tail.length - 4 < littleEndian ((tail.drop 2).take 2))

/-- Complete fields are handled in their order, and an incomplete one behind them is an
error that changes nothing. -/
structure ReadsFields (fields : List Field) (tail : List UInt8) (state : State) : Prop where
  complete : tail = [] → processZipExtra mode perform (fields.flatMap Field.bytes ++ tail) state =
    handleFields mode perform fields state
  rejects : Incomplete tail →
    (processZipExtra mode perform (fields.flatMap Field.bytes ++ tail) state).1 ≠ none ∧
      (processZipExtra mode perform (fields.flatMap Field.bytes ++ tail) state).2 =
        (handleFields mode perform fields state).2

end Reading

def record (request : Request) (requests : List Request) : Bool × List Request :=
  (true, requests ++ [request])

section RoundTrip

def fourBytes (value : Nat) : List UInt8 :=
  [UInt8.ofNat value, UInt8.ofNat (value / 256), UInt8.ofNat (value / 65536),
    UInt8.ofNat (value / 16777216)]

theorem littleEndian_fourBytes {value : Nat} (small : value < 4294967296) :
    littleEndian (fourBytes value) = value := by
  simp only [fourBytes, littleEndian, UInt8.toNat_ofNat']
  omega

def uidGidField (uid gid : UInt32) : Field where
  type := 0x7875
  data := [1, 4] ++ fourBytes uid.toNat ++ [4] ++ fourBytes gid.toNat
  short := by simp [fourBytes]

/-- The seconds are converted to 32 bits. -/
def timestampField (modTime : Int) : Field where
  type := 0x5455
  data := [1] ++ fourBytes (modTime % 4294967296).toNat
  short := by simp [fourBytes]

def createZipExtra (uid gid : UInt32) (modTime : Int) : List UInt8 :=
  (uidGidField uid gid).bytes ++ (timestampField modTime).bytes

variable {State : Type} (mode : FileMode) (perform : Request → State → Bool × State)

def performAll : List Request → State → Option Error × State
  | [], state => (none, state)
  | request :: requests, state =>
    match perform request state with
    | (true, next) => performAll requests next
    | (false, next) => (some (.request request), next)

theorem processZipExtra_createZipExtra (extractable : mode.dir = true ∨ mode = .regular)
    (uid gid : UInt32) (modTime : Int) (state : State) :
    processZipExtra mode perform (createZipExtra uid gid modTime) state =
      performAll perform [.lchown uid.toNat gid.toNat,
        .chtimes (modTime % 4294967296).toNat] state := by
  have owner : processField mode (uidGidField uid gid).type.toNat (uidGidField uid gid).data =
      .ok (some (.lchown (littleEndian (fourBytes uid.toNat))
        (littleEndian (fourBytes gid.toNat)))) := rfl
  have time : processField mode (timestampField modTime).type.toNat (timestampField modTime).data =
      .ok (some (.chtimes (littleEndian (fourBytes (modTime % 4294967296).toNat)))) := by
    have usual : ¬ ((!mode.dir) = true ∧ mode ≠ .regular) := by
      rintro ⟨notDir, notRegular⟩
      rcases extractable with isDir | isRegular
      · simp [isDir] at notDir
      · exact notRegular isRegular
    change processZipTimestampField mode (timestampField modTime).data = _
    rw [processZipTimestampField, if_neg usual]
    rfl
  rw [littleEndian_fourBytes uid.toNat_lt, littleEndian_fourBytes gid.toNat_lt] at owner
  rw [littleEndian_fourBytes (by omega)] at time
  have bytes : createZipExtra uid gid modTime =
      [uidGidField uid gid, timestampField modTime].flatMap Field.bytes ++ [] := by
    simp [createZipExtra]
  have ends : ∀ last ∈ [uidGidField uid gid, timestampField modTime].getLast?,
      last.data ++ [] ≠ [] := by
    rintro last ⟨⟩
    nofun
  rw [bytes, processZipExtra_fields mode perform ends]
  simp only [handleFields, handle, performAll, owner, time]
  obtain ⟨_ | _, next⟩ := perform (.lchown uid.toNat gid.toNat) state
  · rfl
  · dsimp only
    obtain ⟨_ | _, last⟩ := perform (.chtimes (modTime % 4294967296).toNat) next
    · rfl
    · exact processZipExtra_eq mode perform [] last

def RoundTrips (uid gid : UInt32) (modTime : Int) : Prop :=
  ∃ seconds : Nat, (seconds : Int) = modTime ∧
    ∀ mode : FileMode, mode.dir = true ∨ mode = .regular →
      ∀ (State : Type) (perform : Request → State → Bool × State) (state : State),
        processZipExtra mode perform (createZipExtra uid gid modTime) state =
          performAll perform [.lchown uid.toNat gid.toNat, .chtimes seconds] state

theorem RoundTrips.modTime_eq {uid gid : UInt32} {modTime : Int}
    (trips : RoundTrips uid gid modTime) : modTime % 4294967296 = modTime := by
  obtain ⟨seconds, isTime, same⟩ := trips
  have recorded := same .regular (.inr rfl) _ record []
  rw [processZipExtra_createZipExtra _ _ (.inr rfl)] at recorded
  simp only [performAll, record, List.nil_append, List.cons_append, Prod.mk.injEq, true_and,
    List.cons.injEq, Request.chtimes.injEq, and_true] at recorded
  omega

/-- Owner and time come back if and only if the time fits into 32 bits. -/
theorem roundTrips_iff (uid gid : UInt32) (modTime : Int) :
    RoundTrips uid gid modTime ↔ 0 ≤ modTime ∧ modTime < 4294967296 := by
  constructor
  · intro trips
    have kept := trips.modTime_eq
    omega
  · rintro ⟨nonnegative, small⟩
    refine ⟨(modTime % 4294967296).toNat, by omega, ?_⟩
    intro mode extractable State perform state
    exact processZipExtra_createZipExtra mode perform extractable uid gid modTime state

/-- A file from before 1970. -/
theorem early_time_changed : ¬ RoundTrips 0 0 (-1) := by
  intro trips
  exact absurd trips.modTime_eq (by decide)

end RoundTrip

end GitlabRunner.ZipMetadata
