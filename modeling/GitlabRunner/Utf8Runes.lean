import Mathlib.Data.List.Infix

/-!
# Runes of a UTF-8 byte stream

`bufio.Reader.ReadRune` decodes a byte stream that may arrive in arbitrary
pieces.  It asks `utf8.FullRune` whether the buffered bytes already hold a
complete encoding and `utf8.DecodeRune` for the rune itself; every invalid byte
decodes to `utf8.RuneError` with width one.

This file follows the tables of that decoder and connects them to Lean's own
`String.utf8EncodeChar`: the first rune of an encoded text is its first
character, and a proper prefix of one encoding is never a full rune.  It names
nothing of the runner.
-/

namespace GitlabRunner.Utf8

open List

def runeError : Char := Char.ofNat 0xFFFD

/-- What the first byte announces: the width of the encoding and, for the
longer ones, the accepted range of the second byte. -/
inductive FirstByte where
  | ascii
  | invalid
  | two
  | three (low high : Nat)
  | four (low high : Nat)
  deriving DecidableEq, Repr

def first (byte : UInt8) : FirstByte :=
  let value := byte.toNat
  if value < 0x80 then .ascii
  else if value < 0xC2 then .invalid
  else if value < 0xE0 then .two
  else if value = 0xE0 then .three 0xA0 0xBF
  else if value = 0xED then .three 0x80 0x9F
  else if value < 0xF0 then .three 0x80 0xBF
  else if value = 0xF0 then .four 0x90 0xBF
  else if value = 0xF4 then .four 0x80 0x8F
  else if value < 0xF4 then .four 0x80 0xBF
  else .invalid

def inRange (low high : Nat) (byte : UInt8) : Bool :=
  decide (low ≤ byte.toNat ∧ byte.toNat ≤ high)

def isContinuation (byte : UInt8) : Bool :=
  inRange 0x80 0xBF byte

/-- `utf8.DecodeRune`: the first rune of a byte string and its width. -/
def decodeRune : List UInt8 → Char × Nat
  | [] => (runeError, 0)
  | byte0 :: tail =>
    match first byte0, tail with
    | .ascii, _ => (Char.ofNat byte0.toNat, 1)
    | .two, byte1 :: _ =>
      if isContinuation byte1 then
        (Char.ofNat (byte0.toNat % 32 * 64 + byte1.toNat % 64), 2)
      else (runeError, 1)
    | .three low high, byte1 :: byte2 :: _ =>
      if inRange low high byte1 && isContinuation byte2 then
        (Char.ofNat (byte0.toNat % 16 * 4096 + byte1.toNat % 64 * 64 +
          byte2.toNat % 64), 3)
      else (runeError, 1)
    | .four low high, byte1 :: byte2 :: byte3 :: _ =>
      if inRange low high byte1 && isContinuation byte2 &&
          isContinuation byte3 then
        (Char.ofNat (byte0.toNat % 8 * 262144 + byte1.toNat % 64 * 4096 +
          byte2.toNat % 64 * 64 + byte3.toNat % 64), 4)
      else (runeError, 1)
    | _, _ => (runeError, 1)

/-- `utf8.FullRune`: the bytes begin with a complete encoding of a rune.  An
invalid encoding counts as complete, because it decodes as a one-byte error. -/
def fullRune : List UInt8 → Bool
  | [] => false
  | byte0 :: tail =>
    match first byte0, tail with
    | .ascii, _ => true
    | .invalid, _ => true
    | _, [] => false
    | .two, _ => true
    | .three low high, [byte1] => !inRange low high byte1
    | .three _ _, _ => true
    | .four low high, [byte1] => !inRange low high byte1
    | .four low high, [byte1, byte2] =>
      !inRange low high byte1 || !isContinuation byte2
    | .four _ _, _ => true

def encode (text : List Char) : List UInt8 :=
  text.flatMap String.utf8EncodeChar

@[simp]
theorem encode_nil : encode [] = [] :=
  rfl

variable (rune : Char)

@[simp]
theorem encode_cons (text : List Char) :
    encode (rune :: text) = String.utf8EncodeChar rune ++ encode text :=
  rfl

theorem char_value_bounds : rune.toNat < 0xD800 ∨ 0xDFFF < rune.toNat ∧ rune.toNat < 0x110000 :=
  rune.valid

/-- The four shapes of an encoding, by the size of the scalar value. -/
theorem utf8EncodeChar_eq : String.utf8EncodeChar rune =
    if rune.toNat ≤ 0x7F then [UInt8.ofNat rune.toNat]
    else if rune.toNat ≤ 0x7FF then [UInt8.ofNat (rune.toNat / 64 % 32 + 0xC0),
        UInt8.ofNat (rune.toNat % 64 + 0x80)]
    else if rune.toNat ≤ 0xFFFF then [UInt8.ofNat (rune.toNat / 4096 % 16 + 0xE0),
        UInt8.ofNat (rune.toNat / 64 % 64 + 0x80),
        UInt8.ofNat (rune.toNat % 64 + 0x80)] else [UInt8.ofNat (rune.toNat / 262144 % 8 + 0xF0),
        UInt8.ofNat (rune.toNat / 4096 % 64 + 0x80),
        UInt8.ofNat (rune.toNat / 64 % 64 + 0x80), UInt8.ofNat (rune.toNat % 64 + 0x80)] :=
  rfl

private theorem toNat_ofNat_byte {value : Nat} (small : value < 256) :
    (UInt8.ofNat value).toNat = value := by
  simp [Nat.mod_eq_of_lt small]

variable {byte : UInt8}

private theorem inRange_iff {low high : Nat} :
    inRange low high byte = true ↔ low ≤ byte.toNat ∧ byte.toNat ≤ high := by
  simp [inRange]

/-- The first byte of a three-byte encoding accepts the second byte that
follows it: overlong forms and surrogates are cut off by the ranges. -/
private theorem first_three (value : Nat) (low : 0x800 ≤ value)
    (high : value < 0x10000) (scalar : value < 0xD800 ∨ 0xDFFF < value) :
    ∃ lo hi, first (UInt8.ofNat (value / 4096 % 16 + 0xE0)) = .three lo hi ∧
      inRange lo hi (UInt8.ofNat (value / 64 % 64 + 0x80)) = true := by
  simp (disch := omega) only [first, inRange_iff, toNat_ofNat_byte, if_neg]
  split
  · exact ⟨_, _, rfl, by omega⟩
  · split
    · exact ⟨_, _, rfl, by omega⟩
    · rw [if_pos (by omega)]
      exact ⟨_, _, rfl, by omega⟩

private theorem first_four (value : Nat) (low : 0x10000 ≤ value) (high : value < 0x110000) :
    ∃ lo hi, first (UInt8.ofNat (value / 262144 % 8 + 0xF0)) = .four lo hi ∧
      inRange lo hi (UInt8.ofNat (value / 4096 % 64 + 0x80)) = true := by
  simp (disch := omega) only [first, inRange_iff, toNat_ofNat_byte, if_neg]
  split
  · exact ⟨_, _, rfl, by omega⟩
  · split
    · exact ⟨_, _, rfl, by omega⟩
    · rw [if_pos (by omega)]
      exact ⟨_, _, rfl, by omega⟩

private theorem isContinuation_low (value : Nat) :
    isContinuation (UInt8.ofNat (value % 64 + 0x80)) = true := by
  rw [isContinuation, inRange_iff, toNat_ofNat_byte (by omega)]
  omega

/-- Decoding the encoding of a character gives the character back, whatever
follows it. -/
theorem decodeRune_encode_append (tail : List UInt8) :
    decodeRune (String.utf8EncodeChar rune ++ tail) =
      (rune, (String.utf8EncodeChar rune).length) := by
  have bounds := char_value_bounds rune
  rw [utf8EncodeChar_eq]
  split
  · have isAscii : first (UInt8.ofNat rune.toNat) = .ascii := by
      simp (disch := omega) only [first, toNat_ofNat_byte, if_pos]
    simp (disch := omega) only [cons_append, nil_append, decodeRune, isAscii,
      toNat_ofNat_byte, Char.ofNat_toNat, length_cons, length_nil]
  · split
    · have isTwo : first (UInt8.ofNat (rune.toNat / 64 % 32 + 0xC0)) = .two := by
        simp (disch := omega) only [first, toNat_ofNat_byte, if_neg, if_pos]
      have value : (rune.toNat / 64 % 32 + 0xC0) % 32 * 64 +
          (rune.toNat % 64 + 0x80) % 64 = rune.toNat := by omega
      simp (disch := omega) only [cons_append, nil_append, decodeRune, isTwo,
        isContinuation_low, if_true, toNat_ofNat_byte, value, Char.ofNat_toNat, length_cons,
        length_nil]
    · split
      · obtain ⟨lo, hi, isThree, second⟩ := first_three rune.toNat (by omega) (by omega) (by omega)
        have value : (rune.toNat / 4096 % 16 + 0xE0) % 16 * 4096 +
            (rune.toNat / 64 % 64 + 0x80) % 64 * 64 +
            (rune.toNat % 64 + 0x80) % 64 = rune.toNat := by omega
        simp (disch := omega) only [cons_append, nil_append, decodeRune, isThree, second,
          isContinuation_low, Bool.and_self, if_true, toNat_ofNat_byte, value, Char.ofNat_toNat,
          length_cons, length_nil]
      · obtain ⟨lo, hi, isFour, second⟩ := first_four rune.toNat (by omega) (by omega)
        have value : (rune.toNat / 262144 % 8 + 0xF0) % 8 * 262144 +
            (rune.toNat / 4096 % 64 + 0x80) % 64 * 4096 +
            (rune.toNat / 64 % 64 + 0x80) % 64 * 64 +
            (rune.toNat % 64 + 0x80) % 64 = rune.toNat := by omega
        simp (disch := omega) only [cons_append, nil_append, decodeRune, isFour, second,
          isContinuation_low, Bool.and_self, if_true, toNat_ofNat_byte, value, Char.ofNat_toNat,
          length_cons, length_nil]

/-- A nonempty string has a first rune, which takes some of its bytes. -/
theorem decodeRune_width (byte : UInt8) (tail : List UInt8) :
    1 ≤ (decodeRune (byte :: tail)).2 ∧ (decodeRune (byte :: tail)).2 ≤ (byte :: tail).length := by
  unfold decodeRune
  dsimp only
  split
  · simp
  · split <;> simp
  · split <;> simp
  · split <;> simp
  · simp

theorem decodeRune_append {buffered : List UInt8} (full : fullRune buffered = true)
    (later : List UInt8) : decodeRune (buffered ++ later) = decodeRune buffered := by
  match buffered with
  | [] => cases full
  | [byte0] =>
    cases kind : first byte0 <;> simp [fullRune, decodeRune, kind] at full ⊢
  | [byte0, byte1] =>
    cases kind : first byte0 with
    | three low high =>
      have outside : inRange low high byte1 = false := by simpa [fullRune, kind] using full
      cases later <;> simp [decodeRune, kind, outside]
    | four low high =>
      have outside : inRange low high byte1 = false := by simpa [fullRune, kind] using full
      match later with
      | [] => rfl
      | [_] => simp [decodeRune, kind]
      | _ :: _ :: _ => simp [decodeRune, kind, outside]
    | _ => simp [decodeRune, kind]
  | [byte0, byte1, byte2] =>
    cases kind : first byte0 with
    | four low high =>
      have outside : (inRange low high byte1 && isContinuation byte2) = false := by
        rw [Bool.and_eq_false_iff]
        simpa [fullRune, kind] using full
      cases later <;> simp [decodeRune, kind, outside]
    | _ => simp [decodeRune, kind]
  | byte0 :: byte1 :: byte2 :: byte3 :: rest =>
    cases kind : first byte0 <;> simp [decodeRune, kind]

/-- A proper prefix of one encoding is not yet a full rune, so the reader waits
for more bytes. -/
theorem fullRune_of_length_lt (buffered missing : List UInt8)
    (encoding : String.utf8EncodeChar rune = buffered ++ missing) (short : missing ≠ []) :
    fullRune buffered = false := by
  cases buffered with
  | nil => rfl
  | cons byte rest =>
    rw [← Bool.not_eq_true]
    intro full
    -- The rune would be read from the prefix, but it is longer.
    have decoded := decodeRune_encode_append rune []
    rw [append_nil, encoding, decodeRune_append full] at decoded
    have bound := (decodeRune_width byte rest).2
    rw [decoded, length_append] at bound
    have longer := length_pos_of_ne_nil short
    omega

theorem utf8EncodeChar_ne_nil : String.utf8EncodeChar rune ≠ [] := by
  rw [utf8EncodeChar_eq]
  split <;> [skip; split <;> [skip; split]] <;> exact cons_ne_nil _ _

theorem encode_ne_nil {text : List Char} (nonempty : text ≠ []) : encode text ≠ [] := by
  cases text with
  | nil => exact (nonempty rfl).elim
  | cons rune text => simp [utf8EncodeChar_ne_nil rune]

/-- When the buffered bytes and the bytes still to come form a UTF-8 text and
the buffer holds a full rune, the buffer begins with the encoding of the first
character of the text. -/
theorem exists_rune_of_fullRune {buffered later : List UInt8}
    {text : List Char} (split : buffered ++ later = encode text) (full : fullRune buffered = true) :
    ∃ rune rest text', text = rune :: text' ∧
      buffered = String.utf8EncodeChar rune ++ rest ∧ rest ++ later = encode text' := by
  cases text with
  | nil =>
    have : buffered = [] := (append_eq_nil_iff.mp split).1
    subst this
    simp [fullRune] at full
  | cons rune text =>
    rw [encode_cons] at split
    rcases append_eq_append_iff.mp split with
      ⟨missing, encoding, _⟩ | ⟨rest, bufferedEq, textEq⟩
    · by_cases complete : missing = []
      · subst complete
        rw [append_nil] at encoding
        refine ⟨rune, [], text, rfl, by simp [encoding], ?_⟩
        rw [encoding] at split
        simpa using split
      · rw [fullRune_of_length_lt rune buffered missing encoding complete] at full
        simp at full
    · exact ⟨rune, rest, text, rfl, bufferedEq, textEq.symm⟩

/-- The runes of a byte string, with the number of bytes that were already read as part of a
rune. -/
def runesFrom : Nat → List UInt8 → List Char
  | _, [] => []
  | read + 1, _ :: rest => runesFrom read rest
  | 0, byte :: rest =>
    (decodeRune (byte :: rest)).1 :: runesFrom ((decodeRune (byte :: rest)).2 - 1) rest

def runes (bytes : List UInt8) : List Char :=
  runesFrom 0 bytes

theorem runesFrom_drop (read : Nat) (bytes : List UInt8) :
    runesFrom read bytes = runes (bytes.drop read) := by
  induction bytes generalizing read with
  | nil =>
    rw [drop_nil]
    cases read <;> rfl
  | cons byte rest ih =>
    cases read with
    | zero => rfl
    | succ read => exact ih read

@[simp]
theorem runes_nil : runes [] = [] :=
  rfl

theorem runes_of_ne_nil {bytes : List UInt8} (nonempty : bytes ≠ []) :
    runes bytes = (decodeRune bytes).1 :: runes (bytes.drop (decodeRune bytes).2) := by
  cases bytes with
  | nil => exact (nonempty rfl).elim
  | cons byte rest =>
    obtain ⟨width, widthEq⟩ := Nat.exists_eq_add_of_le' (decodeRune_width byte rest).1
    change (decodeRune (byte :: rest)).1 :: runesFrom ((decodeRune (byte :: rest)).2 - 1) rest = _
    rw [runesFrom_drop, widthEq]
    rfl

theorem runes_encode_append (text : List Char) (tail : List UInt8) :
    runes (encode text ++ tail) = text ++ runes tail := by
  induction text with
  | nil => rfl
  | cons rune text ih =>
    have nonempty : encode (rune :: text) ++ tail ≠ [] :=
      append_ne_nil_of_left_ne_nil (encode_ne_nil (cons_ne_nil _ _)) tail
    rw [runes_of_ne_nil nonempty, encode_cons, append_assoc, decodeRune_encode_append,
      drop_left, ih, cons_append]

theorem runes_encode (text : List Char) : runes (encode text) = text := by
  simpa using runes_encode_append text []

theorem utf8EncodeChar_ascii {rune : Char} (small : rune.toNat < 0x80) :
    String.utf8EncodeChar rune = [UInt8.ofNat rune.toNat] := by
  rw [utf8EncodeChar_eq, if_pos (by omega)]

theorem le_of_mem_utf8EncodeChar {rune : Char} (large : 0x80 ≤ rune.toNat)
    (member : byte ∈ String.utf8EncodeChar rune) : 0x80 ≤ byte.toNat := by
  have bounds := char_value_bounds rune
  rw [utf8EncodeChar_eq, if_neg (by omega)] at member
  split at member <;> [skip; split at member]
  all_goals
    simp only [mem_cons, not_mem_nil, or_false] at member
    rcases member with rfl | rfl | rfl | rfl <;> rw [toNat_ofNat_byte (by omega)] <;> omega

theorem encode_append (first second : List Char) :
    encode (first ++ second) = encode first ++ encode second :=
  flatMap_append

def asciiText (bytes : List UInt8) : List Char :=
  bytes.map fun byte => Char.ofNat byte.toNat

theorem toNat_ofNat_small {value : Nat} (small : value < 0x80) :
    (Char.ofNat value).toNat = value := by
  rw [Char.ofNat, dif_pos (.inl (by omega))]
  rfl

theorem encode_asciiText {bytes : List UInt8} (small : ∀ byte ∈ bytes, byte.toNat < 0x80) :
    encode (asciiText bytes) = bytes := by
  induction bytes with
  | nil => rfl
  | cons byte bytes ih =>
    have isSmall := small byte (by simp)
    have value := toNat_ofNat_small isSmall
    change encode (Char.ofNat byte.toNat :: asciiText bytes) = _
    rw [encode_cons, ih fun other member => small other (mem_cons_of_mem byte member),
      utf8EncodeChar_ascii (by rw [value]; exact isSmall), value,
      UInt8.ofNat_toNat]
    rfl

def runeCode (code : UInt8 → List UInt8) (rune : Char) : List Char :=
  if rune.toNat < 0x80 then asciiText (code (UInt8.ofNat rune.toNat)) else [rune]

/-- A code that leaves the bytes beyond ASCII works on characters. -/
theorem flatMap_encode {code : UInt8 → List UInt8}
    (low : ∀ byte : UInt8, byte.toNat < 0x80 → ∀ written ∈ code byte, written.toNat < 0x80)
    (high : ∀ byte : UInt8, 0x80 ≤ byte.toNat → code byte = [byte]) (text : List Char) :
    (encode text).flatMap code = encode (text.flatMap (runeCode code)) := by
  induction text with
  | nil => rfl
  | cons rune text ih =>
    rw [encode_cons, flatMap_append, ih, flatMap_cons, encode_append]
    congr 1
    rw [runeCode]
    split
    · case isTrue small =>
        rw [utf8EncodeChar_ascii small, flatMap_singleton,
          encode_asciiText (low _ (by rw [toNat_ofNat_byte (by omega)]; exact small))]
    · case isFalse large =>
        have kept : ∀ byte ∈ String.utf8EncodeChar rune, code byte = [byte] :=
          fun byte member => high byte (le_of_mem_utf8EncodeChar (by omega) member)
        rw [flatMap_congr kept, flatMap_singleton', encode_cons, encode_nil, append_nil]

theorem first_low {low high : Nat}
    (kind : first byte = .three low high ∨ first byte = .four low high) : 0x80 ≤ low := by
  unfold first at kind
  dsimp only at kind
  repeat' split at kind
  all_goals
    simp only [reduceCtorEq, FirstByte.three.injEq, FirstByte.four.injEq,
      or_false, false_or] at kind
  all_goals omega

/-- A rune is one byte of ASCII, or it has no such byte. -/
theorem decodeRune_bytes (byte : UInt8) (tail : List UInt8) :
    (byte.toNat < 0x80 ∧ (decodeRune (byte :: tail)).2 = 1) ∨
      ∀ other ∈ (byte :: tail).take (decodeRune (byte :: tail)).2, 0x80 ≤ other.toNat := by
  by_cases ascii : byte.toNat < 0x80
  · have kind : first byte = .ascii := if_pos ascii
    exact .inl ⟨ascii, by simp [decodeRune, kind]⟩
  · refine .inr ?_
    have large := Nat.le_of_not_lt ascii
    unfold decodeRune
    dsimp only
    split
    · simpa using large
    · split
      · simp_all [isContinuation, inRange_iff]
      · simpa using large
    · rename_i kind
      have low := first_low (.inl kind)
      split
      · simp_all [isContinuation, inRange_iff]
        omega
      · simpa using large
    · rename_i kind
      have low := first_low (.inr kind)
      split
      · simp_all [isContinuation, inRange_iff]
        omega
      · simpa using large
    · simpa using large

end GitlabRunner.Utf8
