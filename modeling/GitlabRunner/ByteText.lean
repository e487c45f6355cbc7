import Mathlib.Data.List.Basic

/-!
# Texts as byte lists

Go's strings are byte sequences.
-/

namespace GitlabRunner.ByteText

open List

def byte (char : Char) : UInt8 :=
  UInt8.ofNat char.toNat

def ascii (text : String) : List UInt8 :=
  text.toList.map byte

theorem forall_byte {property : UInt8 → Prop}
    (checked : ∀ value : Fin 256, property (UInt8.ofNat value)) (char : UInt8) : property char := by
  have holds := checked ⟨char.toNat, char.toNat_lt⟩
  rwa [UInt8.ofNat_toNat] at holds

def digits (value : Nat) : List UInt8 :=
  (Nat.toDigits 10 value).map byte

def minus : UInt8 := byte '-'

def itoa : Int → List UInt8
  | .ofNat value => digits value
  | .negSucc value => minus :: digits (value + 1)

variable {char : Char}

theorem ofNat_byte_of_isDigit (isDigit : char.isDigit = true) :
    Char.ofNat (byte char).toNat = char := by
  have small : char.toNat ≤ 57 := (Char.isDigit_iff_toNat.mp isDigit).2
  have value : (byte char).toNat = char.toNat := by
    rw [byte, UInt8.toNat_ofNat']
    omega
  rw [value, Char.ofNat_toNat]

theorem isDigit_of_mem_toDigits {value : Nat}
    (member : char ∈ Nat.toDigits 10 value) : char.isDigit = true :=
  Nat.isDigit_of_mem_toDigits (by decide) (by decide) member

theorem map_ofNat_digits (value : Nat) :
    (digits value).map (fun digit => Char.ofNat digit.toNat) = Nat.toDigits 10 value := by
  rw [digits, map_map]
  have readBack : ∀ char ∈ Nat.toDigits 10 value,
      ((fun digit : UInt8 => Char.ofNat digit.toNat) ∘ byte) char = id char := by
    intro char member
    exact ofNat_byte_of_isDigit (isDigit_of_mem_toDigits member)
  rw [map_congr_left readBack, map_id]

theorem digits_inj {first second : Nat} (same : digits first = digits second) : first = second := by
  have sameChars : Nat.toDigits 10 first = Nat.toDigits 10 second := by
    rw [← map_ofNat_digits first, ← map_ofNat_digits second, same]
  calc
    first = Nat.ofDigitChars 10 (Nat.toDigits 10 first) 0 :=
      Nat.ofDigitChars_ten_toDigits.symm
    _ = Nat.ofDigitChars 10 (Nat.toDigits 10 second) 0 := by rw [sameChars]
    _ = second := Nat.ofDigitChars_ten_toDigits

theorem not_mem_digits (notDigit : char.isDigit = false)
    (small : char.toNat < 256) (value : Nat) : byte char ∉ digits value := by
  intro member
  obtain ⟨digit, isMember, sameByte⟩ := mem_map.mp member
  have isDigit := isDigit_of_mem_toDigits isMember
  have readDigit := ofNat_byte_of_isDigit isDigit
  have readChar : Char.ofNat (byte char).toNat = char := by
    rw [byte, UInt8.toNat_ofNat', Nat.mod_eq_of_lt small, Char.ofNat_toNat]
  rw [sameByte, readChar] at readDigit
  rw [readDigit, isDigit] at notDigit
  cases notDigit

theorem digits_ne_nil (value : Nat) : digits value ≠ [] := by
  intro empty
  exact Nat.toDigits_ne_nil (map_eq_nil_iff.mp empty)

theorem minus_not_mem_digits (value : Nat) : minus ∉ digits value :=
  not_mem_digits (by decide) (by decide) value

theorem not_mem_itoa (notDigit : char.isDigit = false)
    (small : char.toNat < 256) (notMinus : byte char ≠ minus) (value : Int) :
    byte char ∉ itoa value := by
  cases value with
  | ofNat value => exact not_mem_digits notDigit small value
  | negSucc value =>
    intro member
    rcases mem_cons.mp member with isMinus | isDigit
    · exact notMinus isMinus
    · exact not_mem_digits notDigit small (value + 1) isDigit

theorem itoa_ne_nil (value : Int) : itoa value ≠ [] := by
  cases value with
  | ofNat value => exact digits_ne_nil value
  | negSucc value => exact cons_ne_nil _ _

theorem itoa_inj {first second : Int} (same : itoa first = itoa second) : first = second := by
  have signs : ∀ value other : Nat, digits value ≠ minus :: digits other := by
    intro value other isMinus
    apply minus_not_mem_digits value
    rw [isMinus]
    apply mem_cons_self
  cases first with
  | ofNat first =>
    cases second with
    | ofNat second => rw [digits_inj same]
    | negSucc second => exact (signs _ _ same).elim
  | negSucc first =>
    cases second with
    | ofNat second => exact (signs _ _ same.symm).elim
    | negSucc second =>
      have values := digits_inj (List.cons.inj same).2
      rw [Nat.succ.inj values]

theorem append_cons_inj_last {Element : Type*} {separator : Element}
    {first second firstEnd secondEnd : List Element} (firstFree : separator ∉ firstEnd)
    (secondFree : separator ∉ secondEnd)
    (same : first ++ separator :: firstEnd = second ++ separator :: secondEnd) :
    first = second ∧ firstEnd = secondEnd := by
  rcases append_eq_append_iff.mp same with ⟨between, grown, rest⟩ | ⟨between, grown, rest⟩
  · cases between with
    | nil =>
      rw [append_nil] at grown
      exact ⟨grown.symm, (List.cons.inj rest).2⟩
    | cons head tail =>
      have inEnd : firstEnd = tail ++ separator :: secondEnd := (List.cons.inj rest).2
      exact (firstFree (by rw [inEnd]; simp)).elim
  · cases between with
    | nil =>
      rw [append_nil] at grown
      exact ⟨grown, (List.cons.inj rest).2.symm⟩
    | cons head tail =>
      have inEnd : secondEnd = tail ++ separator :: firstEnd := (List.cons.inj rest).2
      exact (secondFree (by rw [inEnd]; simp)).elim

end GitlabRunner.ByteText
