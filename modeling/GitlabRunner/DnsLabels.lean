import GitlabRunner.MachineNames

/-!
# DNS labels

What `MakeRFC1123Compatible` of `helpers/dns/utils.go` leaves of a name.
-/

namespace GitlabRunner.MachineNames

open List ByteText Utf8

/-- The characters before the cut. -/
def keptRunes (name : List UInt8) : List Char :=
  ((runes (toLower name)).filter fun rune => rune = '-' || isLetterOrDigit rune).dropWhile
    fun rune => !isLetterOrDigit rune

/-- The demands on a label that do not look at its end. -/
structure Label (label : List UInt8) : Prop where
  short : label.length ≤ 63
  allowed : ∀ rune ∈ runes label, rune = '-' ∨ isLetterOrDigit rune = true
  first : ∀ rune ∈ (runes label).head?, isLetterOrDigit rune = true

variable {name : List UInt8} {rune : Char}

theorem runes_label (name : List UInt8) :
    runes (makeRFC1123Compatible name) = (keptRunes name).take 63 :=
  runes_encode _

theorem runes_toLower (name : List UInt8) : runes (toLower name) = (runes name).map lower :=
  runes_encode _

theorem allowed_keptRunes (member : rune ∈ keptRunes name) :
    rune = '-' ∨ isLetterOrDigit rune = true := by
  have kept := (mem_filter.mp ((dropWhile_sublist _).subset member)).2
  rwa [Bool.or_eq_true, decide_eq_true_eq] at kept

theorem head_keptRunes (isHead : rune ∈ (keptRunes name).head?) : isLetterOrDigit rune = true := by
  have stopped := head?_dropWhile_not (fun rune => !isLetterOrDigit rune)
    ((runes (toLower name)).filter fun rune => rune = '-' || isLetterOrDigit rune)
  rw [← keptRunes, isHead] at stopped
  simpa using stopped

theorem bounds_of_isLetterOrDigit (isOne : isLetterOrDigit rune = true) :
    97 ≤ rune.toNat ∧ rune.toNat ≤ 122 ∨ 48 ≤ rune.toNat ∧ rune.toNat ≤ 57 := by
  rw [isLetterOrDigit, Bool.or_eq_true] at isOne
  refine isOne.imp (fun isLower => ?_) Char.isDigit_iff_toNat.mp
  exact (Bool.and_eq_true_iff.mp isLower).imp of_decide_eq_true of_decide_eq_true

theorem lower_allowed (allowed : rune = '-' ∨ isLetterOrDigit rune = true) :
    rune.toNat < 0x80 ∧ lower rune = rune := by
  have bounds : rune.toNat = 45 ∨ _ := allowed.imp (congrArg Char.toNat) bounds_of_isLetterOrDigit
  refine ⟨by omega, ?_⟩
  rw [lower, if_neg (by omega), if_neg (by omega), if_neg (by omega)]

theorem not_isUpper_lower (rune : Char) : (lower rune).isUpper = false := by
  rw [Bool.eq_false_iff]
  intro isUpper
  have bounds : 65 ≤ (lower rune).toNat ∧ (lower rune).toNat ≤ 90 := of_decide_eq_true isUpper
  unfold lower at bounds
  split at bounds
  · rw [toNat_ofNat_small (by omega)] at bounds
    omega
  · split at bounds
    · exact absurd bounds (by decide)
    · split at bounds
      · exact absurd bounds (by decide)
      · omega

theorem length_encode_of_small {text : List Char} (small : ∀ rune ∈ text, rune.toNat < 0x80) :
    (encode text).length = text.length := by
  induction text with
  | nil => rfl
  | cons rune text ih =>
    rw [forall_mem_cons] at small
    rw [encode_cons, length_append, utf8EncodeChar_ascii small.1, ih small.2]
    exact Nat.add_comm _ _

theorem label_makeRFC1123Compatible (name : List UInt8) : Label (makeRFC1123Compatible name) := by
  have allowed : ∀ rune ∈ (keptRunes name).take 63, rune = '-' ∨ isLetterOrDigit rune = true :=
    fun rune member => allowed_keptRunes (mem_of_mem_take member)
  refine ⟨?_, ?_, ?_⟩
  · change (encode ((keptRunes name).take 63)).length ≤ 63
    rw [length_encode_of_small fun rune member => (lower_allowed (allowed rune member)).1]
    exact length_take_le _ _
  · rw [runes_label]
    exact allowed
  · intro rune isHead
    rw [runes_label, head?_take, if_neg (by decide)] at isHead
    exact head_keptRunes isHead

/-- The characters of a label are its own kept characters. -/
theorem makeRFC1123Compatible_of_label {text : List Char} (label : Label (encode text)) :
    makeRFC1123Compatible (encode text) = encode text := by
  obtain ⟨short, allowed, first⟩ := label
  rw [runes_encode] at allowed first
  have small := fun rune member => (lower_allowed (allowed rune member)).1
  have lowered : text.map lower = text :=
    (map_congr_left fun rune member => (lower_allowed (allowed rune member)).2).trans (map_id _)
  have filtered : (text.filter fun rune => rune = '-' || isLetterOrDigit rune) = text := by
    rw [filter_eq_self]
    simpa using allowed
  have whole : text.dropWhile (fun rune => !isLetterOrDigit rune) = text := by
    cases text with
    | nil => rfl
    | cons rune text => exact dropWhile_cons_of_neg (by simp [first rune rfl])
  rw [length_encode_of_small small] at short
  rw [makeRFC1123Compatible, runes_toLower, runes_encode, lowered, filtered, whole,
    take_of_length_le short]

theorem no_letter_of_empty (isEmpty : makeRFC1123Compatible name = []) :
    ∀ rune ∈ runes (toLower name), rune.isAlphanum = false := by
  have nothing : (keptRunes name).take 63 = [] := by rw [← runes_label, isEmpty, runes_nil]
  rw [take_eq_nil_iff, or_iff_right (by decide), keptRunes] at nothing
  intro rune member
  have other : isLetterOrDigit rune = false := by
    by_contra isOne
    rw [Bool.not_eq_false] at isOne
    have dropped := dropWhile_eq_nil_iff.mp nothing rune
      (mem_filter.mpr ⟨member, by rw [isOne, Bool.or_true]⟩)
    rw [isOne] at dropped
    cases dropped
  rw [runes_toLower] at member
  obtain ⟨source, -, rfl⟩ := mem_map.mp member
  rw [isLetterOrDigit, Bool.or_eq_false_iff] at other
  change ((lower source).isUpper || (lower source).isLower || (lower source).isDigit) = false
  rw [not_isUpper_lower, other.1, other.2]
  rfl

end GitlabRunner.MachineNames
