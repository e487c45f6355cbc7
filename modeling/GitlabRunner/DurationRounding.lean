import Mathlib.Algebra.Ring.Int.Defs
import Mathlib.Algebra.Ring.Nat

/-!
# Rounding durations

`roundDuration` of `common/time.go` rounds a duration to a multiple of another one, and looks
for an overflow only after the wrapped sum was made.
-/

namespace GitlabRunner.Durations

/-- `lessThanHalf`; the conversion to `uint64` keeps the bits. -/
def lessThanHalf (x y : Int64) : Bool :=
  x.toUInt64 + x.toUInt64 < y.toUInt64

def roundDuration (d m : Int64) : Int64 :=
  if m ≤ 0 then d
  else
    let r := d % m
    if d < 0 then
      let r := -r
      if lessThanHalf r m then d + r
      else
        let d1 := d - m + r
        if d1 < d then d1 else Int64.minValue
    else if lessThanHalf r m then d - r
    else
      let d1 := d + m - r
      if d1 > d then d1 else Int64.maxValue

/-- No multiple is nearer, and none that is as near is further away from zero. -/
structure Nearest (d m multiple : Int) : Prop where
  divides : m ∣ multiple
  near : ∀ other, m ∣ other → (d - multiple).natAbs ≤ (d - other).natAbs
  away : ∀ other, m ∣ other → (d - other).natAbs = (d - multiple).natAbs →
    other.natAbs ≤ multiple.natAbs

/-- A number that does not fit into 64 bits becomes the last one on the side of `d`. -/
def saturate (d number : Int) : Int :=
  if -2 ^ 63 ≤ number ∧ number < 2 ^ 63 then number
  else if d < 0 then -2 ^ 63
  else 2 ^ 63 - 1

theorem multiples_apart {m first second : Int} (one : m ∣ first) (two : m ∣ second) :
    first = second ∨ m ≤ first - second ∨ m ≤ second - first := by
  rcases Int.lt_trichotomy first second with less | same | more
  · exact .inr (.inr (Int.le_of_dvd (by omega) (Int.dvd_sub two one)))
  · exact .inl same
  · exact .inr (.inl (Int.le_of_dvd (by omega) (Int.dvd_sub one two)))

/-- A multiple that is at most half of `m` away is the nearest one. -/
theorem nearest_iff {d m multiple : Int} (positive : 0 < m) (divides : m ∣ multiple)
    (half : 2 * (d - multiple).natAbs ≤ m)
    (tie : 2 * (d - multiple).natAbs = m → d.natAbs < multiple.natAbs) (other : Int) :
    Nearest d m other ↔ other = multiple := by
  have large := multiples_apart divides (Int.dvd_zero m)
  constructor
  · rintro ⟨divided, near, away⟩
    have near := near multiple divides
    have away := away multiple divides
    have apart := multiples_apart divided divides
    omega
  · rintro rfl
    refine ⟨divides, ?_, ?_⟩
    · intro other divided
      have apart := multiples_apart divided divides
      omega
    · intro other divided same
      have apart := multiples_apart divided divides
      omega

variable {d m : Int64}

theorem bmod_of_fits {number : Int} (low : -2 ^ 63 ≤ number) (high : number < 2 ^ 63) :
    number.bmod (2 ^ 64) = number :=
  Int.bmod_eq_of_le (by omega) (by omega)

theorem lessThanHalf_iff {x y : Int64} (nonneg : 0 ≤ x.toInt) (positive : 0 < y.toInt) :
    lessThanHalf x y = true ↔ 2 * x.toInt < y.toInt := by
  have value (z : Int64) (known : 0 ≤ z.toInt) : (z.toUInt64.toNat : Int) = z.toInt := by
    rw [Int64.toNat_toUInt64_of_le (Int64.le_iff_toInt_le.mpr known), Int64.toNatClampNeg]
    omega
  have first := value x nonneg
  have second := value y (by omega)
  have bound := x.toInt_lt
  rw [lessThanHalf, decide_eq_true_eq, UInt64.lt_iff_toNat_lt, UInt64.toNat_add]
  omega

/-- The remainder of a division has the sign of the dividend. -/
theorem tmod_bounds (number : Int) {divisor : Int} (positive : 0 < divisor) :
    (number.tmod divisor).natAbs < divisor ∧
      if number < 0 then number.tmod divisor ≤ 0 else 0 ≤ number.tmod divisor := by
  have below := Int.tmod_lt_of_pos number positive
  have above := Int.lt_tmod_of_pos number positive
  refine ⟨by omega, ?_⟩
  split
  · have sign := Int.tmod_nonneg divisor (by omega : 0 ≤ -number)
    rw [Int.neg_tmod] at sign
    omega
  · exact Int.tmod_nonneg divisor (by omega)

/-- The multiple below in size, or the next one if the remainder is half of `m` or more. -/
def rounded (d m : Int) : Int :=
  if 2 * (d.tmod m).natAbs < m then d - d.tmod m
  else if d < 0 then d - d.tmod m - m
  else d - d.tmod m + m

theorem toInt_roundDuration (positive : 0 < m.toInt) :
    (roundDuration d m).toInt = saturate d.toInt (rounded d.toInt m.toInt) := by
  have notZero : ¬ m ≤ 0 := by
    rw [Int64.le_iff_toInt_le, Int.not_le]
    exact positive
  have isNegative : d < 0 ↔ d.toInt < 0 := Int64.lt_iff_toInt_lt
  obtain ⟨small, sign⟩ := tmod_bounds d.toInt positive
  have rest := Int64.toInt_mod d m
  have low := d.le_toInt
  have high := d.toInt_lt
  have bound := m.toInt_lt
  unfold rounded saturate
  generalize d.toInt.tmod m.toInt = remainder at rest small sign ⊢
  rw [roundDuration, if_neg notZero]
  dsimp only
  by_cases negative : d.toInt < 0
  · rw [if_pos (isNegative.mpr negative)]
    simp only [if_pos negative] at sign ⊢
    have negated : (-(d % m)).toInt = -remainder := by
      rw [Int64.toInt_neg, rest, bmod_of_fits (by omega) (by omega)]
    have half := lessThanHalf_iff (by omega : 0 ≤ (-(d % m)).toInt) positive
    by_cases less : 2 * (-(d % m)).toInt < m.toInt
    · rw [if_pos (half.mpr less), Int64.toInt_add, negated, bmod_of_fits (by omega) (by omega)]
      omega
    · have next : (d - m + -(d % m)).toInt = (d.toInt - remainder - m.toInt).bmod (2 ^ 64) := by
        rw [Int64.toInt_add, Int64.toInt_sub, negated, Int.bmod_add_bmod]
        congr 1
        omega
      rw [if_neg (mt half.mp less)]
      simp only [apply_ite Int64.toInt, Int64.lt_iff_toInt_lt, next]
      have minimum : Int64.minValue.toInt = -2 ^ 63 := by decide
      by_cases fits : -2 ^ 63 ≤ d.toInt - remainder - m.toInt
      · rw [bmod_of_fits fits (by omega)]
        omega
      · rw [← Int.add_bmod_right, bmod_of_fits (by omega) (by omega)]
        omega
  · rw [if_neg (mt isNegative.mp negative)]
    simp only [if_neg negative] at sign ⊢
    have half := lessThanHalf_iff (by omega : 0 ≤ (d % m).toInt) positive
    by_cases less : 2 * (d % m).toInt < m.toInt
    · rw [if_pos (half.mpr less), Int64.toInt_sub, rest, bmod_of_fits (by omega) (by omega)]
      omega
    · have next : (d + m - d % m).toInt = (d.toInt - remainder + m.toInt).bmod (2 ^ 64) := by
        rw [Int64.toInt_sub, Int64.toInt_add, rest, Int.bmod_sub_bmod]
        congr 1
        omega
      rw [if_neg (mt half.mp less)]
      simp only [apply_ite Int64.toInt, gt_iff_lt, Int64.lt_iff_toInt_lt, next]
      have maximum : Int64.maxValue.toInt = 2 ^ 63 - 1 := by decide
      by_cases fits : d.toInt - remainder + m.toInt < 2 ^ 63
      · rw [bmod_of_fits (by omega) fits]
        omega
      · rw [← Int.sub_bmod_right, bmod_of_fits (by omega) (by omega)]
        omega

/-- `roundDuration` returns the nearest multiple, or the last duration on its side. -/
theorem roundDuration_nearest (d m : Int64) :
    (m.toInt ≤ 0 → roundDuration d m = d) ∧ (0 < m.toInt → ∃ nearest,
      (∀ multiple, Nearest d.toInt m.toInt multiple ↔ multiple = nearest) ∧
        (roundDuration d m).toInt = saturate d.toInt nearest) := by
  constructor
  · intro notPositive
    rw [roundDuration, if_pos]
    exact Int64.le_iff_toInt_le.mpr notPositive
  · intro positive
    obtain ⟨small, sign⟩ := tmod_bounds d.toInt positive
    have divides := Int.dvd_self_sub_of_tmod_eq (rfl : d.toInt.tmod m.toInt = _)
    refine ⟨_, ?_, toInt_roundDuration positive⟩
    unfold rounded
    split
    · exact nearest_iff positive divides (by omega) (by omega)
    · split at sign
      · rw [if_pos ‹_›]
        exact nearest_iff positive (Int.dvd_sub divides (Int.dvd_refl _)) (by omega) (by omega)
      · rw [if_neg ‹_›]
        exact nearest_iff positive (Int.dvd_add divides (Int.dvd_refl _)) (by omega) (by omega)

end GitlabRunner.Durations
