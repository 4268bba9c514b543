import Mathlib.Algebra.Order.Field.Power
import Script.Number.Decimal
import Script.Proofs.Number.Truncation

/-! The numbers that round to a double. The decimal of fewest digits is one of them, and no number
rounds to two doubles. -/

namespace Script
namespace Decimal

/-- The number that a decimal stands for. -/
def rational (decimal : Decimal) : ℚ := decimal.digits * 10 ^ decimal.exponent

namespace Interval

/-- A number lies in the interval. -/
def Within (interval : Interval) (number : ℚ) : Prop :=
  if interval.closed then
    (interval.lower : ℚ) / interval.denominator ≤ number ∧
      number ≤ interval.upper / interval.denominator
  else
    (interval.lower : ℚ) / interval.denominator < number ∧
      number < interval.upper / interval.denominator

/-- An integer power as a quotient of natural ones. -/
theorem zpow_eq_div {base : ℚ} (nonzero : base ≠ 0) (exponent : Int) :
    base ^ exponent = base ^ exponent.toNat / base ^ (-exponent).toNat := by
  rw [← zpow_natCast_sub_natCast₀ nonzero, Int.toNat_sub_toNat_neg]

variable {interval : Interval} {number : ℚ} {exponent : Int} {digits : Nat} {tie : Tie}

/-- A step of 10 ^ `exponent` is held if the decimal lies in the interval. -/
theorem holds_inSteps (positive : 0 < interval.denominator) :
    (interval.inSteps exponent).holds digits = true ↔
      interval.Within (Decimal.mk digits exponent).rational := by
  have denominator : (0 : ℚ) < interval.denominator := by exact_mod_cast positive
  have finer : (0 : ℚ) < 10 ^ (-exponent).toNat := by positivity
  have point : (Decimal.mk digits exponent).rational =
      (digits * 10 ^ exponent.toNat : ℚ) / 10 ^ (-exponent).toNat := by
    rw [rational, zpow_eq_div (by norm_num), mul_div_assoc]
  have scaled : ((digits * (interval.denominator * 10 ^ exponent.toNat) : Nat) : ℚ) =
      digits * 10 ^ exponent.toNat * interval.denominator := by
    push_cast
    ring
  have ends (bound : Nat) :
      ((bound * 10 ^ (-exponent).toNat : Nat) : ℚ) = bound * 10 ^ (-exponent).toNat := by
    push_cast
    ring
  rw [point]
  unfold holds Within inSteps
  dsimp only [Nat.pow_eq]
  split
  · rw [div_le_div_iff₀ denominator finer, div_le_div_iff₀ finer denominator, ← scaled, ← ends,
      ← ends, Nat.cast_le, Nat.cast_le, Bool.and_eq_true, decide_eq_true_iff, decide_eq_true_iff]
  · rw [div_lt_div_iff₀ denominator finer, div_lt_div_iff₀ finer denominator, ← scaled, ← ends,
      ← ends, Nat.cast_lt, Nat.cast_lt, Bool.and_eq_true, decide_eq_true_iff, decide_eq_true_iff]

/-- Of two neighbours one is taken. -/
theorem nearer_cases (interval : Interval) (tie : Tie) (below : Nat) :
    interval.nearer tie below = below ∨ interval.nearer tie below = below + 1 := by
  unfold nearer
  dsimp only
  repeat' split
  all_goals simp

/-- What is chosen is held. -/
theorem holds_nearest? (found : interval.nearest? tie = some digits) :
    interval.holds digits = true := by
  unfold nearest? at found
  dsimp only at found
  split at found
  · rename_i below above
    cases found
    rcases interval.nearer_cases tie (interval.value / interval.denominator) with same | same
    · rw [same]
      exact below
    · rw [same]
      exact above
  · rename_i below above
    cases found
    exact below
  · rename_i below above
    cases found
    exact above
  · cases found

/-- If the neighbour below is held, then that one or a greater one is chosen. -/
theorem exists_nearest? (below : interval.holds (interval.value / interval.denominator) = true) :
    ∃ digits, interval.value / interval.denominator ≤ digits ∧
      interval.nearest? tie = some digits := by
  unfold nearest?
  dsimp only
  rw [below]
  cases interval.holds (interval.value / interval.denominator + 1) with
  | true =>
    refine ⟨_, ?_, rfl⟩
    rcases interval.nearer_cases tie (interval.value / interval.denominator) with same | same
    · exact same.ge
    · omega
  | false => exact ⟨_, le_refl _, rfl⟩

theorem within_of_between (above : (interval.lower : ℚ) / interval.denominator < number)
    (below : number < interval.upper / interval.denominator) : interval.Within number := by
  unfold Within
  split
  · exact ⟨above.le, below.le⟩
  · exact ⟨above, below⟩

/-- The value lies above its end of the interval by more than a step of 10 ^ `exponent`. -/
def Fine (interval : Interval) (exponent : Int) : Prop :=
  (interval.lower : ℚ) / interval.denominator + 10 ^ exponent ≤
    interval.value / interval.denominator

/-- The value in steps lies between its neighbours. -/
theorem value_between (positive : 0 < interval.denominator) (exponent : Int) :
    let below := (interval.inSteps exponent).value / (interval.inSteps exponent).denominator
    (Decimal.mk below exponent).rational ≤ interval.value / interval.denominator ∧
      interval.value / interval.denominator <
        (Decimal.mk below exponent).rational + 10 ^ exponent := by
  intro below
  have power : (0 : ℚ) < 10 ^ exponent := by positivity
  have steps : 0 < (interval.inSteps exponent).denominator :=
    Nat.mul_pos positive (Nat.pow_pos (by decide))
  have scale : (interval.value : ℚ) / interval.denominator =
      (interval.inSteps exponent).value / (interval.inSteps exponent).denominator *
        10 ^ exponent := by
    rw [zpow_eq_div (by norm_num)]
    unfold inSteps
    dsimp only [Nat.pow_eq]
    push_cast
    field_simp
  have lower : below * (interval.inSteps exponent).denominator ≤
      (interval.inSteps exponent).value := Nat.div_mul_le_self _ _
  have upper : (interval.inSteps exponent).value <
      (below + 1) * (interval.inSteps exponent).denominator :=
    Nat.lt_mul_of_div_lt (Nat.lt_succ_self below) steps
  have steps' : (0 : ℚ) < (interval.inSteps exponent).denominator := by exact_mod_cast steps
  rw [scale, rational]
  constructor
  · refine mul_le_mul_of_nonneg_right ?_ power.le
    rw [le_div_iff₀ steps']
    exact_mod_cast lower
  · rw [← add_one_mul]
    refine mul_lt_mul_of_pos_right ?_ power
    rw [div_lt_iff₀ steps']
    exact_mod_cast upper

/-- A grid that is fine enough has a hit. -/
theorem Fine.exists_nearest? (fine : interval.Fine exponent) (positive : 0 < interval.denominator)
    (above : interval.value < interval.upper) (tie : Tie) :
    ∃ digits, (interval.inSteps exponent).nearest? tie = some (digits + 1) := by
  obtain ⟨floor, ceiling⟩ := value_between positive exponent
  generalize same : (interval.inSteps exponent).value / (interval.inSteps exponent).denominator =
    below at floor ceiling
  have denominator : (0 : ℚ) < interval.denominator := by exact_mod_cast positive
  have upper : (interval.value : ℚ) / interval.denominator <
      interval.upper / interval.denominator :=
    div_lt_div_of_pos_right (by exact_mod_cast above) denominator
  have lower : (interval.lower : ℚ) / interval.denominator <
      (Decimal.mk below exponent).rational := by
    unfold Fine at fine
    linarith
  have held : (interval.inSteps exponent).holds below = true :=
    (holds_inSteps positive).mpr (within_of_between lower (floor.trans_lt upper))
  obtain ⟨digits, least, found⟩ := @Interval.exists_nearest? _ tie (same ▸ held)
  have nonzero : below ≠ 0 := by
    rintro rfl
    have nonneg : (0 : ℚ) ≤ interval.lower / interval.denominator := by positivity
    simp only [rational, Nat.cast_zero, zero_mul] at lower
    linarith
  obtain ⟨less, rfl⟩ := Nat.exists_eq_add_one_of_ne_zero (by omega : digits ≠ 0)
  exact ⟨less, found⟩

/-- The first hit lies in the interval, if the last grid that is tried is fine enough. -/
theorem coarsest_within (positive : 0 < interval.denominator)
    (above : interval.value < interval.upper) {tries : Nat}
    (fine : interval.Fine (exponent - tries)) :
    interval.Within (interval.coarsest tie (tries + 1) exponent).rational := by
  induction tries generalizing exponent with
  | zero =>
    rw [Nat.cast_zero, sub_zero] at fine
    obtain ⟨digits, found⟩ := fine.exists_nearest? positive above tie
    rw [coarsest, found]
    exact (holds_inSteps positive).mp (holds_nearest? found)
  | succ tries ih =>
    rw [coarsest]
    split
    · rename_i digits found
      exact (holds_inSteps positive).mp (holds_nearest? found)
    · apply ih
      rw [sub_sub, add_comm 1]
      exact_mod_cast fine

/-- The ends of the interval around a double in quarters of its last place, one on the side of the
doubles that lie twice as close and two elsewhere. -/
def under (significand : Nat) (exponent : Int) : Nat :=
  if significand = Nat.pow 2 52 ∧ exponent ≠ -1074 then 1 else 2

variable {significand : Nat}

theorem around_denominator (significand : Nat) (exponent : Int) :
    0 < (around significand exponent).denominator := Nat.pow_pos (by decide)

theorem quarters_eq (count significand : Nat) (exponent : Int) :
    ((count * 2 ^ (exponent - 2).toNat : Nat) : ℚ) / (around significand exponent).denominator =
      count * 2 ^ (exponent - 2) := by
  rw [zpow_eq_div (by norm_num) (exponent - 2), neg_sub]
  unfold around
  dsimp only [Nat.pow_eq]
  push_cast
  rw [mul_div_assoc]

theorem around_within_iff : (around significand exponent).Within number ↔
    if significand % 2 = 0 then
      ((4 * significand - under significand exponent : Nat) : ℚ) * 2 ^ (exponent - 2) ≤ number ∧
        number ≤ (4 * significand + 2 : Nat) * 2 ^ (exponent - 2)
    else
      ((4 * significand - under significand exponent : Nat) : ℚ) * 2 ^ (exponent - 2) < number ∧
        number < (4 * significand + 2 : Nat) * 2 ^ (exponent - 2) := by
  rw [← quarters_eq _ significand, ← quarters_eq _ significand]
  unfold Within
  simp only [around, under, beq_iff_eq, Nat.pow_eq]

/-- The double itself. -/
theorem around_within_self (significand : Nat) (exponent : Int) :
    (around significand exponent).Within (significand * 2 ^ exponent) := by
  have quarter : (0 : ℚ) < 2 ^ (exponent - 2) := by positivity
  have value : (significand * 2 ^ exponent : ℚ) = (4 * significand : Nat) * 2 ^ (exponent - 2) := by
    rw [zpow_sub₀ (by norm_num)]
    push_cast
    ring
  have small : under significand exponent ≤ 2 := by
    unfold under
    split <;> decide
  have large : 0 < under significand exponent := by
    unfold under
    split <;> decide
  rw [around_within_iff, value]
  split
  · constructor <;> apply mul_le_mul_of_nonneg_right _ quarter.le
    · exact_mod_cast Nat.sub_le _ _
    · exact_mod_cast Nat.le_add_right _ _
  · rename_i odd
    constructor <;> apply mul_lt_mul_of_pos_right _ quarter
    · exact_mod_cast Nat.sub_lt (by omega) large
    · exact_mod_cast Nat.lt_add_of_pos_right (by decide)

theorem fine_around (present : significand ≠ 0) {finer : Int}
    (small : (10 : ℚ) ^ finer ≤ 2 ^ (exponent - 2)) : (around significand exponent).Fine finer := by
  have step : ((4 * significand - under significand exponent : Nat) : ℚ) + 1 ≤
      (4 * significand : Nat) := by
    have large : 0 < under significand exponent := by
      unfold under
      split <;> decide
    exact_mod_cast Nat.sub_lt (by omega) large
  have quarter : (0 : ℚ) ≤ 2 ^ (exponent - 2) := by positivity
  have scaled := mul_le_mul_of_nonneg_right step quarter
  rw [add_one_mul, ← quarters_eq _ significand, ← quarters_eq _ significand] at scaled
  have lower : (around significand exponent).lower =
      (4 * significand - under significand exponent) * 2 ^ (exponent - 2).toNat := rfl
  have value : (around significand exponent).value =
      4 * significand * 2 ^ (exponent - 2).toNat := rfl
  unfold Fine
  rw [lower, value]
  linarith

end Interval

/-- A power of ten is below a power of two if their `root`-th powers are. -/
theorem ten_pow_le_of_root {root twos : Nat} {power exponent : Int} (positive : root ≠ 0)
    (base : ((10 : ℚ) ^ root) ^ power ≤ (2 ^ twos) ^ power)
    (less : twos * power ≤ root * exponent) : (10 : ℚ) ^ power ≤ 2 ^ exponent := by
  have swap {number : ℚ} (count : Nat) (index : Int) :
      (number ^ count) ^ index = number ^ (count * index) := by
    rw [← zpow_natCast, ← zpow_mul]
  have outside {number : ℚ} (index : Int) : (number ^ index) ^ root = number ^ (root * index) := by
    rw [← zpow_natCast, ← zpow_mul, mul_comm]
  rw [← pow_le_pow_iff_left₀ (by positivity) (by positivity) positive, outside, outside]
  calc (10 : ℚ) ^ (root * power) = (10 ^ root) ^ power := (swap root power).symm
    _ ≤ (2 ^ twos) ^ power := base
    _ = 2 ^ (twos * power) := swap twos power
    _ ≤ 2 ^ (root * exponent) := zpow_le_zpow_right₀ (by norm_num) less

/-- Powers of ten below powers of two: 10 ^ 3 lies below 2 ^ 10, and 10 ^ 28 above 2 ^ 93. -/
theorem ten_pow_le {power exponent : Int} (upward : 0 ≤ power → 10 * power ≤ 3 * exponent)
    (downward : power < 0 → 93 * power ≤ 28 * exponent) : (10 : ℚ) ^ power ≤ 2 ^ exponent := by
  rcases le_or_gt 0 power with nonneg | negative
  · have base : ((10 : ℚ) ^ 3) ^ power ≤ (2 ^ 10) ^ power :=
      zpow_le_zpow_left₀ nonneg (by norm_num) (by norm_num)
    exact ten_pow_le_of_root (by decide) base (by exact_mod_cast upward nonneg)
  · have base : ((10 : ℚ) ^ 28) ^ power ≤ (2 ^ 93) ^ power := by
      obtain ⟨opposite, rfl⟩ := Int.exists_eq_neg_ofNat negative.le
      rw [zpow_neg, zpow_neg, zpow_natCast, zpow_natCast]
      exact inv_anti₀ (by positivity) (pow_le_pow_left₀ (by positivity) (by norm_num) _)
    exact ten_pow_le_of_root (by decide) base (by exact_mod_cast downward negative)

end Decimal

namespace Binary64

/-- The significands and exponents of doubles. -/
structure Canonical (significand : Nat) (exponent : Int) : Prop where
  short : significand < 2 ^ 53
  least : -1074 ≤ exponent
  most : exponent ≤ 971
  full : exponent ≠ -1074 → 2 ^ 52 ≤ significand

theorem canonical_of_ofBits {bits : Nat} {negative : Bool} {significand : Nat} {exponent : Int}
    (found : ofBits bits = .finite negative significand exponent) :
    Canonical significand exponent := by
  have fraction : bits % Nat.pow 2 52 < 2 ^ 52 := Nat.mod_lt _ (by decide)
  have biased : bits / Nat.pow 2 52 % Nat.pow 2 11 < 2 ^ 11 := Nat.mod_lt _ (by decide)
  unfold ofBits at found
  dsimp only at found
  generalize bits % Nat.pow 2 52 = fraction, bits / Nat.pow 2 52 % Nat.pow 2 11 = biased at *
  norm_num at fraction biased found
  split at found
  · split at found <;> cases found
  · split at found
    · cases found
      exact ⟨by omega, by omega, by omega, by omega⟩
    · cases found
      exact ⟨by omega, by omega, by omega, by omega⟩

/-- The bit pattern of a finite double. -/
def bits (negative : Bool) (significand : Nat) (exponent : Int) : Nat :=
  (if negative then 2 ^ 63 else 0) +
    (if significand < 2 ^ 52 then 0 else (exponent + 1075).toNat * 2 ^ 52) + significand % 2 ^ 52

theorem bits_of_ofBits {pattern : Nat} {negative : Bool} {significand : Nat} {exponent : Int}
    (small : pattern < 2 ^ 64) (found : ofBits pattern = .finite negative significand exponent) :
    pattern = bits negative significand exponent := by
  have fraction : pattern % 2 ^ 52 < 2 ^ 52 := Nat.mod_lt _ (by decide)
  unfold ofBits at found
  unfold bits
  simp only [Nat.pow_eq] at found
  split at found
  · split at found <;> cases found
  · split at found
    · cases found
      simp only [decide_eq_true_iff, if_pos fraction]
      split <;> omega
    · cases found
      have full : ¬2 ^ 52 + pattern % 2 ^ 52 < 2 ^ 52 := by omega
      simp only [decide_eq_true_iff, if_neg full]
      split <;> omega

/-- A finite double is known by its sign, its significand and its exponent. -/
theorem ofFloat_injective {number other : Float} {negative : Bool} {significand : Nat}
    {exponent : Int} (found : ofFloat number = .finite negative significand exponent)
    (found' : ofFloat other = .finite negative significand exponent) : number = other := by
  have same := (bits_of_ofBits number.toBits.toNat_lt found).trans
    (bits_of_ofBits other.toBits.toNat_lt found').symm
  obtain ⟨pattern, valid⟩ := number
  obtain ⟨pattern', valid'⟩ := other
  cases UInt64.toNat_inj.mp same
  rfl

variable {significand other : Nat} {exponent power : Int} {number : ℚ}

open Decimal (shortest ceilingExponent Tie)
open Decimal.Interval (around under)

/-- Twenty tries reach a grid that is fine enough. -/
theorem Canonical.fine_last (canonical : Canonical significand exponent)
    (present : significand ≠ 0) :
    (around significand exponent).Fine (ceilingExponent significand exponent - (19 : Nat)) := by
  have short : significand.log2 < 53 := (Nat.log2_lt present).mpr canonical.short
  have least := canonical.least
  have most := canonical.most
  apply Decimal.Interval.fine_around present
  unfold ceilingExponent
  exact Decimal.ten_pow_le (by omega) (by omega)

/-- The decimal of fewest digits rounds to the double. -/
theorem Canonical.shortest_within (canonical : Canonical significand exponent)
    (present : significand ≠ 0) (tie : Tie) :
    (around significand exponent).Within (shortest tie significand exponent).rational := by
  rw [shortest, if_neg present]
  apply Decimal.Interval.coarsest_within (Decimal.Interval.around_denominator _ _) _
    (canonical.fine_last present)
  exact Nat.mul_lt_mul_of_pos_right (Nat.lt_add_of_pos_right (by decide)) (Nat.pow_pos (by decide))

/-- In quarters of the last place of the smaller double its interval ends before that of the greater
one begins, or where it begins if one of the two is odd. -/
theorem Canonical.quarters_apart (first : Canonical significand exponent)
    (second : Canonical other power)
    (greater : exponent < power ∨ exponent = power ∧ significand < other) :
    4 * significand + 2 ≤ (4 * other - under other power) * 2 ^ (power - exponent).toNat ∧
      (significand % 2 = 0 → other % 2 = 0 →
        4 * significand + 2 < (4 * other - under other power) * 2 ^ (power - exponent).toNat) := by
  have ends : under other power = 1 ∨
      under other power = 2 ∧ (other ≠ 2 ^ 52 ∨ power = -1074) := by
    unfold under
    rw [Nat.pow_eq]
    split
    · left
      rfl
    · right
      exact ⟨rfl, by omega⟩
  rcases greater with higher | ⟨rfl, more⟩
  · have short := first.short
    have full := second.full (by have := first.least; omega)
    have last : 2 ^ 54 - 1 ≤ 4 * other - under other power := by
      have := first.least
      omega
    have twice : 2 ≤ 2 ^ (power - exponent).toNat := by
      calc 2 = 2 ^ 1 := rfl
        _ ≤ 2 ^ (power - exponent).toNat := Nat.pow_le_pow_right (by decide) (by omega)
    have product := Nat.mul_le_mul last twice
    omega
  · rw [sub_self, Int.toNat_zero, pow_zero, mul_one]
    omega

/-- A number that rounds to a double rounds to no greater one. -/
theorem Canonical.apart (first : Canonical significand exponent) (second : Canonical other power)
    (greater : exponent < power ∨ exponent = power ∧ significand < other)
    (near : (around significand exponent).Within number) :
    ¬(around other power).Within number := by
  intro near'
  obtain ⟨touching, separate⟩ := first.quarters_apart second greater
  have quarter : (0 : ℚ) < 2 ^ (exponent - 2) := by positivity
  have scale : ((4 * other - under other power : Nat) : ℚ) * 2 ^ (power - 2) =
      ((4 * other - under other power) * 2 ^ (power - exponent).toNat : Nat) *
        2 ^ (exponent - 2) := by
    push_cast
    rw [mul_assoc, ← zpow_natCast, ← zpow_add₀ (by norm_num)]
    congr 2
    omega
  rw [Decimal.Interval.around_within_iff] at near near'
  rw [scale] at near'
  generalize (4 * other - under other power) * 2 ^ (power - exponent).toNat = start at *
  have upTo : ((4 * significand + 2 : Nat) : ℚ) * 2 ^ (exponent - 2) ≤
      start * 2 ^ (exponent - 2) :=
    mul_le_mul_of_nonneg_right (by exact_mod_cast touching) quarter.le
  split at near <;> split at near'
  · rename_i even even'
    have below : ((4 * significand + 2 : Nat) : ℚ) * 2 ^ (exponent - 2) <
        start * 2 ^ (exponent - 2) :=
      mul_lt_mul_of_pos_right (by exact_mod_cast separate even even') quarter
    linarith [near.2, near'.1]
  all_goals linarith [near.2, near'.1]

/-- No number rounds to two doubles. -/
theorem Canonical.unique (first : Canonical significand exponent) (second : Canonical other power)
    (near : (around significand exponent).Within number)
    (near' : (around other power).Within number) : significand = other ∧ exponent = power := by
  by_contra different
  have order : (exponent < power ∨ exponent = power ∧ significand < other) ∨
      power < exponent ∨ power = exponent ∧ other < significand := by omega
  rcases order with less | greater
  · exact first.apart second less near near'
  · exact second.apart first greater near' near

end Binary64
end Script
