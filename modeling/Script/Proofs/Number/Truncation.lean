import Mathlib.Data.Rat.Floor
import Mathlib.Tactic.Linarith
import Script.Number.Binary64

/-! Doubles as rational numbers. A number names the place that it is cut off to, if there is such a
place. -/

namespace Script.Binary64

/-- The rational number that a finite double stands for. -/
def rational? : Binary64 → Option ℚ
  | .finite negative significand exponent =>
    let magnitude : ℚ := significand * 2 ^ exponent
    some (if negative then -magnitude else magnitude)
  | _ => none

/-- A number cut off toward zero. -/
def cutOff (number : ℚ) : ℤ := if number < 0 then ⌈number⌉ else ⌊number⌋

/-- The integer that a double is cut off to. -/
def truncated? (number : Binary64) : Option ℤ := number.rational?.map cutOff

theorem integerPart_eq_floor (significand : Nat) (exponent : Int) :
    (integerPart significand exponent : ℤ) = ⌊(significand * 2 ^ exponent : ℚ)⌋ := by
  cases exponent with
  | ofNat up =>
    have whole : (significand * 2 ^ Int.ofNat up : ℚ) = (significand * 2 ^ up : Nat) := by
      push_cast
      rw [Int.ofNat_eq_natCast, zpow_natCast]
    rw [whole, Int.floor_natCast]
    rfl
  | negSucc down =>
    have parted : (significand * 2 ^ Int.negSucc down : ℚ) =
        (significand : ℚ) / (2 ^ (down + 1) : Nat) := by
      push_cast
      rw [zpow_negSucc, div_eq_mul_inv]
    rw [parted, Rat.floor_natCast_div_natCast]
    rfl

theorem cutOff_of_nonneg {number : ℚ} (nonneg : 0 ≤ number) : cutOff number = ⌊number⌋ :=
  if_neg nonneg.not_gt

theorem cutOff_neg {number : ℚ} (nonneg : 0 ≤ number) : cutOff (-number) = -⌊number⌋ := by
  unfold cutOff
  split
  · exact Int.ceil_neg
  · rename_i large
    have zero : number = 0 := by linarith
    simp [zero]

theorem truncated?_finite (negative : Bool) (significand : Nat) (exponent : Int) :
    (finite negative significand exponent).truncated? =
      some (if negative then -(integerPart significand exponent : ℤ)
        else integerPart significand exponent) := by
  have nonneg : (0 : ℚ) ≤ significand * 2 ^ exponent :=
    mul_nonneg significand.cast_nonneg (zpow_nonneg zero_le_two exponent)
  rw [integerPart_eq_floor]
  cases negative with
  | false => exact congrArg some (cutOff_of_nonneg nonneg)
  | true => exact congrArg some (cutOff_neg nonneg)

/-- A number names the place that it is cut off to, in every sequence that is long enough. -/
theorem place?_eq_some_iff {number : Binary64} {length place : Nat} :
    number.place? length = some place ↔
      number.truncated? = some (place : ℤ) ∧ place < length := by
  cases number with
  | notANumber | infinite => simp [place?, truncated?, rational?]
  | finite negative significand exponent =>
    simp only [truncated?_finite, place?, Option.some_inj]
    generalize integerPart significand exponent = part
    cases negative with
    | false => grind
    | true => grind

end Script.Binary64
