import Script.Number.Binary64

/-! The fewest decimal digits that stand for a double, chosen by exact integer
arithmetic, and the double that a decimal stands for. -/

namespace Script

/-- The number `digits` · 10 ^ `exponent`. -/
structure Decimal where
  digits : Nat
  exponent : Int
  deriving Repr, DecidableEq

namespace Decimal

/-- Which of two equally near decimals is taken: the upper one, or the one with an even last
digit. -/
inductive Tie where
  | up
  | toEven
  deriving Repr, DecidableEq

/-- The reals that round to a double, as `lower`, `value` and `upper` over one
denominator; the ends belong to it when `closed`. -/
structure Interval where
  lower : Nat
  value : Nat
  upper : Nat
  denominator : Nat
  closed : Bool
  deriving Repr, DecidableEq

/-- Half a unit in the last place on either side, and a quarter below a power of
two, where the doubles beneath lie twice as close. -/
def Interval.around (significand : Nat) (exponent : Int) : Interval :=
  let scaleUp := Nat.pow 2 (exponent - 2).toNat
  let below := if significand = Nat.pow 2 52 ∧ exponent ≠ -1074 then 1 else 2
  { lower := (4 * significand - below) * scaleUp
    value := 4 * significand * scaleUp
    upper := (4 * significand + 2) * scaleUp
    denominator := Nat.pow 2 (2 - exponent).toNat
    closed := significand % 2 == 0 }

/-- The interval measured in steps of 10 ^ `exponent`. -/
def Interval.inSteps (interval : Interval) (exponent : Int) : Interval :=
  let finer := Nat.pow 10 (-exponent).toNat
  { interval with
    lower := interval.lower * finer
    value := interval.value * finer
    upper := interval.upper * finer
    denominator := interval.denominator * Nat.pow 10 exponent.toNat }

/-- Whether the whole number `point` lies in the interval. -/
def Interval.holds (interval : Interval) (point : Nat) : Bool :=
  let scaled := point * interval.denominator
  if interval.closed then interval.lower ≤ scaled && scaled ≤ interval.upper
  else interval.lower < scaled && scaled < interval.upper

/-- Of two neighbours of the value, the one that is nearer. -/
def Interval.nearer (interval : Interval) (tie : Tie) (below : Nat) : Nat :=
  let under := interval.value - below * interval.denominator
  let beyond := (below + 1) * interval.denominator - interval.value
  if under < beyond then below
  else if beyond < under then below + 1
  else
    match tie with
    | .up => below + 1
    | .toEven => if below % 2 = 0 then below else below + 1

/-- The whole number of the interval that is nearest to its value, if it holds one:
no other than the two next to the value can be. -/
def Interval.nearest? (interval : Interval) (tie : Tie) : Option Nat :=
  let below := interval.value / interval.denominator
  match interval.holds below, interval.holds (below + 1) with
  | true, true => some (interval.nearer tie below)
  | true, false => some below
  | false, true => some (below + 1)
  | false, false => none

/-- The first hit on ever finer decimal grids, starting at 10 ^ `exponent`. -/
def Interval.coarsest (interval : Interval) (tie : Tie) : (tries : Nat) → Int → Decimal
  | 0, exponent =>
    let steps := interval.inSteps exponent
    ⟨steps.value / steps.denominator, exponent⟩
  | tries + 1, exponent =>
    match (interval.inSteps exponent).nearest? tie with
    | some (digits + 1) => ⟨digits + 1, exponent⟩
    | _ => interval.coarsest tie tries (exponent - 1)

/-- An exponent of ten at or just above `significand` · 2 ^ `exponent`, from
log₁₀ 2 ≈ 0.30103. -/
def ceilingExponent (significand : Nat) (exponent : Int) : Int :=
  (exponent + significand.log2 + 1) * 30103 / 100000 + 1

/-- The decimal of fewest digits among those that round to `significand` · 2 ^ `exponent`,
and of these the nearest. Seventeen digits always suffice. -/
def shortest (tie : Tie) (significand : Nat) (exponent : Int) : Decimal :=
  if significand = 0 then ⟨0, 0⟩
  else
    (Interval.around significand exponent).coarsest tie 20 (ceilingExponent significand exponent)

/-- The double nearest to a decimal. -/
def toFloat (decimal : Decimal) : Float :=
  match decimal.exponent with
  | .ofNat up => Float.ofScientific decimal.digits false up
  | .negSucc down => Float.ofScientific decimal.digits true (down + 1)

end Decimal
end Script
