import Script.Number.Decimal

/-! How numbers are laid out as text: positional and scientific notation, and the
few choices in which the texts of one number differ. -/

namespace Script

def zeros (count : Nat) : String := String.ofList (List.replicate count '0')

namespace Decimal

/-- All digits and no exponent, with a point only where there is a fraction. -/
def positional (decimal : Decimal) : String :=
  let text := toString decimal.digits
  match decimal.exponent with
  | .ofNat trailing => text ++ zeros trailing
  | .negSucc below =>
    let places := below + 1
    if places < text.length then
      let whole := text.length - places
      String.ofList (text.toList.take whole) ++ "." ++ String.ofList (text.toList.drop whole)
    else "0." ++ zeros (places - text.length) ++ text

/-- One digit before the point, and the power of ten with its sign. -/
def scientific (decimal : Decimal) : String :=
  let text := toString decimal.digits
  let power := decimal.exponent + (text.length - 1 : Nat)
  let fraction := text.toList.drop 1
  String.ofList (text.toList.take 1)
    ++ (if fraction.isEmpty then "" else "." ++ String.ofList fraction)
    ++ "e" ++ (if power < 0 then "-" else "+") ++ toString power.natAbs

end Decimal

/-- What one way of writing numbers decides. -/
structure NumberStyle where
  /-- The text of positive infinity; the negative one has a minus sign before it. -/
  infinity : String
  /-- What follows the digits of a number without a fraction. -/
  wholeSuffix : String
  /-- From this number on, whole numbers are written like all others. -/
  wholeLimit : Option Nat
  /-- Whether a negative zero shows its sign. -/
  signedZero : Bool

/-- Whole numbers show all their digits; any other number shows the fewest digits that
read back to it, without an exponent, and of two equally near decimals the upper one. -/
def NumberStyle.write (style : NumberStyle) (number : Float) : String :=
  match Binary64.ofFloat number with
  | .notANumber => "NaN"
  | .infinite negative => (if negative then "-" else "") ++ style.infinity
  | .finite negative significand exponent =>
    let whole := Binary64.integerPart significand exponent
    let sign := if negative && (style.signedZero || significand != 0) then "-" else ""
    if Binary64.isWhole significand exponent && style.wholeLimit.all (whole < ·) then
      sign ++ toString whole ++ style.wholeSuffix
    else sign ++ (Decimal.shortest .up significand exponent).positional

end Script
