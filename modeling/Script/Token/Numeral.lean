import Script.Token.Scan

/-! Numerals as a number reader takes them: a sign, digits with an optional point and exponent,
or the name of an infinity or of no number. -/

namespace Script
namespace Numeral

open Scan (isDigit digitsValue)

/-- The power of ten written behind the digits of a numeral. -/
def exponent? : List Char → Option Int
  | [] => some 0
  | mark :: written =>
    if mark = 'e' ∨ mark = 'E' then
      let (sign, digits) : Int × List Char := match written with
        | '-' :: digits => (-1, digits)
        | '+' :: digits => (1, digits)
        | digits => (1, digits)
      if digits ≠ [] ∧ digits.all isDigit then some (sign * digitsValue digits) else none
    else none

/-- Digits on at least one side of an optional point, and an optional exponent. -/
def decimal? (text : List Char) : Option Decimal :=
  let whole := text.takeWhile isDigit
  let (fraction, behind) := match text.dropWhile isDigit with
    | '.' :: rest => (rest.takeWhile isDigit, rest.dropWhile isDigit)
    | rest => ([], rest)
  if whole ++ fraction = [] then none
  else (exponent? behind).map fun exponent =>
    ⟨digitsValue (whole ++ fraction), exponent - fraction.length⟩

/-- A numeral without its sign; names are read in either case. -/
def magnitude? (text : List Char) : Option Float :=
  let name := String.ofList (text.map Char.toLower)
  if name = "inf" ∨ name = "infinity" then some (1 / 0)
  else if name = "nan" then some (0 / 0)
  else (decimal? text).map Decimal.toFloat

/-- The double nearest to what a text spells, none if it spells no number. -/
def value? : List Char → Option Float
  | '-' :: text => (magnitude? text).map (- ·)
  | '+' :: text => magnitude? text
  | text => magnitude? text

end Numeral
end Script
