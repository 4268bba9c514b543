import Script.Unicode.DefaultIgnorable
import Script.Unicode.GraphemeExtend
import Script.Unicode.Printable

/-! Text between double quotes on one line: what ends it, what does not show and what would join
its neighbour is escaped. -/

namespace Script.Quoted

/-- A character by its number. -/
def numbered (char : Char) : String :=
  "\\u\x7b" ++ String.ofList (Nat.toDigits 16 char.toNat) ++ "\x7d"

/-- Whether a character shows, and on its own. -/
def stands (char : Char) : Bool :=
  Unicode.isPrintable char && !Unicode.isIgnorable char && !Unicode.extendsGrapheme char

/-- How a character is written between the quotes. -/
def escape : Char → String
  | '"' => "\\\""
  | '\\' => "\\\\"
  | '\n' => "\\n"
  | '\r' => "\\r"
  | '\t' => "\\t"
  | '\x00' => "\\0"
  | char => if stands char then String.singleton char else numbered char

def encode (text : String) : String := "\"" ++ String.join (text.toList.map escape) ++ "\""

end Script.Quoted
