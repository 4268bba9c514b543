import Script.Number.Notation

/-! JSON documents and their text, on one line or indented. -/

namespace Script

inductive Json where
  | null
  | text (value : String)
  | count (value : Nat)
  | number (value : Float)
  | list (items : List Json)
  | object (fields : List (String × Json))

namespace Json

/-- The powers of ten of the first digit for which a number is written without an exponent. -/
def positionalPowers : Int × Int := (-5, 15)

/-- Numbers show the fewest digits that read back to them, and always a fraction or an exponent;
of two equally near decimals the even one is taken. What is not finite has no JSON form. -/
def numberText (number : Float) : String :=
  match Binary64.ofFloat number with
  | .finite negative significand exponent =>
    let decimal := Decimal.shortest .toEven significand exponent
    let power := decimal.exponent + ((toString decimal.digits).length - 1 : Nat)
    let magnitude :=
      if positionalPowers.1 ≤ power && power ≤ positionalPowers.2 then
        decimal.positional ++ (if decimal.exponent < 0 then "" else ".0")
      else decimal.scientific
    (if negative then "-" else "") ++ magnitude
  | _ => "null"

def hexDigit (value : Nat) : Char := Char.ofNat (value + if value < 10 then 48 else 87)

/-- Quotes, backslashes and control characters are escaped, all else stands for itself. -/
def escape : Char → List Char
  | '"' => ['\\', '"']
  | '\\' => ['\\', '\\']
  | '\x08' => ['\\', 'b']
  | '\x0c' => ['\\', 'f']
  | '\n' => ['\\', 'n']
  | '\r' => ['\\', 'r']
  | '\t' => ['\\', 't']
  | char =>
    if char.toNat < 0x20 then
      ['\\', 'u', '0', '0', hexDigit (char.toNat / 16), hexDigit (char.toNat % 16)]
    else [char]

def quote (value : String) : String :=
  "\"" ++ String.ofList (value.toList.flatMap escape) ++ "\""

mutual

/-- The text without any blanks. -/
def compact : Json → String
  | .null => "null"
  | .text value => quote value
  | .count value => toString value
  | .number value => numberText value
  | .list items => "[" ++ ",".intercalate (compactItems items) ++ "]"
  | .object fields => "\x7b" ++ ",".intercalate (compactFields fields) ++ "\x7d"

def compactItems : List Json → List String
  | [] => []
  | item :: rest => item.compact :: compactItems rest

def compactFields : List (String × Json) → List String
  | [] => []
  | (key, value) :: rest => (quote key ++ ":" ++ value.compact) :: compactFields rest

end

/-- Lines between brackets, each indented two blanks more than the brackets; nothing at all
between them if there are no lines. -/
def enclose (opening closing indent : String) (lines : List String) : String :=
  if lines.isEmpty then opening ++ closing
  else opening ++ "\n" ++ ",\n".intercalate (lines.map (indent ++ "  " ++ ·)) ++ "\n" ++ indent
    ++ closing

mutual

/-- The text over several lines, the inner ones indented by two blanks for each level. -/
def prettyAt (indent : String) : Json → String
  | .null => "null"
  | .text value => quote value
  | .count value => toString value
  | .number value => numberText value
  | .list items => enclose "[" "]" indent (prettyItems (indent ++ "  ") items)
  | .object fields => enclose "\x7b" "\x7d" indent (prettyFields (indent ++ "  ") fields)

def prettyItems (indent : String) : List Json → List String
  | [] => []
  | item :: rest => item.prettyAt indent :: prettyItems indent rest

def prettyFields (indent : String) : List (String × Json) → List String
  | [] => []
  | (key, value) :: rest => (quote key ++ ": " ++ value.prettyAt indent) :: prettyFields indent rest

end

def pretty (document : Json) : String := document.prettyAt ""

/-- An object with one field, as which a variant with a payload is written. -/
def tagged (name : String) (payload : Json) : Json := .object [(name, payload)]

def optional : Option Json → Json
  | none => .null
  | some value => value

end Json
end Script
