import Script.Text.Utf8
import Script.Token.Numeral

/-! The scanner as a cursor over the bytes of its text. Each call reads one item from where the
last one stopped. A slice of the text that would split a character is no text, so a call that
takes one gives no answer. -/

namespace Script.Scan

/-- The text between two byte positions, none if either of them stands inside a character. -/
def slice? (text : String) (start stop : Nat) : Option String :=
  if bounds : start ≤ stop ∧ String.Pos.Raw.IsValid text ⟨start⟩ ∧
      String.Pos.Raw.IsValid text ⟨stop⟩ then
    some (text.extract (text.pos ⟨start⟩ bounds.2.1) (text.pos ⟨stop⟩ bounds.2.2))
  else none

/-- The byte so many places ahead, zero behind the end. -/
def look (bytes : List UInt8) (ahead : Nat) : Char := Char.ofUInt8 (bytes.getD ahead 0)

/-- The bytes at the head of a text whose characters are kept. -/
def run (keep : Char → Bool) (bytes : List UInt8) : List UInt8 :=
  bytes.takeWhile fun byte => keep (Char.ofUInt8 byte)

/-- The next unread byte and the line it stands on. -/
structure Cursor where
  position : Nat
  line : Nat
  finished : Bool

namespace Cursor

def start : Cursor := ⟨0, 1, false⟩

/-- The position and the line behind blanks, line ends and comments. -/
def skip (position line : Nat) : List UInt8 → Nat × Nat
  | [] => (position, line)
  | byte :: rest =>
    if isBlank (Char.ofUInt8 byte) then skip (position + 1) line rest
    else if Char.ofUInt8 byte = '\n' then skip (position + 1) (line + 1) rest
    else if Char.ofUInt8 byte = '/' ∧ look rest 0 = '/' then
      let comment := run (· != '\n') rest
      skip (position + 1 + comment.length) line (rest.drop comment.length)
    else (position, line)
  termination_by bytes => bytes.length
  decreasing_by all_goals simp only [List.length_cons, List.length_drop]; omega

/-- What was read from a position on, where it stops, and the lines that end inside it. -/
structure Reading where
  found : Except LexCause Kind
  stop : Nat
  lines : Nat

variable (text : String)

/-- The bytes from a position on. -/
def bytesFrom (position : Nat) : List UInt8 := (Utf8.encode text).drop position

/-- The quote stands at `start`. -/
def readString? (start : Nat) : Option Reading :=
  let body := run (· != '"') (bytesFrom text (start + 1))
  let stop := start + 1 + body.length
  let lines := body.count '\n'.toUInt8
  if (Utf8.encode text).length ≤ stop then some ⟨.error .unterminatedString, stop, lines⟩
  else (slice? text (start + 1) stop).map fun body => ⟨.ok (.string body), stop + 1, lines⟩

/-- A lexeme that spells no number would count as zero. -/
def readNumber? (start : Nat) : Option Reading :=
  let whole := start + (run isDigit (bytesFrom text start)).length
  let stop :=
    if look (bytesFrom text whole) 0 = '.' ∧ isDigit (look (bytesFrom text whole) 1) then
      whole + 1 + (run isDigit (bytesFrom text (whole + 1))).length
    else whole
  (slice? text start stop).map fun lexeme =>
    ⟨.ok (.number ((Numeral.value? lexeme.toList).getD 0)), stop, 0⟩

def readWord? (start : Nat) : Option Reading :=
  let stop := start + (run continuesWord (bytesFrom text start)).length
  (slice? text start stop).map fun lexeme => ⟨.ok (.plain (wordTag lexeme)), stop, 0⟩

/-- A character that begins no lexeme is stepped over with all its bytes. -/
def readUnexpected? (start : Nat) (first : UInt8) : Option Reading :=
  (slice? text start (Utf8.encode text).length).map fun rest =>
    let char := rest.toList.head?.getD (Char.ofUInt8 first)
    ⟨.error (.unexpected char), start + char.utf8Size, 0⟩

/-- The item whose first byte stands at `start`. -/
def read? (start : Nat) (first : UInt8) : Option Reading :=
  match mark? (Char.ofUInt8 first), equalsPair? (Char.ofUInt8 first) with
  | some tag, _ => some ⟨.ok (.plain tag), start + 1, 0⟩
  | none, some (single, double) =>
    if look (bytesFrom text (start + 1)) 0 = '=' then some ⟨.ok (.plain double), start + 2, 0⟩
    else some ⟨.ok (.plain single), start + 1, 0⟩
  | none, none =>
    if Char.ofUInt8 first = '"' then readString? text start
    else if isDigit (Char.ofUInt8 first) then readNumber? text start
    else if beginsWord (Char.ofUInt8 first) then readWord? text start
    else readUnexpected? text start first

/-- One call: the next item, or nothing once the end of the text has been given. -/
def next? (cursor : Cursor) : Option (Option (Except LexError Token) × Cursor) :=
  if cursor.finished then some (none, cursor)
  else
    let (start, line) := skip cursor.position cursor.line (bytesFrom text cursor.position)
    match bytesFrom text start with
    | [] => some (some (.ok ⟨.plain .endOfText, "", line⟩), ⟨start, line, true⟩)
    | first :: _ => do
      let reading ← read? text start first
      let line := line + reading.lines
      match reading.found with
      | .error cause => some (some (.error ⟨cause, line⟩), ⟨reading.stop, line, false⟩)
      | .ok kind =>
        let lexeme ← slice? text start reading.stop
        some (some (.ok ⟨kind, lexeme, line⟩), ⟨reading.stop, line, false⟩)

/-- The answers of so many calls in a row. -/
def calls? : (count : Nat) → Cursor → Option (List (Option (Except LexError Token)))
  | 0, _ => some []
  | count + 1, cursor => do
    let (answer, cursor) ← next? text cursor
    let answers ← calls? count cursor
    some (answer :: answers)

end Cursor
end Script.Scan
