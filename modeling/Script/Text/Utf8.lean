/-! UTF-8 read strictly, where the first fault is located by its byte position, and
leniently, where every fault reads as the replacement character. -/

namespace Script.Utf8

/-- Where a byte sequence stops being UTF-8: `length` bytes from `index` on can begin no
character, or the sequence ends inside one. -/
structure Fault where
  index : Nat
  length : Option Nat
  deriving Repr, DecidableEq

def Fault.message (fault : Fault) : String :=
  match fault.length with
  | some length => s!"invalid utf-8 sequence of {length} bytes from index {fault.index}"
  | none => s!"incomplete utf-8 byte sequence from index {fault.index}"

/-- For the first byte of a character: how many bytes follow it, and the range of the next one. -/
def following? (first : UInt8) : Option (Nat × UInt8 × UInt8) :=
  if first ≤ 0x7F then some (0, 0x80, 0xBF)
  else if 0xC2 ≤ first && first ≤ 0xDF then some (1, 0x80, 0xBF)
  else if first = 0xE0 then some (2, 0xA0, 0xBF)
  else if first = 0xED then some (2, 0x80, 0x9F)
  else if 0xE1 ≤ first && first ≤ 0xEF then some (2, 0x80, 0xBF)
  else if first = 0xF0 then some (3, 0x90, 0xBF)
  else if 0xF1 ≤ first && first ≤ 0xF3 then some (3, 0x80, 0xBF)
  else if first = 0xF4 then some (3, 0x80, 0x8F)
  else none

/-- The number of leading bytes of a list that continue a character of which `count` are due,
the next of them between `low` and `high`. -/
def continued : (count : Nat) → (low high : UInt8) → List UInt8 → Nat
  | count + 1, low, high, byte :: bytes =>
    if low ≤ byte && byte ≤ high then continued count 0x80 0xBF bytes + 1 else 0
  | _, _, _, _ => 0

/-- The scalar value that a first byte and its continuation bytes spell. -/
def scalar (first : UInt8) (more : List UInt8) : Char :=
  let lead := match more.length with
    | 0 => first.toNat
    | 1 => first.toNat % 0x20
    | 2 => first.toNat % 0x10
    | _ => first.toNat % 0x08
  Char.ofNat (more.foldl (fun value byte => value * 0x40 + byte.toNat % 0x40) lead)

/-- What a non-empty byte sequence begins with: a character of so many bytes, or a fault of
so many; `none` where the sequence ends inside a character. -/
inductive Head where
  | character (char : Char) (length : Nat)
  | fault (length : Option Nat)
  deriving Repr, DecidableEq

def head (first : UInt8) (rest : List UInt8) : Head :=
  match following? first with
  | none => .fault (some 1)
  | some (count, low, high) =>
    let present := continued count low high rest
    if present = count then .character (scalar first (rest.take count)) (count + 1)
    else if present = rest.length then .fault none
    else .fault (some (present + 1))

/-- The characters of bytes that begin at `index` of the whole sequence. -/
def readFrom (index : Nat) : List UInt8 → Except Fault (List Char)
  | [] => .ok []
  | first :: rest =>
    match head first rest with
    | .fault length => .error ⟨index, length⟩
    | .character char length =>
      (readFrom (index + length) (rest.drop (length - 1))).map (char :: ·)
  termination_by bytes => bytes.length
  decreasing_by simp only [List.length_drop, List.length_cons]; omega

/-- The text that bytes spell, or the first place where they spell none. -/
def decode (bytes : List UInt8) : Except Fault String :=
  (readFrom 0 bytes).map String.ofList

/-- The characters of bytes, the replacement character for each fault. -/
def readLenient : List UInt8 → List Char
  | [] => []
  | first :: rest =>
    match head first rest with
    | .character char length => char :: readLenient (rest.drop (length - 1))
    | .fault (some length) => '\uFFFD' :: readLenient (rest.drop (length - 1))
    | .fault none => ['\uFFFD']
  termination_by bytes => bytes.length
  decreasing_by all_goals simp only [List.length_drop, List.length_cons]; omega

/-- The text that bytes spell, each fault replaced by U+FFFD. -/
def decodeLenient (bytes : List UInt8) : String := String.ofList (readLenient bytes)

def encode (text : String) : List UInt8 := text.toUTF8.toList

end Script.Utf8
