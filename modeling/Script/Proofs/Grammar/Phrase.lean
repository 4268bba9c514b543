import Script.Proofs.Parsing.Outcome

/-! The grammar of expressions, apart from any way to parse it: which tokens derive which tree.
The strict grammar is the grammar proper. The lenient one also has whatever can be reported
without giving up the expression, and lists it as faults. -/

namespace Script.Grammar

inductive Mode where
  | strict | lenient
  deriving DecidableEq

/-- What the grammar reports and goes on. -/
def Mode.tolerates : Mode → ParseCause → Bool
  | .lenient, .invalidTarget | .lenient, .tooManyArguments | .lenient, .tooManyParameters => true
  | _, _ => false

theorem Mode.eq_lenient {mode : Mode} {cause : ParseCause}
    (tolerated : mode.tolerates cause = true) : mode = .lenient := by
  cases mode with
  | lenient => rfl
  | strict => simp [tolerates] at tolerated

/-- The levels of the grammar, the loosest first. -/
inductive Level where
  | assignment | disjunction | conjunction | equality | comparison | sum | product
  | signed | suffixed | primary
  deriving DecidableEq

/-- The next level inward; its phrases are phrases of this level too. -/
def Level.inner? : Level → Option Level
  | .assignment => some .disjunction
  | .disjunction => some .conjunction
  | .conjunction => some .equality
  | .equality => some .comparison
  | .comparison => some .sum
  | .sum => some .product
  | .product => some .signed
  | .signed => some .suffixed
  | .suffixed => some .primary
  | .primary => none

/-- A level, an operator that groups to the left there, the level of its right operand, and the
node it makes. -/
inductive Joins : Level → Tag → Level → (Expr → Token → Expr → Expr) → Prop where
  | or : Joins .disjunction .orKeyword .conjunction .logical
  | and : Joins .conjunction .andKeyword .equality .logical
  | different : Joins .equality .bangEqual .comparison .binary
  | same : Joins .equality .equalEqual .comparison .binary
  | greater : Joins .comparison .greater .sum .binary
  | greaterEqual : Joins .comparison .greaterEqual .sum .binary
  | less : Joins .comparison .less .sum .binary
  | lessEqual : Joins .comparison .lessEqual .sum .binary
  | minus : Joins .sum .minus .product .binary
  | plus : Joins .sum .plus .product .binary
  | times : Joins .product .star .signed .binary
  | divided : Joins .product .slash .signed .binary

/-- Some tokens, the tree they derive, and the faults in them. -/
structure Piece (α : Type) where
  tokens : List Token
  tree : α
  faults : List ParseError

/-- Parts in order, with a comma between neighbours. -/
inductive Separated : List (List Token) → List Token → Prop where
  | none : Separated [] []
  | one (part : List Token) : Separated [part] part
  | more {part next : List Token} {parts : List (List Token)} {comma : Token}
      {tokens : List Token} (between : comma.is .comma)
      (rest : Separated (next :: parts) tokens) :
      Separated (part :: next :: parts) (part ++ comma :: tokens)

/-- Where a list is limited, the first token of an item behind 255 others is at fault. -/
def excess (limited : Bool) (count : Nat) (tokens : List Token) : List ParseError :=
  if limited && 255 ≤ count then tokens.head?.toList.map (⟨.tooManyArguments, ·⟩) else []

/-- The faults of list items that `count` others come before. -/
def itemFaults (limited : Bool) (count : Nat) : List (Piece Expr) → List ParseError
  | [] => []
  | item :: items =>
    excess limited count item.tokens ++ item.faults ++ itemFaults limited (count + 1) items

/-- `Phrase mode level tokens tree faults`: the tokens derive the tree at the level. -/
inductive Phrase (mode : Mode) : Level → List Token → Expr → List ParseError → Prop where
  | inside {level inner : Level} {tokens : List Token} {tree : Expr} {faults : List ParseError}
      (next : level.inner? = some inner) (phrase : Phrase mode inner tokens tree faults) :
      Phrase mode level tokens tree faults
  | assignName {name sign : Token} {tokens : List Token} {value : Expr}
      {faults : List ParseError} (named : name.is .identifier) (equals : sign.is .equal)
      (right : Phrase mode .assignment tokens value faults) :
      Phrase mode .assignment (name :: sign :: tokens) (.assign name value) faults
  | assignElement {opening closing sign : Token} {objectTokens indexTokens tokens : List Token}
      {object index value : Expr} {objectFaults indexFaults faults : List ParseError}
      (left : Phrase mode .suffixed objectTokens object objectFaults)
      (opens : opening.is .leftBracket)
      (place : Phrase mode .assignment indexTokens index indexFaults)
      (closes : closing.is .rightBracket) (equals : sign.is .equal)
      (right : Phrase mode .assignment tokens value faults) :
      Phrase mode .assignment
        (objectTokens ++ opening :: indexTokens ++ closing :: sign :: tokens)
        (.store object closing index value) (objectFaults ++ indexFaults ++ faults)
  /-- Any other target is at fault at the equals sign, and the value is dropped. -/
  | assignOther {sign : Token} {targetTokens tokens : List Token} {target value : Expr}
      {targetFaults faults : List ParseError} (tolerated : mode = .lenient)
      (left : Phrase mode .disjunction targetTokens target targetFaults)
      (noName : ∀ name, target ≠ .reference name)
      (noElement : ∀ object bracket index, target ≠ .subscript object bracket index)
      (equals : sign.is .equal) (right : Phrase mode .assignment tokens value faults) :
      Phrase mode .assignment (targetTokens ++ sign :: tokens) target
        (targetFaults ++ faults ++ [⟨.invalidTarget, sign⟩])
  | join {level inner : Level} {tag : Tag} {node : Expr → Token → Expr → Expr} {operator : Token}
      {leftTokens rightTokens : List Token} {left right : Expr}
      {leftFaults rightFaults : List ParseError} (joins : Joins level tag inner node)
      (before : Phrase mode level leftTokens left leftFaults) (found : operator.is tag)
      (after : Phrase mode inner rightTokens right rightFaults) :
      Phrase mode level (leftTokens ++ operator :: rightTokens) (node left operator right)
        (leftFaults ++ rightFaults)
  | sign {operator : Token} {tokens : List Token} {right : Expr} {faults : List ParseError}
      (found : operator.is .bang ∨ operator.is .minus)
      (operand : Phrase mode .signed tokens right faults) :
      Phrase mode .signed (operator :: tokens) (.unary operator right) faults
  | call {opening closing : Token} {calleeTokens listTokens : List Token} {callee : Expr}
      {arguments : List (Piece Expr)} {calleeFaults : List ParseError}
      (function : Phrase mode .suffixed calleeTokens callee calleeFaults)
      (opens : opening.is .leftParen)
      (each : ∀ argument ∈ arguments,
        Phrase mode .assignment argument.tokens argument.tree argument.faults)
      (listed : Separated (arguments.map Piece.tokens) listTokens)
      (few : mode = .strict → arguments.length ≤ 255) (closes : closing.is .rightParen) :
      Phrase mode .suffixed (calleeTokens ++ opening :: listTokens ++ [closing])
        (.call callee closing (arguments.map Piece.tree))
        (calleeFaults ++ itemFaults true 0 arguments)
  | subscript {opening closing : Token} {objectTokens indexTokens : List Token}
      {object index : Expr} {objectFaults indexFaults : List ParseError}
      (left : Phrase mode .suffixed objectTokens object objectFaults)
      (opens : opening.is .leftBracket)
      (place : Phrase mode .assignment indexTokens index indexFaults)
      (closes : closing.is .rightBracket) :
      Phrase mode .suffixed (objectTokens ++ opening :: indexTokens ++ [closing])
        (.subscript object closing index) (objectFaults ++ indexFaults)
  | number {token : Token} {value : Float} (kind : token.kind = .number value) :
      Phrase mode .primary [token] (.literal (.number value)) []
  | string {token : Token} {text : String} (kind : token.kind = .string text) :
      Phrase mode .primary [token] (.literal (.string text)) []
  | falsehood {token : Token} (found : token.is .falseKeyword) :
      Phrase mode .primary [token] (.literal (.boolean false)) []
  | truth {token : Token} (found : token.is .trueKeyword) :
      Phrase mode .primary [token] (.literal (.boolean true)) []
  | nil {token : Token} (found : token.is .nilKeyword) :
      Phrase mode .primary [token] (.literal .nil) []
  | name {token : Token} (found : token.is .identifier) :
      Phrase mode .primary [token] (.reference token) []
  | group {opening closing : Token} {tokens : List Token} {inner : Expr}
      {faults : List ParseError} (opens : opening.is .leftParen)
      (phrase : Phrase mode .assignment tokens inner faults) (closes : closing.is .rightParen) :
      Phrase mode .primary (opening :: tokens ++ [closing]) (.grouping inner) faults
  | array {opening closing : Token} {listTokens : List Token} {elements : List (Piece Expr)}
      (opens : opening.is .leftBracket)
      (each : ∀ element ∈ elements,
        Phrase mode .assignment element.tokens element.tree element.faults)
      (listed : Separated (elements.map Piece.tokens) listTokens)
      (closes : closing.is .rightBracket) :
      Phrase mode .primary (opening :: listTokens ++ [closing])
        (.array closing (elements.map Piece.tree)) (itemFaults false 0 elements)

/-- Whatever category the token has, other than that of a number or a string, is one of these. -/
def Among (tags : List Tag) (token : Token) : Prop := ∀ tag, token.is tag = true → tag ∈ tags

theorem Among.is_eq_false {tags : List Tag} {token : Token} {tag : Tag} (among : Among tags token)
    (absent : tag ∉ tags) : token.is tag = false :=
  Bool.eq_false_iff.mpr fun found => absent (among tag found)

theorem among_of_is {tags : List Tag} {token : Token} {tag : Tag} (found : token.is tag = true)
    (member : tag ∈ tags) : Among tags token := by
  intro other also
  have same := (Token.is_iff.mp found).symm.trans (Token.is_iff.mp also)
  cases same
  exact member

theorem among_of_number {tags : List Tag} {token : Token} {value : Float}
    (kind : token.kind = .number value) : Among tags token := by
  intro tag found
  simp [Token.is_iff, kind] at found

theorem among_of_string {tags : List Tag} {token : Token} {text : String}
    (kind : token.kind = .string text) : Among tags token := by
  intro tag found
  simp [Token.is_iff, kind] at found

/-- The categories that a phrase can begin with, literals apart. -/
def phraseStarts : List Tag :=
  [.falseKeyword, .trueKeyword, .nilKeyword, .identifier, .leftParen, .leftBracket, .bang, .minus]

/-- The categories that a phrase is made of, literals apart. -/
def phraseTags : List Tag :=
  [.falseKeyword, .trueKeyword, .nilKeyword, .identifier, .leftParen, .rightParen, .leftBracket,
    .rightBracket, .comma, .equal, .orKeyword, .andKeyword, .bangEqual, .equalEqual, .greater,
    .greaterEqual, .less, .lessEqual, .minus, .plus, .star, .slash, .bang]

variable {mode : Mode} {level : Level} {tokens : List Token} {tree : Expr}
  {faults : List ParseError}

theorem Phrase.starts (phrase : Phrase mode level tokens tree faults) :
    ∃ first others, tokens = first :: others ∧ Among phraseStarts first := by
  induction phrase with
  | inside next phrase ih => exact ih
  | assignName named equals right ih =>
    exact ⟨_, _, rfl, among_of_is named (by decide)⟩
  | assignElement left opens place closes equals right ihLeft ihPlace ihRight =>
    obtain ⟨first, others, rfl, starts⟩ := ihLeft
    exact ⟨first, _, rfl, starts⟩
  | assignOther tolerated left noName noElement equals right ihLeft ihRight =>
    obtain ⟨first, others, rfl, starts⟩ := ihLeft
    exact ⟨first, _, rfl, starts⟩
  | join joins before found after ihBefore ihAfter =>
    obtain ⟨first, others, rfl, starts⟩ := ihBefore
    exact ⟨first, _, rfl, starts⟩
  | sign found operand ih =>
    refine ⟨_, _, rfl, ?_⟩
    rcases found with bang | minus
    · exact among_of_is bang (by decide)
    · exact among_of_is minus (by decide)
  | call function opens each listed few closes ihFunction ihEach =>
    obtain ⟨first, others, rfl, starts⟩ := ihFunction
    exact ⟨first, _, rfl, starts⟩
  | subscript left opens place closes ihLeft ihPlace =>
    obtain ⟨first, others, rfl, starts⟩ := ihLeft
    exact ⟨first, _, rfl, starts⟩
  | number kind => exact ⟨_, _, rfl, among_of_number kind⟩
  | string kind => exact ⟨_, _, rfl, among_of_string kind⟩
  | falsehood found => exact ⟨_, _, rfl, among_of_is found (by decide)⟩
  | truth found => exact ⟨_, _, rfl, among_of_is found (by decide)⟩
  | nil found => exact ⟨_, _, rfl, among_of_is found (by decide)⟩
  | name found => exact ⟨_, _, rfl, among_of_is found (by decide)⟩
  | group opens phrase closes ih => exact ⟨_, _, rfl, among_of_is opens (by decide)⟩
  | array opens each listed closes ih => exact ⟨_, _, rfl, among_of_is opens (by decide)⟩

/-- The categories that a suffixed phrase can begin with, literals apart. -/
def suffixedStarts : List Tag :=
  [.falseKeyword, .trueKeyword, .nilKeyword, .identifier, .leftParen, .leftBracket]

/-- A primary is an expression. -/
theorem Phrase.of_signed (phrase : Phrase mode .signed tokens tree faults) :
    Phrase mode .assignment tokens tree faults := by
  have comparison : Phrase mode .comparison tokens tree faults :=
    .inside rfl (.inside rfl (.inside rfl phrase))
  exact .inside rfl (.inside rfl (.inside rfl (.inside rfl comparison)))

theorem Phrase.of_primary (phrase : Phrase mode .primary tokens tree faults) :
    Phrase mode .assignment tokens tree faults :=
  Phrase.of_signed (.inside rfl (.inside rfl phrase))

theorem Phrase.starts_primary (phrase : Phrase mode .primary tokens tree faults) :
    ∃ first others, tokens = first :: others ∧ Among suffixedStarts first := by
  cases phrase with
  | inside next => cases next
  | join joins => cases joins
  | number kind => exact ⟨_, _, rfl, among_of_number kind⟩
  | string kind => exact ⟨_, _, rfl, among_of_string kind⟩
  | falsehood found => exact ⟨_, _, rfl, among_of_is found (by decide)⟩
  | truth found => exact ⟨_, _, rfl, among_of_is found (by decide)⟩
  | nil found => exact ⟨_, _, rfl, among_of_is found (by decide)⟩
  | name found => exact ⟨_, _, rfl, among_of_is found (by decide)⟩
  | group opens => exact ⟨_, _, rfl, among_of_is opens (by decide)⟩
  | array opens => exact ⟨_, _, rfl, among_of_is opens (by decide)⟩

theorem Phrase.starts_suffixed (phrase : Phrase mode .suffixed tokens tree faults) :
    ∃ first others, tokens = first :: others ∧ Among suffixedStarts first := by
  generalize same : Level.suffixed = level at phrase
  induction phrase with
  | inside next phrase =>
    subst same
    cases next
    exact phrase.starts_primary
  | join joins => cases joins <;> cases same
  | call function opens each listed few closes ih =>
    obtain ⟨first, others, rfl, starts⟩ := ih same
    exact ⟨first, _, rfl, starts⟩
  | subscript left opens place closes ih =>
    obtain ⟨first, others, rfl, starts⟩ := ih same
    exact ⟨first, _, rfl, starts⟩
  | _ => cases same

/-- A list begins with its first part. -/
theorem Separated.starts {part : List Token} {parts : List (List Token)}
    (listed : Separated (part :: parts) tokens) : ∃ behind, tokens = part ++ behind := by
  cases listed with
  | one => exact ⟨[], by simp⟩
  | more between rest => exact ⟨_, rfl⟩

/-- Whatever holds of commas and of the tokens of each part holds of a separated list. -/
theorem Separated.forall {holds : Token → Prop} {parts : List (List Token)}
    (listed : Separated parts tokens) (ofComma : ∀ comma : Token, comma.is .comma → holds comma)
    (ofPart : ∀ part ∈ parts, ∀ token ∈ part, holds token) : ∀ token ∈ tokens, holds token := by
  induction listed with
  | none => simp
  | one part => exact ofPart part (by simp)
  | @more part next parts comma tokens between rest ih =>
    have tail := ih fun later member => ofPart later (List.mem_cons_of_mem part member)
    intro token member
    rcases List.mem_append.mp member with inPart | inRest
    · exact ofPart part (by simp) token inPart
    · rcases List.mem_cons.mp inRest with rfl | later
      · exact ofComma _ between
      · exact tail token later

/-- Whatever holds of the tokens of a separated list holds of those of each part. -/
theorem Separated.forall_parts {holds : Token → Prop} {parts : List (List Token)}
    (listed : Separated parts tokens) (all : ∀ token ∈ tokens, holds token) :
    ∀ part ∈ parts, ∀ token ∈ part, holds token := by
  induction listed with
  | none => simp
  | one part => simpa using all
  | more between rest ih =>
    rw [List.forall_mem_append, List.forall_mem_cons] at all
    exact List.forall_mem_cons.mpr ⟨all.1, ih all.2.2⟩

theorem Phrase.among (phrase : Phrase mode level tokens tree faults) :
    ∀ token ∈ tokens, Among phraseTags token := by
  have comma (token : Token) (found : token.is .comma) : Among phraseTags token :=
    among_of_is found (by decide)
  induction phrase with
  | inside next phrase ih => exact ih
  | assignName named equals right ih =>
    simpa using ⟨among_of_is named (by decide), among_of_is equals (by decide), ih⟩
  | assignElement left opens place closes equals right ihLeft ihPlace ihRight =>
    simp only [List.forall_mem_append, List.forall_mem_cons]
    exact ⟨⟨ihLeft, among_of_is opens (by decide), ihPlace⟩, among_of_is closes (by decide),
      among_of_is equals (by decide), ihRight⟩
  | assignOther tolerated left noName noElement equals right ihLeft ihRight =>
    simp only [List.forall_mem_append, List.forall_mem_cons]
    exact ⟨ihLeft, among_of_is equals (by decide), ihRight⟩
  | join joins before found after ihBefore ihAfter =>
    simp only [List.forall_mem_append, List.forall_mem_cons]
    exact ⟨ihBefore, among_of_is found (by cases joins <;> decide), ihAfter⟩
  | sign found operand ih =>
    refine List.forall_mem_cons.mpr ⟨?_, ih⟩
    rcases found with bang | minus
    · exact among_of_is bang (by decide)
    · exact among_of_is minus (by decide)
  | call function opens each listed few closes ihFunction ihEach =>
    have inList := listed.forall comma (by simpa using ihEach)
    simp only [List.forall_mem_append, List.forall_mem_cons]
    exact ⟨⟨ihFunction, among_of_is opens (by decide), inList⟩, among_of_is closes (by decide),
      by simp⟩
  | subscript left opens place closes ihLeft ihPlace =>
    simp only [List.forall_mem_append, List.forall_mem_cons]
    exact ⟨⟨ihLeft, among_of_is opens (by decide), ihPlace⟩, among_of_is closes (by decide),
      by simp⟩
  | number kind => simpa using among_of_number kind
  | string kind => simpa using among_of_string kind
  | falsehood found => simpa using among_of_is found (by decide)
  | truth found => simpa using among_of_is found (by decide)
  | nil found => simpa using among_of_is found (by decide)
  | name found => simpa using among_of_is found (by decide)
  | group opens phrase closes ih =>
    simp only [List.forall_mem_append, List.forall_mem_cons]
    exact ⟨⟨among_of_is opens (by decide), ih⟩, among_of_is closes (by decide), by simp⟩
  | array opens each listed closes ihEach =>
    have inList := listed.forall comma (by simpa using ihEach)
    simp only [List.forall_mem_append, List.forall_mem_cons]
    exact ⟨⟨among_of_is opens (by decide), inList⟩, among_of_is closes (by decide), by simp⟩

/-- Only a name by itself derives a reference. -/
theorem Phrase.eq_name {name : Token} (phrase : Phrase mode level tokens (.reference name) faults) :
    tokens = [name] ∧ name.is .identifier = true ∧ faults = [] := by
  generalize shape : Expr.reference name = tree at phrase
  induction phrase with
  | inside next phrase ih => exact ih shape
  | name found =>
    cases shape
    exact ⟨rfl, found, rfl⟩
  | assignOther tolerated left noName => exact absurd shape.symm (noName name)
  | join joins => cases joins <;> cases shape
  | _ => cases shape

/-- Only a subscript in brackets at the end derives a subscript. -/
theorem Phrase.eq_subscript {object index : Expr} {closing : Token}
    (phrase : Phrase mode level tokens (.subscript object closing index) faults) :
    ∃ objectTokens opening indexTokens objectFaults indexFaults,
      tokens = objectTokens ++ opening :: indexTokens ++ [closing] ∧
      faults = objectFaults ++ indexFaults ∧
      Phrase mode .suffixed objectTokens object objectFaults ∧ opening.is .leftBracket = true ∧
      Phrase mode .assignment indexTokens index indexFaults ∧
      closing.is .rightBracket = true := by
  generalize shape : Expr.subscript object closing index = tree at phrase
  induction phrase with
  | inside next phrase ih => exact ih shape
  | subscript left opens place closes =>
    cases shape
    exact ⟨_, _, _, _, _, rfl, rfl, left, opens, place, closes⟩
  | assignOther tolerated left noName noElement =>
    exact absurd shape.symm (noElement object closing index)
  | join joins => cases joins <;> cases shape
  | _ => cases shape

end Script.Grammar
