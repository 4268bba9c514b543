import Script.Proofs.Parsing.Exact
import Script.Proofs.Tree.Faithful

/-! The prefix form loses no structure: parsed trees with one text are equal, lines apart. -/

namespace Script

open Recast (unlined)

/-- No text literal, and no number but a finite one. -/
def Kind.Plain : Kind → Prop
  | .string _ => False
  | .number value => (Binary64.ofFloat value).IsFinite
  | .plain _ => True

/-- A token whose place in a tree is told by its lexeme. -/
structure Token.Legible (token : Token) : Prop where
  spelled : token.Spelled
  plain : token.kind.Plain

namespace Grammar

variable {reader : String → Float} {level : Level} {form : Form} {tokens : List Token}
  {faults : List ParseError}

/-- What derives from legible tokens is read back. -/
theorem Phrase.faithful {tree : Expr} (phrase : Phrase .strict level tokens tree faults)
    (reads : ReadsNumbers reader) (legible : ∀ token ∈ tokens, token.Legible) :
    tree.Faithful reader := by
  induction phrase with
  | inside next phrase ih => exact ih legible
  | assignName named equals right ih =>
    simp only [List.forall_mem_cons] at legible
    exact .assign legible.1.spelled named (ih legible.2.2)
  | assignElement left opens place closes equals right ihLeft ihPlace ihRight =>
    simp only [List.forall_mem_append, List.forall_mem_cons] at legible
    obtain ⟨⟨ofObject, _, ofIndex⟩, bracket, _, ofValue⟩ := legible
    exact .store bracket.spelled closes (ihLeft ofObject) (ihPlace ofIndex) (ihRight ofValue)
  | assignOther lenient => cases lenient
  | join joins before found after ihBefore ihAfter =>
    simp only [List.forall_mem_append, List.forall_mem_cons] at legible
    obtain ⟨ofLeft, operator, ofRight⟩ := legible
    exact .join joins operator.spelled found (ihBefore ofLeft) (ihAfter ofRight)
  | sign found operand ih =>
    rw [List.forall_mem_cons] at legible
    exact .unary legible.1.spelled found (ih legible.2)
  | call function opens each listed few closes ihFunction ihEach =>
    simp only [List.forall_mem_append, List.forall_mem_cons] at legible
    obtain ⟨⟨ofCallee, _, ofList⟩, paren, _⟩ := legible
    have ofArgument := List.forall_mem_map.mp (listed.forall_parts ofList)
    refine .call paren.spelled closes (ihFunction ofCallee) ?_
    exact List.forall_mem_map.mpr fun argument member =>
      ihEach argument member (ofArgument argument member)
  | subscript left opens place closes ihLeft ihPlace =>
    simp only [List.forall_mem_append, List.forall_mem_cons] at legible
    obtain ⟨⟨ofObject, _, ofIndex⟩, bracket, _⟩ := legible
    exact .subscript bracket.spelled closes (ihLeft ofObject) (ihPlace ofIndex)
  | number kind =>
    have plain := (List.forall_mem_singleton.mp legible).plain
    rw [kind] at plain
    exact .number reads plain
  | string kind =>
    have plain := (List.forall_mem_singleton.mp legible).plain
    rw [kind] at plain
    exact plain.elim
  | falsehood | truth => exact .boolean _
  | nil => exact .nil
  | name found => exact .reference (List.forall_mem_singleton.mp legible).spelled found
  | group opens phrase closes ih =>
    simp only [List.forall_mem_append, List.forall_mem_cons] at legible
    exact .grouping (ih legible.1.2)
  | array opens each listed closes ihEach =>
    simp only [List.forall_mem_append, List.forall_mem_cons] at legible
    obtain ⟨⟨_, ofList⟩, bracket, _⟩ := legible
    have ofElement := List.forall_mem_map.mp (listed.forall_parts ofList)
    refine .array bracket.spelled closes ?_
    exact List.forall_mem_map.mpr fun element member =>
      ihEach element member (ofElement element member)

theorem Maybe.faithful {value : Option Expr} (maybe : Maybe .strict tokens value faults)
    (reads : ReadsNumbers reader) (legible : ∀ token ∈ tokens, token.Legible) :
    ∀ expr ∈ value, expr.Faithful reader := by
  cases maybe with
  | none => simp
  | some phrase => simpa using phrase.faithful reads legible

theorem Variable.faithful {tree : Stmt} (declared : Variable .strict tokens tree faults)
    (reads : ReadsNumbers reader) (legible : ∀ token ∈ tokens, token.Legible) :
    tree.Faithful reader := by
  cases declared with
  | bare declares named closes =>
    simp only [List.forall_mem_cons] at legible
    exact .declare legible.2.1.spelled named (by simp)
  | initial declares named equals phrase closes =>
    simp only [List.forall_mem_append, List.forall_mem_cons] at legible
    obtain ⟨⟨_, name, _, ofValue⟩, _⟩ := legible
    exact .declare name.spelled named (by simpa using phrase.faithful reads ofValue)

theorem Initial.faithful {initial : Option Stmt} (first : Initial .strict tokens initial faults)
    (reads : ReadsNumbers reader) (legible : ∀ token ∈ tokens, token.Legible) :
    ∀ stmt ∈ initial, stmt.Faithful reader := by
  cases first with
  | none => simp
  | declaration declared => simpa using declared.faithful reads legible
  | expression phrase closes =>
    rw [List.forall_mem_append] at legible
    simpa using Stmt.Faithful.expression (phrase.faithful reads legible.1)

theorem withStep_faithful {step : Option Expr} {body : Stmt} (inner : body.Faithful reader)
    (counts : ∀ expr ∈ step, expr.Faithful reader) : (withStep step body).Faithful reader := by
  cases step with
  | none => exact inner
  | some step => exact .block (by simpa using ⟨inner, .expression (counts step rfl)⟩)

theorem withInitial_faithful {initial : Option Stmt} {loop : Stmt} (inner : loop.Faithful reader)
    (first : ∀ stmt ∈ initial, stmt.Faithful reader) :
    (withInitial initial loop).Faithful reader := by
  cases initial with
  | none => exact inner
  | some initial => exact .block (by simpa using ⟨first initial rfl, inner⟩)

theorem faithful_of_parts {body : List (Piece Stmt)}
    (each : ∀ part ∈ body, (∀ token ∈ part.tokens, token.Legible) → part.tree.Faithful reader)
    (legible : ∀ token ∈ body.flatMap Piece.tokens, token.Legible) :
    ∀ stmt ∈ body.map Piece.tree, stmt.Faithful reader := by
  refine List.forall_mem_map.mpr fun part member => each part member fun token inside => ?_
  exact legible token (List.mem_flatMap.mpr ⟨part, member, inside⟩)

theorem Sentence.faithful {tree : Stmt} (sentence : Sentence .strict form tokens tree faults)
    (reads : ReadsNumbers reader) (legible : ∀ token ∈ tokens, token.Legible) :
    tree.Faithful reader := by
  induction sentence with
  | function declares named opens each listed few closes bodyOpens inner bodyCloses ih =>
    simp only [List.forall_mem_append, List.forall_mem_cons] at legible
    obtain ⟨⟨⟨_, name, _, ofList⟩, _, _, ofBody⟩, _⟩ := legible
    have ofParameter := List.forall_mem_map.mp (listed.forall_parts ofList)
    refine .function name.spelled named ?_ (faithful_of_parts ih ofBody)
    intro parameter member
    exact ⟨(List.forall_mem_singleton.mp (ofParameter parameter member)).spelled,
      each parameter member⟩
  | declaration declared => exact declared.faithful reads legible
  | statement sentence ih => exact ih legible
  | counting loops opens first tested separates steps closes inner ih =>
    simp only [List.forall_mem_append, List.forall_mem_cons] at legible
    obtain ⟨⟨⟨⟨_, _, ofInitial⟩, ofCondition⟩, _, ofStep⟩, _, ofBody⟩ := legible
    refine withInitial_faithful (.loop ?_ ?_) (first.faithful reads ofInitial)
    · cases tested with
      | none => exact .boolean true
      | some phrase => exact phrase.faithful reads ofCondition
    · exact withStep_faithful (ih ofBody) (steps.faithful reads ofStep)
  | branch branches opens tested closes inner ih =>
    simp only [List.forall_mem_append, List.forall_mem_cons] at legible
    obtain ⟨⟨_, _, ofCondition⟩, _, ofBody⟩ := legible
    exact .branch (tested.faithful reads ofCondition) (ih ofBody)
  | alternative branches opens tested closes inner otherwise outer ih ihOuter =>
    simp only [List.forall_mem_append, List.forall_mem_cons] at legible
    obtain ⟨⟨⟨_, _, ofCondition⟩, _, ofBody⟩, _, ofOther⟩ := legible
    exact .alternative (tested.faithful reads ofCondition) (ih ofBody) (ihOuter ofOther)
  | loop loops opens tested closes inner ih =>
    simp only [List.forall_mem_append, List.forall_mem_cons] at legible
    obtain ⟨⟨_, _, ofCondition⟩, _, ofBody⟩ := legible
    exact .loop (tested.faithful reads ofCondition) (ih ofBody)
  | returning returns result closes =>
    simp only [List.forall_mem_append, List.forall_mem_cons] at legible
    exact .returning legible.1.1.spelled returns (result.faithful reads legible.1.2)
  | block opens inner closes ih =>
    simp only [List.forall_mem_append, List.forall_mem_cons] at legible
    exact .block (faithful_of_parts ih legible.1.2)
  | print prints phrase closes =>
    simp only [List.forall_mem_append, List.forall_mem_cons] at legible
    exact .print (phrase.faithful reads legible.1.2)
  | expression phrase closes =>
    rw [List.forall_mem_append] at legible
    exact .expression (phrase.faithful reads legible.1)

theorem Program.faithful {statements : List Stmt}
    (program : Program .strict tokens statements faults) (reads : ReadsNumbers reader)
    (legible : ∀ token ∈ tokens, token.Legible) :
    ∀ stmt ∈ statements, stmt.Faithful reader := by
  obtain ⟨parts, each, rfl, rfl, _⟩ := program
  exact faithful_of_parts (fun part member => (each part member).faithful reads) legible

end Grammar
/-- Trees that are read back differ in their lines alone if they have one text. -/
theorem Expr.Faithful.unlined_eq {reader : String → Float} {tree other : Expr}
    (faithful : tree.Faithful reader) (faithful' : other.Faithful reader)
    (same : tree.prefixForm = other.prefixForm) : unlined.expr tree = unlined.expr other := by
  have forms : tree.form = other.form :=
    faithful.solid.chars_injective faithful'.solid (by rw [form_chars, form_chars, same])
  rw [← faithful.read, forms, faithful'.read]

theorem Stmt.Faithful.unlined_eq {reader : String → Float} {tree other : Stmt}
    (faithful : tree.Faithful reader) (faithful' : other.Faithful reader)
    (same : tree.prefixForm = other.prefixForm) : unlined.stmt tree = unlined.stmt other := by
  have forms : tree.form = other.form :=
    faithful.solid.chars_injective faithful'.solid (by rw [form_chars, form_chars, same])
  rw [← faithful.read, forms, faithful'.read]

theorem Stmt.Faithful.unlined_eq_all {reader : String → Float} {trees others : List Stmt}
    (faithful : ∀ tree ∈ trees, tree.Faithful reader)
    (faithful' : ∀ other ∈ others, other.Faithful reader)
    (same : trees.map Stmt.prefixForm = others.map Stmt.prefixForm) :
    unlined.stmts trees = unlined.stmts others := by
  induction trees generalizing others with
  | nil =>
    rw [List.map_nil, eq_comm, List.map_eq_nil_iff] at same
    rw [same]
  | cons tree trees ih =>
    cases others with
    | nil => cases same
    | cons other others =>
      rw [List.forall_mem_cons] at faithful faithful'
      rw [List.map_cons, List.map_cons, List.cons.injEq] at same
      have split (first : Stmt) (rest : List Stmt) :
          unlined.stmts (first :: rest) = unlined.stmt first :: unlined.stmts rest :=
        Recast.stmts_relabel_cons _ first rest
      rw [split, split, faithful.1.unlined_eq faithful'.1 same.1, ih faithful.2 faithful'.2 same.2]

/-- The tokens of a text before its end. -/
theorem Token.legible_of_scan {text : String}
    (plain : ∀ token ∈ Token.good (Token.scan text), token.kind.Plain) :
    ∀ token ∈ (TokenStream.ofList (Token.good (Token.scan text))).pending, token.Legible := by
  intro token member
  have among : token ∈ Token.good (Token.scan text) := (List.takeWhile_sublist _).subset member
  obtain ⟨item, listed, found⟩ := List.mem_filterMap.mp among
  have unended := (TokenStream.ofList (Token.good (Token.scan text))).pending_open token member
  cases item with
  | error error => cases found
  | ok scanned =>
    cases found
    exact ⟨lexeme_of_scan listed unended, plain token among⟩

/-- Two texts are scanned and parsed, in which there are no text literals and no numbers but finite
ones. If the programs have one prefix form, statement by statement, then they are the same trees,
lines apart; and so are single expressions. -/
theorem prefix_form_keeps_structure {text text' : String}
    (plain : ∀ token ∈ Token.good (Token.scan text), token.kind.Plain)
    (plain' : ∀ token ∈ Token.good (Token.scan text'), token.kind.Plain) :
    (∀ program program',
      (TokenStream.ofList (Token.good (Token.scan text))).program.1 = .ok program →
      (TokenStream.ofList (Token.good (Token.scan text'))).program.1 = .ok program' →
      program.map Stmt.prefixForm = program'.map Stmt.prefixForm →
      unlined.stmts program = unlined.stmts program') ∧
    (∀ expr expr',
      (TokenStream.ofList (Token.good (Token.scan text))).expression.1 = .ok expr →
      (TokenStream.ofList (Token.good (Token.scan text'))).expression.1 = .ok expr' →
      expr.prefixForm = expr'.prefixForm → unlined.expr expr = unlined.expr expr') := by
  obtain ⟨reader, reads⟩ := exists_readsNumbers
  have legible := Token.legible_of_scan plain
  have legible' := Token.legible_of_scan plain'
  constructor
  · intro program program' parsed parsed' same
    have faithful := ((TokenStream.program_eq_ok _).mp parsed).faithful reads legible
    have faithful' := ((TokenStream.program_eq_ok _).mp parsed').faithful reads legible'
    exact Stmt.Faithful.unlined_eq_all faithful faithful' same
  · intro expr expr' parsed parsed' same
    have faithful := ((TokenStream.expression_eq_ok _).mp parsed).faithful reads legible
    have faithful' := ((TokenStream.expression_eq_ok _).mp parsed').faithful reads legible'
    exact faithful.unlined_eq faithful' same

open Grammar in
/-- A sign and a number on the first line and on the second. -/
theorem prefix_form_keeps_structure_of_sign :
    ∃ program program' expr expr',
      (TokenStream.ofList (Token.good (Token.scan "-1;"))).program.1 = .ok program ∧
      (TokenStream.ofList (Token.good (Token.scan "\n-1;"))).program.1 = .ok program' ∧
      program.map Stmt.prefixForm = program'.map Stmt.prefixForm ∧
      unlined.stmts program = unlined.stmts program' ∧
      (TokenStream.ofList (Token.good (Token.scan "-1"))).expression.1 = .ok expr ∧
      (TokenStream.ofList (Token.good (Token.scan "\n-1"))).expression.1 = .ok expr' ∧
      expr.prefixForm = expr'.prefixForm ∧ unlined.expr expr = unlined.expr expr' := by
  have finite : (Binary64.ofFloat (Scan.numberValue ['1'] [])).IsFinite :=
    ⟨false, 2 ^ 52, -52, by decide⟩
  generalize one : Scan.numberValue ['1'] [] = number at finite
  let tokens (line : Nat) : List Token := [⟨.plain .minus, "-", line⟩, ⟨.number number, "1", line⟩]
  let tree (line : Nat) : Expr := .unary ⟨.plain .minus, "-", line⟩ (.literal (.number number))
  obtain ⟨scanned, scanned', alone, alone'⟩ :
      Token.good (Token.scan "-1;") =
        tokens 1 ++ [⟨.plain .semicolon, ";", 1⟩, ⟨.plain .endOfText, "", 1⟩] ∧
      Token.good (Token.scan "\n-1;") =
        tokens 2 ++ [⟨.plain .semicolon, ";", 2⟩, ⟨.plain .endOfText, "", 2⟩] ∧
      Token.good (Token.scan "-1") = tokens 1 ++ [⟨.plain .endOfText, "", 1⟩] ∧
      Token.good (Token.scan "\n-1") = tokens 2 ++ [⟨.plain .endOfText, "", 2⟩] := by
    refine ⟨?_, ?_, ?_, ?_⟩ <;>
      simp [Token.scan, Scan.pieces_eq, Scan.skipTrivia, Scan.cut, Scan.mark?, Scan.equalsPair?,
        Scan.cutNumber, Scan.isBlank, Scan.isDigit, Scan.Piece.item, Token.good, Token.good?, one,
        tokens]
  have phrase (line : Nat) : Phrase .strict .assignment (tokens line) (tree line) [] := by
    have operand : Phrase .strict .signed [⟨.number number, "1", line⟩] _ [] :=
      .inside rfl (.inside rfl (.number rfl))
    have signed : Phrase .strict .sum (tokens line) (tree line) [] :=
      .inside rfl (.inside rfl (.sign (.inr rfl) operand))
    exact .inside rfl (.inside rfl (.inside rfl (.inside rfl (.inside rfl signed))))
  have program (line : Nat) : (TokenStream.ofList (tokens line ++ [⟨.plain .semicolon, ";", line⟩,
      ⟨.plain .endOfText, "", line⟩])).program.1 = .ok [.expression (tree line)] :=
    (TokenStream.program_eq_ok _).mpr
      (Program.nil.cons (.statement (.expression (phrase line) rfl)))
  have expression (line : Nat) : (TokenStream.ofList (tokens line ++
      [⟨.plain .endOfText, "", line⟩])).expression.1 = .ok (tree line) :=
    (TokenStream.expression_eq_ok _).mpr (phrase line)
  have plain {text : String} {line : Nat} {others : List Token}
      (split : Token.good (Token.scan text) = tokens line ++ others)
      (rest : ∀ token ∈ others, token.kind.Plain) :
      ∀ token ∈ Token.good (Token.scan text), token.kind.Plain := by
    rw [split, List.forall_mem_append]
    exact ⟨by simpa [tokens, Kind.Plain] using finite, rest⟩
  have first := scanned ▸ program 1
  have second := scanned' ▸ program 2
  have third := alone ▸ expression 1
  have fourth := alone' ▸ expression 2
  refine ⟨_, _, _, _, first, second, rfl, ?_, third, fourth, rfl, ?_⟩
  · exact (prefix_form_keeps_structure (plain scanned (by simp [Kind.Plain]))
      (plain scanned' (by simp [Kind.Plain]))).1 _ _ first second rfl
  · exact (prefix_form_keeps_structure (plain alone (by simp [Kind.Plain]))
      (plain alone' (by simp [Kind.Plain]))).2 _ _ third fourth rfl

end Script
