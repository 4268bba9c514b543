import Script.Proofs.Evaluation.Renaming
import Script.Proofs.Scope.Rooted
import Script.Proofs.Session.Acceptance

/-! Names are labels. A program whose identifiers are renamed one to one, the clock excepted, is
accepted and runs as the program does; the new names show in the texts of its functions and where a
name is not found. -/

namespace Script

/-- How a computation ends, unless it runs out of steps. -/
def Result.ending? {α : Type} : Result α → Option (Except Failure α)
  | .done value _ => some (.ok value)
  | .failed failure _ => some (.error failure)
  | .exhausted => none

/-- The text of a function by its new name. -/
def Callable.textUnder (change : String → String) : Callable → String
  | .host _ _ _ => "<native fn>"
  | .declared declaration _ => "<fn " ++ change declaration.name.lexeme ++ ">"

/-- The text of a print with the new names of functions, also of those inside arrays. -/
def Printed.textUnder (change : String → String) (printed : Printed) : String :=
  printed.value.textShowing (Callable.textUnder change) printed.heap []

/-- The names that occur among some tokens. -/
def identifiers (tokens : List Token) : Set String :=
  {name | ∃ token ∈ tokens, token.is .identifier = true ∧ token.lexeme = name}

/-- The tokens of a unit, with other names for its identifiers. -/
def Source.rename (change : String → String) (source : Source) : Source :=
  .tokens (source.scanned.1.map (Token.renameIdentifier change))

variable {change : String → String} {source : Source} {statements : List Stmt}

theorem Printed.text_rename (printed : Printed) :
    (printed.rename change).text = printed.textUnder change := by
  have texts : Callable.text ∘ Callable.rename change = Callable.textUnder change := by
    funext callable
    cases callable <;> rfl
  rw [Printed.text, Value.text, Printed.rename, Value.textWithin_mapCallable, texts]
  rfl

theorem Printed.bytes_rename (printed : Printed) :
    (printed.rename change).bytes = Utf8.encode (printed.textUnder change ++ "\n") := by
  rw [Printed.bytes, Printed.text_rename]

/-- An accepted unit is one whose tokens are parsed. -/
theorem Source.parsed_of_accepted (accepted : source.program? = .ok statements) :
    (TokenStream.ofList source.scanned.1).program.1 = .ok statements := by
  unfold program? at accepted
  dsimp only at accepted
  cases parsed : (TokenStream.ofList source.scanned.1).program.1 with
  | error faults =>
    rw [parsed] at accepted
    cases accepted
  | ok found =>
    rw [parsed, accept] at accepted
    split at accepted
    · cases accepted
      rfl
    · cases accepted

/-- A renamed unit is accepted as the renamed statements. -/
theorem Source.program?_rename (accepted : source.program? = .ok statements) :
    (source.rename change).program? = .ok (Stmt.renameAll change statements) := by
  have program := (TokenStream.program_eq_ok _).mp (Source.parsed_of_accepted accepted)
  have pending : (TokenStream.ofList
      (source.scanned.1.map (Token.renameIdentifier change))).pending =
        (TokenStream.ofList source.scanned.1).pending.map (Token.renameIdentifier change) := by
    show List.takeWhile _ _ = List.map _ (List.takeWhile _ _)
    rw [List.takeWhile_map]
    simp [Function.comp_def]
  have parsed : (TokenStream.ofList
      (source.scanned.1.map (Token.renameIdentifier change))).program.1 =
        .ok (statements.map (Stmt.rename change)) := by
    rw [TokenStream.program_eq_ok, pending]
    exact program.rename
  rw [Stmt.renameAll_eq]
  show accept [] (TokenStream.ofList
    (source.scanned.1.map (Token.renameIdentifier change))).program.1 = _
  rw [parsed]
  rfl

namespace Machine

theorem formed_fresh (reading : Nat → Float) (output : Output) {named : Token → Prop}
    {hosts : Native → Prop} (clock : hosts .clock) :
    (fresh reading output).Formed named hosts where
  bound found := by
    rw [own?_fresh] at found
    split at found
    · cases found
      exact clock
    · cases found
  kept id value member := by
    have none : (fresh reading output).heap.elements id = #[] :=
      Heap.elements_eq_empty (Nat.zero_le id)
    simp [none] at member

end Machine

/-- The renaming of a program that finds nothing but the clock. -/
def Renaming.ofProgram (change : String → String) (tokens : List Token)
    (injective : Set.InjOn change (insert "clock" (identifiers tokens))) : Renaming where
  change := change
  named token := token.lexeme ∈ identifiers tokens
  hosts operation := operation = .clock
  injective first second same :=
    injective (Set.mem_insert_of_mem _ first) (Set.mem_insert_of_mem _ second) same
  quiet text := nomatch text

/-- Fresh machines are twins if no other name becomes that of the clock. -/
theorem Renaming.twins_fresh {tokens : List Token}
    (injective : Set.InjOn change (insert "clock" (identifiers tokens)))
    (clock : change "clock" = "clock") (reading : Nat → Float) {output : Output}
    (unlimited : output.capacity = none) :
    (ofProgram change tokens injective).Twins (.fresh reading output)
      (.fresh reading output) where
  formed := Machine.formed_fresh reading output rfl
  size := rfl
  parent _ := rfl
  bound id token named := by
    have same : "clock" = change token.lexeme ↔ "clock" = token.lexeme := by
      constructor
      · intro found
        rw [← clock] at found
        exact injective (Set.mem_insert _ _) (Set.mem_insert_of_mem _ named) found
      · intro found
        rw [← found, clock]
    show _ = Option.map _ _
    simp only [Machine.own?_fresh, ofProgram, same]
    split <;> rfl
  heap := (Heap.map_empty _).symm
  active := rfl
  functions := rfl
  clock := rfl
  output := .inr ⟨unlimited, unlimited, rfl⟩

theorem Renaming.Together.ending?_eq {α : Type} {scheme : Renaming} {result result' : Result α}
    (together : scheme.Together Eq result result') :
    result'.ending? = result.ending?.map (Except.mapError (Failure.rename scheme.change)) := by
  cases together with
  | done same => exact same ▸ rfl
  | failed => rfl
  | exhausted => rfl

/-- Names are labels. If the identifiers of an accepted unit are renamed one to one and the clock
keeps its name, the unit is accepted. Within any number of steps, and with no limit on what is
written, its run on a fresh machine and that of the first end together or not at all. They print as
often, the same values with the new names of functions in their texts, and write nothing else. They
end alike, but that a name that is not found is told by its new name. -/
theorem names_are_labels {source : Source} {statements : List Stmt} {change : String → String}
    (accepted : source.program? = .ok statements)
    (injective : Set.InjOn change (insert "clock" (identifiers source.scanned.1)))
    (clock : change "clock" = "clock") :
    ∃ renamed, (source.rename change).program? = .ok renamed ∧
      ∀ steps reading output, output.capacity = none →
        let start := Machine.fresh reading output
        let prints := programPrints steps statements start
        (interpret steps renamed start).ending? =
          (interpret steps statements start).ending?.map
            (Except.mapError (Failure.rename change)) ∧
        (programPrints steps renamed start).map Printed.text =
          prints.map (Printed.textUnder change) ∧
        (∀ after, (interpret steps statements start).machine? = some after → after.output =
          output.write (prints.flatMap fun printed => Utf8.encode (printed.text ++ "\n"))) ∧
        ∀ after, (interpret steps renamed start).machine? = some after → after.output =
          output.write (prints.flatMap fun printed =>
            Utf8.encode (printed.textUnder change ++ "\n")) := by
  refine ⟨_, Source.program?_rename accepted, fun steps reading output unlimited => ?_⟩
  let scheme := Renaming.ofProgram change source.scanned.1 injective
  have program := (TokenStream.program_eq_ok _).mp (Source.parsed_of_accepted accepted)
  have names : NamesAre scheme.named (TokenStream.ofList source.scanned.1).pending := by
    intro token member found
    exact ⟨token, (List.takeWhile_sublist _).subset member, found, rfl⟩
  have ends := Renaming.Runs.interpret scheme steps (program.formed names) _ _
    (Renaming.twins_fresh injective clock reading unlimited)
  have told : programPrints steps (Stmt.renameAll change statements) (.fresh reading output) =
      (programPrints steps statements (.fresh reading output)).map (Printed.rename change) :=
    ends.told
  refine ⟨ends.together.ending?_eq, ?_, ends.wrote unlimited, ?_⟩
  · have texts : Printed.text ∘ Printed.rename change = Printed.textUnder change :=
      funext Printed.text_rename
    rw [told, List.map_map, texts]
  · have written := ends.wrote' unlimited
    rw [ends.told, List.flatMap_map] at written
    simp only [← Printed.bytes_rename]
    exact written

open Grammar in
/-- A function that is declared and printed, under another name. -/
theorem names_are_labels_of_function :
    ∃ source change renamed, Source.program? (Source.rename change source) = .ok renamed ∧
      change "f" = "g" ∧
      (programPrints 3 renamed (.fresh (fun _ => 0) .unlimited)).map Printed.text = ["<fn g>"] := by
  let name := Tag.identifier.mark "f"
  let declaration : List Token := [Tag.funKeyword.mark "fun", name, Tag.leftParen.mark "(",
    Tag.rightParen.mark ")", Tag.leftBrace.mark "\x7b", Tag.rightBrace.mark "\x7d"]
  let print : List Token := [Tag.printKeyword.mark "print", name, Tag.semicolon.mark ";"]
  let change (name : String) : String := if name = "f" then "g" else name
  have declares : Sentence .strict .declaration declaration (.function name [] []) [] :=
    @Sentence.function .strict _ name _ _ _ _ [] [] [] (Tag.mark_is _ _) (Tag.mark_is _ _)
      (Tag.mark_is _ _) (by simp) .none (by simp) (Tag.mark_is _ _) (Tag.mark_is _ _) (by simp)
      (Tag.mark_is _ _)
  have phrase : Phrase .strict .primary [name] (.reference name) [] := .name (Tag.mark_is _ _)
  have prints : Sentence .strict (.statement false) print (.print (.reference name)) [] :=
    .print (Tag.mark_is _ _) phrase.of_primary (Tag.mark_is _ _)
  have program : Program .strict (declaration ++ print)
      [.function name [] [], .print (.reference name)] [] := by
    simpa using (Program.nil.cons (.statement prints)).cons declares
  have accepted : (Source.tokens (declaration ++ print)).program? =
      .ok [.function name [] [], .print (.reference name)] :=
    (Source.program?_tokens_eq_ok (by decide)).mpr program
  have only : ∀ token ∈ declaration ++ print, token.is .identifier = true → token.lexeme = "f" := by
    simp [declaration, print, name, Tag.mark, Token.is, Kind.tag?]
  have injective : Set.InjOn change (insert "clock" (identifiers (declaration ++ print))) := by
    have few : identifiers (declaration ++ print) ⊆ {"f"} := by
      rintro _ ⟨token, member, found, rfl⟩
      exact only token member found
    refine Set.InjOn.mono (Set.insert_subset_insert few) ?_
    simp [Set.InjOn, change]
  obtain ⟨renamed, accepted', runs⟩ := names_are_labels accepted injective rfl
  obtain ⟨_, texts, _⟩ := runs 3 (fun _ => 0) .unlimited rfl
  refine ⟨_, change, renamed, accepted', rfl, texts.trans ?_⟩
  let declared : Callable := .declared ⟨name, [], []⟩ globalScope
  obtain ⟨middle, ended, bound⟩ : ∃ middle,
      execute 3 (.function name [] []) (.fresh (fun _ => 0) .unlimited) = .done .normal middle ∧
        evaluate 2 (.reference name) middle = .done (.function 1 declared) middle := by
    refine ⟨_, rfl, ?_⟩
    show Eval.lookUp name _ = _
    rw [Eval.lookUp, ScopeTree.get?, ScopeTree.owner?_eq]
    rfl
  have told : programPrints 3 [.function name [] [], .print (.reference name)]
      (.fresh (fun _ => 0) .unlimited) = [⟨.function 1 declared, middle.heap⟩] := by
    simp only [programPrints, printsInOrder, ended, Result.thenPrints, Stmt.prints, Expr.prints,
      bound, List.nil_append]
    cases execute 3 (.print (.reference name)) middle with
    | done flow after => cases flow <;> rfl
    | failed | exhausted => rfl
  rw [told]
  simp [Printed.textUnder, Value.textShowing, Callable.textUnder, declared, change, name, Tag.mark]

end Script
