import Script.Proofs.Text.Encoding
import Script.Proofs.Token.Numeral
import Script.Proofs.Token.Stretch

/-! The cursor over the bytes of a text stops between characters only, and reads what is cut from
the characters there. -/

namespace Script
namespace Scan

open Utf8

section Wide

variable {char : Char} (wide : 128 ≤ char.toNat)

include wide in
theorem wide_ne {other : Char} (ascii : other.toNat < 128) : char ≠ other := by
  rintro rfl
  omega

include wide in
theorem isDigit_wide : isDigit char = false := by
  apply Bool.eq_false_iff.mpr
  intro digit
  have bounds := Numeral.digit_bounds digit
  omega

include wide in
theorem beginsWord_wide : beginsWord char = false := by
  have above {bound : Char} (ascii : bound.toNat < 128) : ¬char ≤ bound := by
    intro below
    have below : char.toNat ≤ bound.toNat := below
    omega
  have noLower : ¬char ≤ 'z' := above (by decide)
  have noUpper : ¬char ≤ 'Z' := above (by decide)
  have noMark : char ≠ '_' := wide_ne wide (by decide)
  simp [beginsWord, noLower, noUpper, noMark]

include wide in
theorem isBlank_wide : isBlank char = false := by
  have noSpace : char ≠ ' ' := wide_ne wide (by decide)
  have noReturn : char ≠ '\r' := wide_ne wide (by decide)
  have noTab : char ≠ '\t' := wide_ne wide (by decide)
  simp [isBlank, noSpace, noReturn, noTab]

include wide in
theorem mark?_wide : mark? char = none := by
  unfold mark?
  split <;> first | rfl | exact absurd wide (by decide)

include wide in
theorem equalsPair?_wide : equalsPair? char = none := by
  unfold equalsPair?
  split <;> first | rfl | exact absurd wide (by decide)

end Wide

theorem blind_isDigit : Blind isDigit := by
  intro first second wide wide'
  rw [isDigit_wide wide, isDigit_wide wide']

theorem blind_continuesWord : Blind continuesWord := by
  intro first second wide wide'
  rw [continuesWord, continuesWord, beginsWord_wide wide, beginsWord_wide wide', isDigit_wide wide,
    isDigit_wide wide']

theorem blind_ne {char : Char} (ascii : char.toNat < 128) : Blind (· != char) := by
  intro first second wide wide'
  exact (bne_iff_ne.mpr (wide_ne wide ascii)).trans (bne_iff_ne.mpr (wide_ne wide' ascii)).symm

namespace Cursor

/-- The first byte of a character outside ASCII is no ASCII byte. -/
theorem wide_head {char : Char} (wide : 128 ≤ char.toNat) {byte : UInt8}
    {rest : List Char} {more : List UInt8} (bytes : spell (char :: rest) = byte :: more) :
    128 ≤ (Char.ofUInt8 byte).toNat := by
  rw [toNat_ofUInt8]
  apply mem_utf8EncodeChar_wide wide
  rw [spell_cons, List.append_eq_cons_iff] at bytes
  rcases bytes with ⟨none, _⟩ | ⟨others, some, _⟩
  · exact absurd none (utf8EncodeChar_ne_nil char)
  · simp [some]

theorem ascii_head {char : Char} (ascii : char.toNat < 128) {byte : UInt8}
    {rest : List Char} {more : List UInt8} (bytes : spell (char :: rest) = byte :: more) :
    Char.ofUInt8 byte = char ∧ more = spell rest := by
  rw [spell_cons, utf8EncodeChar_ascii ascii, List.singleton_append, List.cons.injEq] at bytes
  exact ⟨bytes.1 ▸ ofUInt8_toUInt8 ascii, bytes.2.symm⟩

theorem spell_cons_ascii {char : Char} (ascii : char.toNat < 128) (rest : List Char) :
    spell (char :: rest) = char.toUInt8 :: spell rest := by
  rw [spell_cons, utf8EncodeChar_ascii ascii, List.singleton_append]

theorem isBlank_ascii {char : Char} (blank : isBlank char = true) : char.toNat < 128 := by
  rcases isBlank_iff.mp blank with rfl | rfl | rfl <;> decide

/-- The trivia skipped byte by byte is the trivia skipped character by character. -/
theorem skip_spell (position line : Nat) (text : List Char) :
    (skip position line (spell text)).1 + (spell (skipTrivia line text).2).length =
        position + (spell text).length ∧
      (skip position line (spell text)).2 = (skipTrivia line text).1 := by
  fun_induction skipTrivia line text generalizing position with
  | case1 => simp [skip]
  | case2 line rest ih =>
    obtain ⟨place, stop⟩ := ih (position + 1)
    have newline : Char.ofUInt8 '\n'.toUInt8 = '\n' := rfl
    rw [spell_cons_ascii (by decide), skip, newline, if_neg (by decide), if_pos rfl]
    refine ⟨?_, stop⟩
    rw [place, List.length_cons]
    omega
  | case3 line rest ih =>
    have slash : Char.ofUInt8 '/'.toUInt8 = '/' := rfl
    have next : look (spell ('/' :: rest)) 0 = '/' :=
      (look_spell_eq (by decide) (by decide) _).mpr rfl
    have parts := congrArg List.length (congrArg spell
      (List.takeWhile_append_dropWhile (p := (· != '\n')) (l := '/' :: rest)))
    have blind : Blind (· != '\n') := blind_ne (by decide)
    rw [spell_append, List.length_append, List.dropWhile_cons_of_pos (by decide)] at parts
    rw [spell_cons_ascii (by decide), skip, slash, if_neg (by decide), if_neg (by decide),
      if_pos ⟨rfl, next⟩]
    dsimp only
    rw [drop_run_spell blind, List.dropWhile_cons_of_pos (by decide)]
    obtain ⟨place, stop⟩ :=
      ih (position + 1 + (run (· != '\n') (spell ('/' :: rest))).length)
    refine ⟨?_, stop⟩
    rw [place, run_spell blind, List.length_cons]
    omega
  | case4 line char rest noEnd _ blank ih =>
    have ascii := isBlank_ascii blank
    obtain ⟨place, stop⟩ := ih (position + 1)
    rw [spell_cons_ascii ascii, skip, ofUInt8_toUInt8 ascii, if_pos blank]
    refine ⟨?_, stop⟩
    rw [place, List.length_cons]
    omega
  | case5 line char rest noEnd noComment solid =>
    have stays : skip position line (spell (char :: rest)) = (position, line) := by
      cases bytes : spell (char :: rest) with
      | nil => rw [skip]
      | cons byte more =>
        rw [skip]
        by_cases ascii : char.toNat < 128
        · obtain ⟨same, left⟩ := ascii_head ascii bytes
          rw [same, left, if_neg solid, if_neg noEnd, if_neg]
          rintro ⟨slash, next⟩
          obtain ⟨others, behind⟩ := List.head?_eq_some_iff.mp
            ((look_spell_eq (by decide) (by decide) _).mp next)
          exact noComment others slash behind
        · have wide := wide_head (Nat.le_of_not_lt ascii) bytes
          rw [if_neg (Bool.eq_false_iff.mp (isBlank_wide wide)),
            if_neg (wide_ne wide (by decide)), if_neg]
          rintro ⟨slash, _⟩
          exact wide_ne wide (by decide) slash
    rw [stays]
    exact ⟨rfl, rfl⟩

theorem bytesFrom_spell {text : String} {before rest : List Char}
    (parts : text.toList = before ++ rest) :
    bytesFrom text (spell before).length = spell rest := by
  rw [bytesFrom, encode_eq, parts, spell_append, List.drop_left]

theorem length_spell_ascii (before : List Char) {char : Char} (ascii : char.toNat < 128) :
    (spell (before ++ [char])).length = (spell before).length + 1 := by
  rw [spell_append, List.length_append, spell_cons_ascii ascii]
  rfl

theorem newlines_takeWhile {keep : Char → Bool} (stops : keep '\n' = false) (text : List Char) :
    newlines (text.takeWhile keep) = 0 := by
  apply List.count_eq_zero.mpr
  intro among
  have kept := List.all_eq_true.mp List.all_takeWhile _ among
  rw [stops] at kept
  cases kept

/-- What the cursor should read where a cut begins. -/
def Reading.ofCut (before : List Char) (cut : Cut) : Reading :=
  ⟨cut.found, (spell before).length + (spell cut.span).length, newlines cut.span⟩

variable {text : String} {before rest : List Char}

theorem readString?_spell (parts : text.toList = before ++ '"' :: rest) :
    readString? text (spell before).length = some (.ofCut before (cutString rest)) := by
  have blind : Blind (· != '"') := blind_ne (by decide)
  have opened : text.toList = (before ++ ['"']) ++ rest := by
    rw [parts, List.append_assoc, List.singleton_append]
  have start : (spell (before ++ ['"'])).length = (spell before).length + 1 :=
    length_spell_ascii before (by decide)
  have size : (encode text).length = (spell before).length + 1 + (spell rest).length := by
    rw [encode_eq, opened, spell_append, List.length_append, start]
  have body := List.takeWhile_append_dropWhile (p := (· != '"')) (l := rest)
  have lengths := congrArg List.length (congrArg spell body)
  rw [spell_append, List.length_append] at lengths
  rw [readString?, ← start, bytesFrom_spell opened, run_spell blind, count_spell, start]
  unfold cutString
  cases found : rest.dropWhile (· != '"') with
  | nil =>
    rw [found, spell_nil, List.length_nil, Nat.add_zero] at lengths
    rw [found, List.append_nil] at body
    rw [if_pos (by omega), lengths, body, Reading.ofCut, spell_cons_ascii (by decide),
      List.length_cons, newlines_cons (by decide), Nat.add_right_comm]
    rfl
  | cons quote after =>
    have closing := List.head?_dropWhile_not (· != '"') rest
    rw [found, List.head?_cons] at closing
    have closing : quote = '"' := by simpa using closing
    subst closing
    rw [found, spell_cons_ascii (by decide), List.length_cons] at lengths
    rw [found] at body
    have inner : text.toList =
        (before ++ ['"']) ++ (rest.takeWhile (· != '"') ++ '"' :: after) := by
      rw [body, opened]
    rw [if_neg (by omega), ← start, slice?_spell inner, Option.map_some]
    dsimp only
    have stop : (spell ('"' :: (rest.takeWhile (· != '"') ++ ['"']))).length =
        (spell (rest.takeWhile (· != '"'))).length + 2 := by
      rw [spell_cons_ascii (by decide), List.length_cons, spell_append, List.length_append]
      rfl
    have lines : newlines ('"' :: (rest.takeWhile (· != '"') ++ ['"'])) =
        newlines (rest.takeWhile (· != '"')) := by
      rw [newlines_cons (by decide), newlines_append]
      rfl
    have place : (spell before).length + ((spell (rest.takeWhile (· != '"'))).length + 2) =
        (spell before).length + 1 + (spell (rest.takeWhile (· != '"'))).length + 1 := by omega
    rw [Reading.ofCut, stop, lines, start, place]
    rfl

/-- A point with a digit behind it, as the next two bytes show it. -/
theorem look_point (rest : List Char) :
    look (spell rest) 0 = '.' ∧ isDigit (look (spell rest) 1) = true ↔
      ∃ digit others, rest = '.' :: digit :: others ∧ isDigit digit = true := by
  have digits (rest : List Char) : isDigit (look (spell rest) 0) = rest.head?.any isDigit :=
    look_spell (fun _ => isDigit_wide) (by decide) rest
  constructor
  · rintro ⟨point, digit⟩
    obtain ⟨after, rfl⟩ := List.head?_eq_some_iff.mp
      ((look_spell_eq (by decide) (by decide) rest).mp point)
    rw [spell_cons_ascii (by decide)] at digit
    have digit : isDigit (look (spell after) 0) = true := digit
    rw [digits] at digit
    cases after with
    | nil => cases digit
    | cons next others => exact ⟨next, others, rfl, digit⟩
  · rintro ⟨digit, others, rfl, isDigit⟩
    refine ⟨(look_spell_eq (by decide) (by decide) _).mpr rfl, ?_⟩
    rw [spell_cons_ascii (by decide)]
    exact (digits (digit :: others)).trans isDigit

theorem all_takeWhile (keep : Char → Bool) (text : List Char) :
    ∀ char ∈ text.takeWhile keep, keep char = true :=
  fun _ among => List.all_eq_true.mp List.all_takeWhile _ among

theorem readNumber?_spell {first : Char} (parts : text.toList = before ++ first :: rest)
    (digit : isDigit first = true) :
    readNumber? text (spell before).length =
      some (.ofCut before (cutNumber (first :: rest))) := by
  have split := List.takeWhile_append_dropWhile (p := isDigit) (l := first :: rest)
  have present : (first :: rest).takeWhile isDigit ≠ [] := by
    rw [List.takeWhile_cons_of_pos digit]
    exact List.cons_ne_nil _ _
  have all := all_takeWhile isDigit (first :: rest)
  have noLines (text : List Char) : newlines (text.takeWhile isDigit) = 0 :=
    newlines_takeWhile (by decide) text
  have behind : text.toList = (before ++ (first :: rest).takeWhile isDigit) ++
      (first :: rest).dropWhile isDigit := by
    rw [List.append_assoc, split, parts]
  have whole : (spell (before ++ (first :: rest).takeWhile isDigit)).length =
      (spell before).length + (spell ((first :: rest).takeWhile isDigit)).length := by
    rw [spell_append, List.length_append]
  rw [readNumber?, bytesFrom_spell parts, run_spell blind_isDigit, ← whole,
    bytesFrom_spell behind]
  rcases Numeral.cutNumber_cases (first :: rest) with
    ⟨next, others, found, more, same⟩ | ⟨noFraction, same⟩
  · rw [if_pos ((look_point _).mpr ⟨next, others, found, more⟩)]
    have pointed : text.toList =
        (before ++ (first :: rest).takeWhile isDigit ++ ['.']) ++ (next :: others) := by
      rw [behind, found, List.append_assoc, List.append_assoc, List.append_assoc,
        List.singleton_append]
    have fraction := List.takeWhile_append_dropWhile (p := isDigit) (l := next :: others)
    have lexeme : text.toList = before ++
        (((first :: rest).takeWhile isDigit ++ '.' :: (next :: others).takeWhile isDigit) ++
          (next :: others).dropWhile isDigit) := by
      rw [List.append_assoc, List.cons_append, fraction, ← found, split, parts]
    have stop : (spell before).length +
        (spell ((first :: rest).takeWhile isDigit ++
          '.' :: (next :: others).takeWhile isDigit)).length =
        (spell (before ++ (first :: rest).takeWhile isDigit)).length + 1 +
          (spell ((next :: others).takeWhile isDigit)).length := by
      rw [whole, spell_append, List.length_append, spell_cons_ascii (by decide), List.length_cons]
      omega
    have point : (spell (before ++ (first :: rest).takeWhile isDigit ++ ['.'])).length =
        (spell (before ++ (first :: rest).takeWhile isDigit)).length + 1 :=
      length_spell_ascii _ (by decide)
    rw [← point, bytesFrom_spell pointed, run_spell blind_isDigit, point]
    rw [← stop, slice?_spell lexeme, Option.map_some, String.toList_ofList,
      Numeral.value?_fraction present all (all_takeWhile isDigit _), same, Reading.ofCut,
      newlines_append, newlines_cons (by decide), noLines, noLines]
    rfl
  · rw [if_neg (noFraction ∘ (look_point _).mp)]
    have lexeme : text.toList = before ++
        ((first :: rest).takeWhile isDigit ++ (first :: rest).dropWhile isDigit) := by
      rw [split, parts]
    rw [whole, slice?_spell lexeme, Option.map_some, String.toList_ofList,
      Numeral.value?_whole present all, same, Reading.ofCut, noLines]
    rfl

theorem readWord?_spell (parts : text.toList = before ++ rest) :
    readWord? text (spell before).length = some (.ofCut before (cutWord rest)) := by
  have split := List.takeWhile_append_dropWhile (p := continuesWord) (l := rest)
  have lexeme : text.toList =
      before ++ (rest.takeWhile continuesWord ++ rest.dropWhile continuesWord) := by
    rw [split, parts]
  rw [readWord?, bytesFrom_spell parts, run_spell blind_continuesWord, slice?_spell lexeme,
    Option.map_some, Reading.ofCut, cutWord, newlines_takeWhile (by decide)]

theorem readUnexpected?_spell {first : Char} (parts : text.toList = before ++ first :: rest)
    (noEnd : first ≠ '\n') (byte : UInt8) :
    readUnexpected? text (spell before).length byte =
      some (.ofCut before ⟨.error (.unexpected first), [first], rest⟩) := by
  have size : (encode text).length = (spell before).length + (spell (first :: rest)).length := by
    rw [encode_eq, parts, spell_append, List.length_append]
  have whole : text.toList = before ++ ((first :: rest) ++ []) := by
    rw [List.append_nil, parts]
  have one : (spell [first]).length = first.utf8Size := by
    rw [spell_cons, spell_nil, List.append_nil, String.length_utf8EncodeChar]
  rw [readUnexpected?, size, slice?_spell whole, Option.map_some, String.toList_ofList,
    List.head?_cons, Option.getD_some, Reading.ofCut, one, newlines_cons noEnd]
  rfl

/-- What the cursor reads at a character that begins no trivia is what is cut there. -/
theorem read?_spell {first : Char} (parts : text.toList = before ++ first :: rest)
    (noEnd : first ≠ '\n') {byte : UInt8} {more : List UInt8}
    (bytes : spell (first :: rest) = byte :: more) :
    read? text (spell before).length byte = some (.ofCut before (cut first rest)) := by
  by_cases ascii : first.toNat < 128
  · obtain ⟨same, _⟩ := ascii_head ascii bytes
    have one : (spell [first]).length = 1 := by rw [spell_cons_ascii ascii]; rfl
    have behind : text.toList = (before ++ [first]) ++ rest := by
      rw [parts, List.append_assoc, List.singleton_append]
    rw [read?, same, cut]
    cases marked : mark? first with
    | some tag =>
      dsimp only
      rw [Reading.ofCut, one, newlines_cons noEnd]
      rfl
    | none =>
      cases paired : equalsPair? first with
      | some pair =>
        obtain ⟨single, double⟩ := pair
        dsimp only
        rw [← length_spell_ascii before ascii, bytesFrom_spell behind]
        have equals : look (spell rest) 0 = '=' ↔ rest.head? = some '=' :=
          look_spell_eq (by decide) (by decide) rest
        by_cases joined : rest.head? = some '='
        · obtain ⟨after, rfl⟩ := List.head?_eq_some_iff.mp joined
          have two : (spell [first, '=']).length = 2 := by rw [spell_cons_ascii ascii]; rfl
          have noLines : newlines [first, '='] = 0 := by rw [newlines_cons noEnd]; rfl
          have both : Reading.ofCut before ⟨.ok (.plain double), [first, '='], after⟩ =
              ⟨.ok (.plain double), (spell before).length + 2, 0⟩ := by
            rw [Reading.ofCut, two, noLines]
          rw [if_pos (equals.mpr joined)]
          exact congrArg some both.symm
        · rw [if_neg (joined ∘ equals.mp), length_spell_ascii before ascii]
          have alone : newlines [first] = 0 := by rw [newlines_cons noEnd]; rfl
          split
          · exact absurd rfl joined
          · rw [Reading.ofCut, one, alone]
      | none =>
        dsimp only
        split
        · rename_i quotes
          subst quotes
          exact readString?_spell parts
        · split
          · rename_i digit
            exact readNumber?_spell parts digit
          · split
            · exact readWord?_spell parts
            · exact readUnexpected?_spell parts noEnd byte
  · have wide := Nat.le_of_not_lt ascii
    have wide' := wide_head wide bytes
    have noQuote {char : Char} (wide : 128 ≤ char.toNat) : char ≠ '"' := wide_ne wide (by decide)
    rw [read?, cut, mark?_wide wide', equalsPair?_wide wide', mark?_wide wide,
      equalsPair?_wide wide]
    dsimp only
    rw [if_neg (noQuote wide), if_neg (noQuote wide'), isDigit_wide wide, isDigit_wide wide',
      beginsWord_wide wide, beginsWord_wide wide']
    exact readUnexpected?_spell parts noEnd byte

/-- Where the skipped trivia ends. -/
theorem skip_trivia {trivia behind : List Char} {line start : Nat}
    (trimmed : skipTrivia line (trivia ++ behind) = (start, behind)) (before : List Char) :
    skip (spell before).length line (spell (trivia ++ behind)) =
      ((spell (before ++ trivia)).length, start) := by
  obtain ⟨place, stop⟩ := skip_spell (spell before).length line (trivia ++ behind)
  rw [trimmed, spell_append, List.length_append] at place
  rw [trimmed] at stop
  rw [spell_append] at stop ⊢
  have there : (spell (before ++ trivia)).length =
      (spell before).length + (spell trivia).length := by
    rw [spell_append, List.length_append]
  apply Prod.ext
  · dsimp only at place ⊢
    omega
  · exact stop

/-- A call in front of nothing but trivia gives the end of the text. -/
theorem next?_end {trivia : List Char} {line last : Nat}
    (parts : text.toList = before ++ (trivia ++ []))
    (trimmed : skipTrivia line (trivia ++ []) = (last, [])) :
    next? text ⟨(spell before).length, line, false⟩ =
      some (some (.ok ⟨.plain .endOfText, "", last⟩),
        ⟨(spell (before ++ trivia)).length, last, true⟩) := by
  have moved : text.toList = (before ++ trivia) ++ [] := by
    rw [parts, List.append_assoc]
  rw [next?, if_neg Bool.false_ne_true]
  dsimp only
  rw [bytesFrom_spell parts, skip_trivia trimmed]
  dsimp only
  rw [bytesFrom_spell moved]
  rfl

/-- A call in front of a lexeme or a fault gives what is cut there and moves behind it. -/
theorem next?_cut {trivia behind : List Char} {line start : Nat} {first : Char}
    (parts : text.toList = before ++ (trivia ++ first :: behind))
    (trimmed : skipTrivia line (trivia ++ first :: behind) = (start, first :: behind))
    (noEnd : first ≠ '\n') :
    next? text ⟨(spell before).length, line, false⟩ =
      some (some (Piece.item ⟨(cut first behind).found, (cut first behind).span,
          start + (cut first behind).span.count '\n'⟩),
        ⟨(spell (before ++ trivia ++ (cut first behind).span)).length,
          start + (cut first behind).span.count '\n', false⟩) := by
  have covered := cut_covers first behind
  have moved : text.toList = (before ++ trivia) ++ first :: behind := by
    rw [parts, List.append_assoc]
  have lexeme : text.toList =
      (before ++ trivia) ++ ((cut first behind).span ++ (cut first behind).rest) := by
    rw [covered, moved]
  have stop : (spell (before ++ trivia ++ (cut first behind).span)).length =
      (spell (before ++ trivia)).length + (spell (cut first behind).span).length := by
    rw [spell_append, List.length_append]
  rw [next?, if_neg Bool.false_ne_true]
  dsimp only
  rw [bytesFrom_spell parts, skip_trivia trimmed]
  dsimp only
  rw [bytesFrom_spell moved]
  cases bytes : spell (first :: behind) with
  | nil =>
    rw [spell_cons, List.append_eq_nil_iff] at bytes
    exact absurd bytes.1 (utf8EncodeChar_ne_nil first)
  | cons byte more =>
    dsimp only
    rw [read?_spell moved noEnd bytes, stop]
    simp only [Option.bind_eq_bind, Option.bind_some, Reading.ofCut, slice?_spell lexeme,
      Piece.item]
    cases (cut first behind).found <;> rfl

/-- Once the end of the text has been given, nothing more is. -/
theorem calls?_finished (count position line : Nat) :
    calls? text count ⟨position, line, true⟩ = some (List.replicate count none) := by
  induction count with
  | zero => rfl
  | succ count ih =>
    rw [calls?, next?, if_pos rfl]
    simp only [Option.bind_eq_bind, Option.bind_some, ih]
    rfl

/-- The calls from a place between two characters give the items behind it, and then nothing. -/
theorem calls?_spell (parts : text.toList = before ++ rest) (line more : Nat) :
    calls? text ((pieces line rest).length + more) ⟨(spell before).length, line, false⟩ =
      some ((pieces line rest).map (some ∘ Piece.item) ++ List.replicate more none) := by
  induction total : rest.length using Nat.strongRecOn generalizing before rest line with
  | ind size ih =>
    obtain ⟨trivia, split, _⟩ := skipTrivia_split line rest
    have shorter := skipTrivia_length line rest
    have solid := skipTrivia_solid line rest
    rw [pieces_eq]
    generalize trimmed : skipTrivia line rest = skipped at split shorter solid ⊢
    obtain ⟨start, behind⟩ := skipped
    dsimp only at split shorter solid
    rw [split] at trimmed parts
    cases behind with
    | nil =>
      dsimp only
      rw [List.length_singleton, Nat.add_comm, calls?, next?_end parts trimmed]
      simp only [Option.bind_eq_bind, Option.bind_some, calls?_finished]
      rfl
    | cons first behind =>
      have noEnd : first ≠ '\n' := by
        rintro rfl
        exact solid ⟨['\n'], behind, rfl, List.cons_ne_nil _ _, .lineEnd (.nothing _)⟩
      have taken := cut_rest_length first behind
      have left : text.toList =
          (before ++ trivia ++ (cut first behind).span) ++ (cut first behind).rest := by
        rw [List.append_assoc, cut_covers, parts, List.append_assoc]
      have rest := ih _ (by rw [List.length_cons] at shorter; omega) left
        (start + (cut first behind).span.count '\n') rfl
      dsimp only
      rw [List.length_cons, Nat.add_right_comm, calls?, next?_cut parts trimmed noEnd]
      simp only [Option.bind_eq_bind, Option.bind_some, rest]
      rfl

end Cursor
end Scan
end Script
