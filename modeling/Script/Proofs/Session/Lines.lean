import Mathlib.Data.List.Basic
import Mathlib.Data.List.TakeWhile
import Script.Command.Repl
import Script.Proofs.Text.Decoding

/-! Input that is lines of text, and that the prompt reads these lines. Line ends are single bytes
that occur inside no other character, so bytes are cut where the text is. -/

namespace Script

/-- Input that is lines of text. A line ends with a line feed, before which a carriage return may
stand; the last may have no end. -/
inductive Repl.Typed : List UInt8 → List String → Prop where
  | nothing : Typed [] []
  | unended {line : String} (present : line ≠ "") (whole : '\n' ∉ line.toList) :
      Typed line.toUTF8.toList [line]
  | ended {line : String} {rest : List UInt8} {others : List String} (whole : '\n' ∉ line.toList)
      (bare : line.toList.getLast? ≠ some '\r') (next : Typed rest others) :
      Typed ((line ++ "\n").toUTF8.toList ++ rest) (line :: others)
  | returned {line : String} {rest : List UInt8} {others : List String}
      (whole : '\n' ∉ line.toList) (next : Typed rest others) :
      Typed ((line ++ "\r\n").toUTF8.toList ++ rest) (line :: others)

namespace Utf8

theorem encode_ne_nil {text : String} (present : text ≠ "") : encode text ≠ [] := by
  intro none
  have empty : encode "" = [] := by rw [encode_eq]; rfl
  have same : decode (encode text) = decode (encode "") := by rw [none, empty]
  rw [decode_encode, decode_encode] at same
  exact present (Except.ok.inj same)

theorem lineEnd_not_mem_encode {text : String} (whole : '\n' ∉ text.toList) :
    0x0A ∉ encode text := by
  have none := count_spell text.toList
  rw [List.count_eq_zero.mpr whole, ← encode_eq] at none
  exact List.count_eq_zero.mp none

theorem getLast?_encode_ne {text : String} (bare : text.toList.getLast? ≠ some '\r') :
    (encode text).getLast? ≠ some 0x0D := by
  rw [encode_eq]
  rcases List.eq_nil_or_concat text.toList with none | ⟨before, last, split⟩
  · simp [none]
  · rw [split, List.concat_eq_append] at bare ⊢
    have different : last ≠ '\r' := by simpa using bare
    rw [spell_append, spell_cons, spell_nil, List.append_nil,
      List.getLast?_append_of_ne_nil _ (utf8EncodeChar_ne_nil last)]
    intro returns
    have among := List.mem_of_getLast? returns
    by_cases ascii : last.toNat < 128
    · rw [utf8EncodeChar_ascii ascii, List.mem_singleton] at among
      apply different
      rw [← ofUInt8_toUInt8 ascii, ← among]
      rfl
    · exact absurd (mem_utf8EncodeChar_wide (Nat.le_of_not_lt ascii) among) (by decide)

end Utf8

namespace Repl

variable {line : List UInt8}

private theorem passes_of_whole (whole : 0x0A ∉ line) : ∀ byte ∈ line, (byte != 0x0A) = true := by
  intro byte member
  exact bne_iff_ne.mpr fun same => whole (same ▸ member)

/-- A line goes up to its line feed, and a carriage return before that is no part of it. -/
theorem lines_cons (whole : 0x0A ∉ line) (rest : List UInt8) :
    lines (line ++ 0x0A :: rest) =
      (if line.getLast? = some 0x0D then line.dropLast else line) :: lines rest := by
  have passes := passes_of_whole whole
  have taken : (line ++ 0x0A :: rest).takeWhile (· != 0x0A) = line := by
    rw [List.takeWhile_append_of_pos passes, List.takeWhile_cons_of_neg (by decide),
      List.append_nil]
  have left : (line ++ 0x0A :: rest).dropWhile (· != 0x0A) = 0x0A :: rest := by
    rw [List.dropWhile_append_of_pos passes, List.dropWhile_cons_of_neg (by decide)]
  rw [lines]
  split
  · rename_i found
    rw [left] at found
    cases found
  · rename_i first after found
    rw [left] at found
    obtain ⟨_, rfl⟩ := List.cons.inj found
    dsimp only
    rw [taken]

theorem lines_unended (present : line ≠ []) (whole : 0x0A ∉ line) : lines line = [line] := by
  have left : line.dropWhile (· != 0x0A) = [] :=
    List.dropWhile_eq_nil_iff.mpr (passes_of_whole whole)
  rw [lines]
  split
  · simp [present]
  · rename_i found
    rw [left] at found
    cases found

/-- The lines that were typed are the lines that are read. -/
theorem Typed.lines_eq {input : List UInt8} {texts : List String} (typed : Typed input texts) :
    (lines input).map Utf8.decode = texts.map .ok := by
  induction typed with
  | nothing => simp [lines]
  | @unended line present whole =>
    show (lines (Utf8.encode line)).map Utf8.decode = _
    rw [lines_unended (Utf8.encode_ne_nil present) (Utf8.lineEnd_not_mem_encode whole),
      List.map_singleton, Utf8.decode_encode, List.map_singleton]
  | @ended line rest others whole bare next ih =>
    have bytes : (line ++ "\n").toUTF8.toList ++ rest = Utf8.encode line ++ 0x0A :: rest := by
      show Utf8.encode (line ++ "\n") ++ rest = _
      rw [Utf8.encode_append, Utf8.encode_eq "\n", List.append_assoc]
      rfl
    rw [bytes, lines_cons (Utf8.lineEnd_not_mem_encode whole),
      if_neg (Utf8.getLast?_encode_ne bare), List.map_cons, Utf8.decode_encode, List.map_cons, ih]
  | @returned line rest others whole next ih =>
    have bytes : (line ++ "\r\n").toUTF8.toList ++ rest =
        (Utf8.encode line ++ [0x0D]) ++ 0x0A :: rest := by
      show Utf8.encode (line ++ "\r\n") ++ rest = _
      rw [Utf8.encode_append, Utf8.encode_eq "\r\n", List.append_assoc, List.append_assoc]
      rfl
    have whole' : 0x0A ∉ Utf8.encode line ++ [0x0D] := by
      simpa using Utf8.lineEnd_not_mem_encode whole
    rw [bytes, lines_cons whole', if_pos List.getLast?_concat, List.dropLast_concat,
      List.map_cons, Utf8.decode_encode, List.map_cons, ih]

end Repl

end Script
