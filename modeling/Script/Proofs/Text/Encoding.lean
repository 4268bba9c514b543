import Script.Token.Cursor

/-! The bytes of a text, character by character. A character outside ASCII has no ASCII byte, so
what is read byte by byte up to an ASCII character is what is read character by character. -/

namespace Script
namespace Utf8

/-- The bytes of characters in a row. -/
def spell (chars : List Char) : List UInt8 := chars.flatMap String.utf8EncodeChar

@[simp]
theorem spell_nil : spell [] = [] := rfl

theorem spell_cons (char : Char) (rest : List Char) :
    spell (char :: rest) = String.utf8EncodeChar char ++ spell rest := rfl

theorem spell_append (first second : List Char) :
    spell (first ++ second) = spell first ++ spell second := List.flatMap_append

theorem toList_loop (bytes : ByteArray) (index : Nat) (read : List UInt8) :
    ByteArray.toList.loop bytes index read = read.reverse ++ bytes.data.toList.drop index := by
  fun_induction ByteArray.toList.loop bytes index read with
  | case1 index read inside ih =>
    have inside : index < bytes.data.toList.length := inside
    have found : bytes.get! index = bytes.data.toList[index] :=
      getElem!_pos bytes.data index inside
    rw [ih, List.drop_eq_getElem_cons inside, List.reverse_cons, List.append_assoc, found]
    rfl
  | case2 index read outside =>
    have outside : bytes.data.toList.length ≤ index := Nat.le_of_not_lt outside
    rw [List.drop_eq_nil_of_le outside, List.append_nil]

theorem toList_eq (bytes : ByteArray) : bytes.toList = bytes.data.toList :=
  toList_loop bytes 0 []

theorem spell_eq (chars : List Char) : spell chars = chars.utf8Encode.data.toList :=
  (List.toList_data_toByteArray).symm

theorem encode_eq (text : String) : encode text = spell text.toList := by
  obtain ⟨chars, rfl⟩ := text.exists_eq_ofList
  rw [encode, toList_eq, spell_eq, String.toUTF8_eq_toByteArray, String.toByteArray_ofList,
    String.toList_ofList]

theorem utf8ByteSize_ofList (chars : List Char) :
    (String.ofList chars).utf8ByteSize = (spell chars).length := by
  rw [← String.size_toByteArray, String.toByteArray_ofList, spell_eq, Array.length_toList]
  rfl

theorem utf8EncodeChar_ascii {char : Char} (ascii : char.toNat < 128) :
    String.utf8EncodeChar char = [char.toUInt8] := by
  have small : char.val.toNat ≤ 0x7f := Nat.le_of_lt_succ ascii
  rw [String.utf8EncodeChar, if_pos small]
  rfl

/-- A character outside ASCII has no ASCII byte. -/
theorem mem_utf8EncodeChar_wide {char : Char} (wide : 128 ≤ char.toNat) {byte : UInt8}
    (among : byte ∈ String.utf8EncodeChar char) : 128 ≤ byte.toNat := by
  have large : ¬char.val.toNat ≤ 0x7f := Nat.not_le_of_lt wide
  rw [String.utf8EncodeChar] at among
  simp only [large, ↓reduceIte] at among
  split at among
  · simp only [List.mem_cons, List.not_mem_nil, or_false] at among
    rcases among with rfl | rfl <;> rw [UInt8.toNat_ofNat'] <;> omega
  · split at among
    · simp only [List.mem_cons, List.not_mem_nil, or_false] at among
      rcases among with rfl | rfl | rfl <;> rw [UInt8.toNat_ofNat'] <;> omega
    · simp only [List.mem_cons, List.not_mem_nil, or_false] at among
      rcases among with rfl | rfl | rfl | rfl <;> rw [UInt8.toNat_ofNat'] <;> omega

theorem toNat_ofUInt8 (byte : UInt8) : (Char.ofUInt8 byte).toNat = byte.toNat :=
  UInt8.toNat_toUInt32 byte

theorem ofUInt8_toUInt8 {char : Char} (ascii : char.toNat < 128) :
    Char.ofUInt8 char.toUInt8 = char := by
  have byte : char.toUInt8.toNat = char.toNat % 256 := UInt32.toNat_toUInt8 char.val
  apply Char.toNat_inj.mp
  rw [toNat_ofUInt8, byte]
  omega

theorem utf8EncodeChar_ne_nil (char : Char) : String.utf8EncodeChar char ≠ [] :=
  String.utf8EncodeChar_ne_nil

/-- The line ends of a text are its newline bytes. -/
theorem count_spell (chars : List Char) :
    (spell chars).count '\n'.toUInt8 = chars.count '\n' := by
  induction chars with
  | nil => rfl
  | cons char rest ih =>
    have bytes : (String.utf8EncodeChar char).count '\n'.toUInt8 =
        if char == '\n' then 1 else 0 := by
      by_cases lineEnd : char = '\n'
      · subst lineEnd
        rfl
      · rw [if_neg (by simpa using lineEnd)]
        apply List.count_eq_zero.mpr
        intro among
        by_cases ascii : char.toNat < 128
        · rw [utf8EncodeChar_ascii ascii, List.mem_singleton] at among
          apply lineEnd
          rw [← ofUInt8_toUInt8 ascii, ← among]
          rfl
        · have wide := mem_utf8EncodeChar_wide (Nat.le_of_not_lt ascii) among
          exact absurd wide (by decide)
    rw [spell_cons, List.count_append, ih, bytes, List.count_cons, Nat.add_comm]

end Utf8

namespace Scan

open Utf8

/-- A test that tells no two characters outside ASCII apart. -/
def Blind (keep : Char → Bool) : Prop :=
  ∀ first second : Char, 128 ≤ first.toNat → 128 ≤ second.toNat → keep first = keep second

theorem run_wide {keep : Char → Bool} (blind : Blind keep) {char : Char}
    (wide : 128 ≤ char.toNat) (behind : List UInt8) :
    run keep (String.utf8EncodeChar char ++ behind) =
      if keep char then String.utf8EncodeChar char ++ run keep behind else [] := by
  have same : ∀ byte ∈ String.utf8EncodeChar char, keep (Char.ofUInt8 byte) = keep char := by
    intro byte among
    apply blind _ _ _ wide
    rw [toNat_ofUInt8]
    exact mem_utf8EncodeChar_wide wide among
  by_cases kept : keep char = true
  · rw [if_pos kept, run, List.takeWhile_append_of_pos]
    · rfl
    · intro byte among
      rw [same byte among, kept]
  · rw [if_neg kept]
    cases bytes : String.utf8EncodeChar char with
    | nil => exact absurd bytes (utf8EncodeChar_ne_nil char)
    | cons byte more =>
      have refused := same byte (by simp [bytes])
      rw [run, List.cons_append, List.takeWhile_cons_of_neg]
      rw [refused]
      exact kept

/-- A run of bytes up to an ASCII character is the run of characters up to it. -/
theorem run_spell {keep : Char → Bool} (blind : Blind keep) (chars : List Char) :
    run keep (spell chars) = spell (chars.takeWhile keep) := by
  induction chars with
  | nil => rfl
  | cons char rest ih =>
    rw [spell_cons, List.takeWhile_cons]
    by_cases ascii : char.toNat < 128
    · rw [utf8EncodeChar_ascii ascii, List.singleton_append, run, List.takeWhile_cons,
        ofUInt8_toUInt8 ascii, ← run, ih]
      split
      · rw [spell_cons, utf8EncodeChar_ascii ascii, List.singleton_append]
      · rfl
    · rw [run_wide blind (Nat.le_of_not_lt ascii), ih]
      split
      · rw [spell_cons]
      · rfl

theorem drop_run_spell {keep : Char → Bool} (blind : Blind keep) (chars : List Char) :
    (spell chars).drop (run keep (spell chars)).length = spell (chars.dropWhile keep) := by
  have parts := congrArg spell (List.takeWhile_append_dropWhile (p := keep) (l := chars))
  rw [spell_append] at parts
  rw [run_spell blind]
  calc (spell chars).drop (spell (chars.takeWhile keep)).length
      = (spell (chars.takeWhile keep) ++ spell (chars.dropWhile keep)).drop
          (spell (chars.takeWhile keep)).length := by rw [parts]
    _ = spell (chars.dropWhile keep) := List.drop_left

/-- The next byte passes a test for ASCII characters if the next character does. -/
theorem look_spell {keep : Char → Bool}
    (narrow : ∀ char : Char, 128 ≤ char.toNat → keep char = false)
    (ending : keep (Char.ofUInt8 0) = false) (chars : List Char) :
    keep (look (spell chars) 0) = chars.head?.any keep := by
  cases chars with
  | nil => exact ending
  | cons char rest =>
    rw [spell_cons, List.head?_cons, Option.any_some]
    by_cases ascii : char.toNat < 128
    · rw [utf8EncodeChar_ascii ascii]
      exact congrArg keep (ofUInt8_toUInt8 ascii)
    · have wide := Nat.le_of_not_lt ascii
      cases bytes : String.utf8EncodeChar char with
      | nil => exact absurd bytes (utf8EncodeChar_ne_nil char)
      | cons byte more =>
        rw [narrow char wide]
        apply narrow
        exact (toNat_ofUInt8 byte).symm ▸ mem_utf8EncodeChar_wide wide (by simp [bytes])

theorem look_spell_eq {sought : Char} (ascii : sought.toNat < 128)
    (present : sought ≠ Char.ofUInt8 0) (chars : List Char) :
    look (spell chars) 0 = sought ↔ chars.head? = some sought := by
  have narrow (char : Char) (wide : 128 ≤ char.toNat) : (char == sought) = false := by
    apply beq_false_of_ne
    rintro rfl
    omega
  have passes : (look (spell chars) 0 == sought) = chars.head?.any (· == sought) :=
    look_spell narrow (beq_false_of_ne (Ne.symm present)) chars
  rw [← beq_iff_eq, passes]
  cases chars <;> simp

/-- A slice between whole characters is the text of those between. -/
theorem slice?_spell {text : String} {before middle behind : List Char}
    (parts : text.toList = before ++ (middle ++ behind)) :
    slice? text (spell before).length ((spell before).length + (spell middle).length) =
      some (String.ofList middle) := by
  have whole : text = String.ofList before ++ (String.ofList middle ++ String.ofList behind) := by
    rw [← String.ofList_append, ← String.ofList_append, ← parts, String.ofList_toList]
  have bounds : (spell before).length ≤ (spell before).length + (spell middle).length ∧
      String.Pos.Raw.IsValid text ⟨(spell before).length⟩ ∧
      String.Pos.Raw.IsValid text ⟨(spell before).length + (spell middle).length⟩ := by
    refine ⟨Nat.le_add_right _ _, ?_, ?_⟩ <;> rw [String.Pos.Raw.isValid_iff_exists_append]
    · refine ⟨_, _, whole, ?_⟩
      rw [String.rawEndPos, utf8ByteSize_ofList]
    · refine ⟨String.ofList before ++ String.ofList middle, String.ofList behind, ?_, ?_⟩
      · rw [whole, String.append_assoc]
      · rw [String.rawEndPos, String.utf8ByteSize_append, utf8ByteSize_ofList, utf8ByteSize_ofList]
  rw [slice?, dif_pos bounds]
  congr 1
  apply String.toByteArray_inj.mp
  have sized (chars : List Char) :
      (spell chars).length = (String.ofList chars).toByteArray.size := by
    rw [String.size_toByteArray, utf8ByteSize_ofList]
  rw [String.toByteArray_extract, String.offset_pos, String.offset_pos, whole,
    String.toByteArray_append, String.toByteArray_append]
  have skipped := ByteArray.extract_append_size_add' (i := 0) (j := (spell middle).length)
    (b := (String.ofList middle).toByteArray ++ (String.ofList behind).toByteArray) (sized before)
  rw [Nat.add_zero] at skipped
  exact skipped.trans (ByteArray.extract_append_eq_left (sized middle))

end Scan
end Script
