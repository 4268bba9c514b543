import Script.Proofs.Text.Encoding

/-! Reading the bytes of a text gives the text back, strictly and leniently. -/

namespace Script.Utf8

/-- How a first byte tells what follows it, by its number. -/
theorem following?_eq (first : UInt8) : following? first =
    if first.toNat ≤ 0x7F then some (0, 0x80, 0xBF)
    else if 0xC2 ≤ first.toNat ∧ first.toNat ≤ 0xDF then some (1, 0x80, 0xBF)
    else if first.toNat = 0xE0 then some (2, 0xA0, 0xBF)
    else if first.toNat = 0xED then some (2, 0x80, 0x9F)
    else if 0xE1 ≤ first.toNat ∧ first.toNat ≤ 0xEF then some (2, 0x80, 0xBF)
    else if first.toNat = 0xF0 then some (3, 0x90, 0xBF)
    else if 0xF1 ≤ first.toNat ∧ first.toNat ≤ 0xF3 then some (3, 0x80, 0xBF)
    else if first.toNat = 0xF4 then some (3, 0x80, 0x8F)
    else none := by
  simp [following?, UInt8.le_iff_toNat_le, ← UInt8.toNat_inj]

/-- A byte that goes on with a character. -/
def Continues (byte : UInt8) : Prop := 0x80 ≤ byte ∧ byte ≤ 0xBF

theorem continued_cons {count : Nat} {low high byte : UInt8} (bytes : List UInt8)
    (inside : low ≤ byte ∧ byte ≤ high) :
    continued (count + 1) low high (byte :: bytes) = continued count 0x80 0xBF bytes + 1 := by
  rw [continued, if_pos (by simpa using inside)]

theorem continued_append {bytes : List UInt8} (rest : List UInt8)
    (each : ∀ byte ∈ bytes, Continues byte) :
    continued bytes.length 0x80 0xBF (bytes ++ rest) = bytes.length := by
  induction bytes with
  | nil => simp [continued]
  | cons byte bytes ih =>
    obtain ⟨inside, others⟩ := List.forall_mem_cons.mp each
    rw [List.length_cons, List.cons_append, continued_cons _ inside, ih others]

/-- A first byte with as many bytes behind it as it asks for begins a character. -/
theorem head_of_following {first second low high : UInt8} {bytes : List UInt8} (rest : List UInt8)
    (lead : following? first = some (bytes.length + 1, low, high))
    (inside : low ≤ second ∧ second ≤ high)
    (each : ∀ byte ∈ bytes, Continues byte) :
    head first (second :: bytes ++ rest) =
      .character (scalar first (second :: bytes)) (bytes.length + 2) := by
  have whole : continued (bytes.length + 1) low high (second :: bytes ++ rest) =
      bytes.length + 1 := by
    rw [List.cons_append, continued_cons _ inside, continued_append rest each]
  have taken : (second :: bytes ++ rest).take (bytes.length + 1) = second :: bytes := by simp
  unfold head
  simp only [lead, whole, ↓reduceIte, taken]

theorem toNat_char_lt (char : Char) : char.toNat < 0x110000 ∧
    ¬(0xD800 ≤ char.toNat ∧ char.toNat ≤ 0xDFFF) := by
  have valid := char.valid
  simp only [UInt32.isValidChar, Nat.isValidChar] at valid
  show char.val.toNat < _ ∧ ¬(_ ≤ char.val.toNat ∧ char.val.toNat ≤ _)
  omega

/-- The bytes are read as one character, whatever stands behind them. -/
def Spells (bytes : List UInt8) (char : Char) : Prop :=
  ∃ first more, bytes = first :: more ∧
    ∀ rest, head first (more ++ rest) = .character char (more.length + 1)

theorem spells_of_following {char : Char} {first second low high : UInt8} {bytes : List UInt8}
    (lead : following? first = some (bytes.length + 1, low, high))
    (inside : low ≤ second ∧ second ≤ high) (each : ∀ byte ∈ bytes, Continues byte)
    (value : scalar first (second :: bytes) = char) : Spells (first :: second :: bytes) char :=
  ⟨first, second :: bytes, rfl, fun rest => value ▸ head_of_following rest lead inside each⟩

/-- A byte that carries six bits of a character. -/
theorem continues_ofNat (bits : Nat) : Continues (UInt8.ofNat (bits % 64 + 128)) := by
  simp only [Continues, UInt8.le_iff_toNat_le, UInt8.toNat_ofNat', UInt8.reduceToNat]
  omega

theorem toNat_six_bits (bits : Nat) : (UInt8.ofNat (bits % 64 + 128)).toNat = bits % 64 + 128 := by
  rw [UInt8.toNat_ofNat']
  omega

section Widths

variable {char : Char}

theorem spells_one (small : char.toNat ≤ 0x7F) : Spells [UInt8.ofNat char.toNat] char := by
  refine ⟨_, [], rfl, fun rest => ?_⟩
  have number : (UInt8.ofNat char.toNat).toNat = char.toNat := by
    rw [UInt8.toNat_ofNat']
    omega
  have lead : following? (UInt8.ofNat char.toNat) = some (0, 0x80, 0xBF) := by
    rw [following?_eq, number, if_pos small]
  have value : scalar (UInt8.ofNat char.toNat) [] = char := by
    simp only [scalar, List.length_nil, List.foldl_nil, number, Char.ofNat_toNat]
  simp [head, lead, continued, value]

theorem spells_two (large : 0x7F < char.toNat) (small : char.toNat ≤ 0x7FF) :
    Spells [UInt8.ofNat (char.toNat / 64 % 32 + 192), UInt8.ofNat (char.toNat % 64 + 128)]
      char := by
  have number : (UInt8.ofNat (char.toNat / 64 % 32 + 192)).toNat = char.toNat / 64 + 192 := by
    rw [UInt8.toNat_ofNat']
    omega
  have lead : following? (UInt8.ofNat (char.toNat / 64 % 32 + 192)) = some (1, 0x80, 0xBF) := by
    rw [following?_eq, number, if_neg (by omega), if_pos (by omega)]
  refine spells_of_following lead (continues_ofNat _) (by simp) ?_
  have bits : (char.toNat / 64 + 192) % 0x20 * 0x40 + (char.toNat % 64 + 128) % 0x40 =
      char.toNat := by
    omega
  simp only [scalar, List.length_singleton, List.foldl_cons, List.foldl_nil, number,
    toNat_six_bits, bits, Char.ofNat_toNat]

/-- The first byte of three forbids a second one that would spell a shorter character or half a
surrogate pair. -/
theorem following?_three {lead second : UInt8} (large : 0x7FF < char.toNat)
    (small : char.toNat ≤ 0xFFFF) (number : lead.toNat = char.toNat / 4096 + 224)
    (bits : second.toNat = char.toNat / 64 % 64 + 128) :
    ∃ low high, following? lead = some (2, low, high) ∧ low ≤ second ∧ second ≤ high := by
  have surrogate := (toNat_char_lt char).2
  simp only [UInt8.le_iff_toNat_le, bits]
  rw [following?_eq, number, if_neg (by omega), if_neg (by omega)]
  split
  · refine ⟨_, _, rfl, ?_⟩
    simp only [UInt8.reduceToNat]
    omega
  · split
    · refine ⟨_, _, rfl, ?_⟩
      simp only [UInt8.reduceToNat]
      omega
    · rw [if_pos (by omega)]
      refine ⟨_, _, rfl, ?_⟩
      simp only [UInt8.reduceToNat]
      omega

theorem spells_three (large : 0x7FF < char.toNat) (small : char.toNat ≤ 0xFFFF) :
    Spells [UInt8.ofNat (char.toNat / 4096 % 16 + 224), UInt8.ofNat (char.toNat / 64 % 64 + 128),
      UInt8.ofNat (char.toNat % 64 + 128)] char := by
  have number : (UInt8.ofNat (char.toNat / 4096 % 16 + 224)).toNat = char.toNat / 4096 + 224 := by
    rw [UInt8.toNat_ofNat']
    omega
  obtain ⟨low, high, lead, inside⟩ := following?_three large small number (toNat_six_bits _)
  refine spells_of_following lead inside (List.forall_mem_singleton.mpr (continues_ofNat _)) ?_
  have bits : ((char.toNat / 4096 + 224) % 0x10 * 0x40 + (char.toNat / 64 % 64 + 128) % 0x40) *
      0x40 + (char.toNat % 64 + 128) % 0x40 = char.toNat := by
    omega
  simp only [scalar, List.length_cons, List.length_nil, List.foldl_cons, List.foldl_nil, number,
    toNat_six_bits, bits, Char.ofNat_toNat]

/-- The first byte of four forbids a second one that would spell a shorter character or none. -/
theorem following?_four {lead second : UInt8} (large : 0xFFFF < char.toNat)
    (number : lead.toNat = char.toNat / 262144 + 240)
    (bits : second.toNat = char.toNat / 4096 % 64 + 128) :
    ∃ low high, following? lead = some (3, low, high) ∧ low ≤ second ∧ second ≤ high := by
  have bound := (toNat_char_lt char).1
  simp only [UInt8.le_iff_toNat_le, bits]
  rw [following?_eq, number, if_neg (by omega), if_neg (by omega), if_neg (by omega),
    if_neg (by omega), if_neg (by omega)]
  split
  · refine ⟨_, _, rfl, ?_⟩
    simp only [UInt8.reduceToNat]
    omega
  · split
    · refine ⟨_, _, rfl, ?_⟩
      simp only [UInt8.reduceToNat]
      omega
    · rw [if_pos (by omega)]
      refine ⟨_, _, rfl, ?_⟩
      simp only [UInt8.reduceToNat]
      omega

theorem spells_four (large : 0xFFFF < char.toNat) :
    Spells [UInt8.ofNat (char.toNat / 262144 % 8 + 240),
      UInt8.ofNat (char.toNat / 4096 % 64 + 128), UInt8.ofNat (char.toNat / 64 % 64 + 128),
      UInt8.ofNat (char.toNat % 64 + 128)] char := by
  have bound := (toNat_char_lt char).1
  have number :
      (UInt8.ofNat (char.toNat / 262144 % 8 + 240)).toNat = char.toNat / 262144 + 240 := by
    rw [UInt8.toNat_ofNat']
    omega
  obtain ⟨low, high, lead, inside⟩ := following?_four large number (toNat_six_bits _)
  refine spells_of_following lead inside (List.forall_mem_cons.mpr
    ⟨continues_ofNat _, List.forall_mem_singleton.mpr (continues_ofNat _)⟩) ?_
  have bits : (((char.toNat / 262144 + 240) % 0x08 * 0x40 +
      (char.toNat / 4096 % 64 + 128) % 0x40) * 0x40 + (char.toNat / 64 % 64 + 128) % 0x40) *
      0x40 + (char.toNat % 64 + 128) % 0x40 = char.toNat := by
    omega
  simp only [scalar, List.length_cons, List.length_nil, List.foldl_cons, List.foldl_nil, number,
    toNat_six_bits, bits, Char.ofNat_toNat]

end Widths

theorem spells_utf8EncodeChar (char : Char) : Spells (String.utf8EncodeChar char) char := by
  rw [String.utf8EncodeChar]
  change Spells (if char.toNat ≤ 0x7f then _ else if char.toNat ≤ 0x7ff then _ else
    if char.toNat ≤ 0xffff then _ else _) char
  split
  · exact spells_one ‹_›
  · split
    · exact spells_two (by omega) ‹_›
    · split
      · exact spells_three (by omega) ‹_›
      · exact spells_four (by omega)

theorem readLenient_spell (chars : List Char) : readLenient (spell chars) = chars := by
  induction chars with
  | nil => simp [readLenient]
  | cons char rest ih =>
    obtain ⟨first, more, bytes, read⟩ := spells_utf8EncodeChar char
    rw [spell_cons, bytes, List.cons_append, readLenient, read]
    simp only [Nat.add_sub_cancel, List.drop_left, ih]

theorem readFrom_spell (index : Nat) (chars : List Char) :
    readFrom index (spell chars) = .ok chars := by
  induction chars generalizing index with
  | nil => simp [readFrom]
  | cons char rest ih =>
    obtain ⟨first, more, bytes, read⟩ := spells_utf8EncodeChar char
    rw [spell_cons, bytes, List.cons_append, readFrom, read]
    simp only [Nat.add_sub_cancel, List.drop_left, ih, Except.map]

/-- The bytes of a text are read as that text. -/
theorem decode_encode (text : String) : decode (encode text) = .ok text := by
  rw [encode_eq, decode, readFrom_spell, Except.map, String.ofList_toList]

theorem decodeLenient_encode (text : String) : decodeLenient (encode text) = text := by
  rw [encode_eq, decodeLenient, readLenient_spell, String.ofList_toList]

theorem encode_append (first second : String) :
    encode (first ++ second) = encode first ++ encode second := by
  rw [encode_eq, String.toList_append, spell_append, encode_eq, encode_eq]

theorem encode_join (texts : List String) : encode (String.join texts) = texts.flatMap encode := by
  induction texts with
  | nil => exact encode_eq ""
  | cons text rest ih => rw [String.join_cons, encode_append, ih, List.flatMap_cons]

end Script.Utf8
