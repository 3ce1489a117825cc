import StaticImage.Proofs.Text.OrdinaryNames

/-!
Which texts are identifiers. The encoding of a byte string has the length that was reckoned and only
plain characters, and it is read back. A text that can be read need not be an encoding: digits are also
read where they spell a byte that stands for itself, and that alone tells the two apart.
-/

namespace StaticImage.Identifier

theorem length_spell (b : UInt8) : (spell b).length = if isPlain b then 1 else 4 := by
  cases plain : isPlain b with
  | true => rw [spell_of_isPlain b plain]; rfl
  | false => rw [spell_of_not_isPlain b plain]; rfl

theorem length_encode_eq (bytes : List UInt8) : (encode bytes).length = encodedLength bytes := by
  induction bytes using encode.induct with
  | case1 => rfl
  | case2 b => exact length_spell b
  | case3 b c rest marker ih =>
      rw [encode, encodedLength, if_pos marker, if_pos marker, ← ih]
      simp only [List.length_cons]
      omega
  | case4 b c rest unmarked ih =>
      rw [encode, encodedLength, if_neg unmarked, if_neg unmarked, List.length_append, length_spell,
        ih]

theorem utf8ByteSize_of_plain (chars : List Char) (plain : ∀ c ∈ chars, isPlainChar c = true) :
    (String.ofList chars).utf8ByteSize = chars.length := by
  have bytes := bytes_of_plain (String.ofList chars) (by rwa [String.toList_ofList])
  have length := congrArg List.length bytes
  rw [String.toList_ofList, List.length_map, ByteArray.toList, bytes_from] at length
  rw [← String.size_toByteArray]
  simpa using length

/-- An identifier is as long in bytes as was reckoned, has letters, digits and underscores of ASCII
only, and stands for one byte string. -/
theorem encode_is_lossless :
    (∀ bytes, (String.ofList (encode bytes)).utf8ByteSize = encodedLength bytes ∧
      (∀ c ∈ encode bytes, c.isAlphanum = true ∨ c = '_') ∧
      decode (encode bytes) = some bytes) ∧
    Function.Injective encode := by
  refine ⟨fun bytes => ⟨?_, fun c member => ?_, decode_encode bytes⟩, fun left right same => ?_⟩
  · rw [utf8ByteSize_of_plain _ (encode_plain bytes), length_encode_eq]
  · simpa [isPlainChar] using encode_plain bytes c member
  · have decoded := congrArg decode same
    rw [decode_encode, decode_encode] at decoded
    exact Option.some.inj decoded

def escaped : List Char → List UInt8
  | [] => []
  | '_' :: 'X' :: '_' :: rest => escaped rest
  | '_' :: 'X' :: high :: low :: rest =>
    UInt8.ofNat (Hex.value high * 16 + Hex.value low) :: escaped rest
  | _ :: rest => escaped rest

theorem encode_cons (b : UInt8) (rest : List UInt8)
    (unmarked : b = underscore → rest.head? ≠ some markerEnd) :
    encode (b :: rest) = spell b ++ encode rest := by
  cases rest with
  | nil => rw [encode, encode, List.append_nil]
  | cons c rest =>
      rw [encode, if_neg]
      rintro ⟨start, rfl⟩
      exact unmarked start rfl

theorem encode_marker (rest : List UInt8) :
    encode (underscore :: markerEnd :: rest) = '_' :: 'X' :: '_' :: encode rest := by
  rw [encode, if_pos ⟨rfl, rfl⟩]

/-- A byte that ends a marker is spelled like the end of one, also where no marker begins. -/
theorem head?_encode (bytes : List UInt8) (start : bytes.head? = some markerEnd) :
    (encode bytes).head? = some 'X' := by
  cases bytes with
  | nil => cases start
  | cons b rest =>
      cases start
      rw [encode_cons markerEnd rest nofun]
      rfl

theorem upper_value (c : Char) (digit : Hex.isUpper c = true) :
    Hex.value c < 16 ∧ Hex.upper (Hex.value c) = c := by
  obtain ⟨small, same⟩ := Hex.upper_value_of_isDigit (Hex.isDigit_of_isUpper digit)
  exact ⟨small, by rw [same, Hex.toUpper_of_isUpper digit]⟩

theorem spell_digits (high low : Char) (digit : Hex.isUpper high = true)
    (digit' : Hex.isUpper low = true)
    (foreign : isPlain (UInt8.ofNat (Hex.value high * 16 + Hex.value low)) = false) :
    spell (UInt8.ofNat (Hex.value high * 16 + Hex.value low)) = ['_', 'X', high, low] := by
  obtain ⟨small, same⟩ := upper_value high digit
  obtain ⟨small', same'⟩ := upper_value low digit'
  rw [spell_of_not_isPlain _ foreign, ← Hex.ofByte, Hex.ofByte_ofNat small small', same, same']

theorem escaped_cons (c : Char) (rest : List Char) (unmarked : c = '_' → rest.head? ≠ some 'X') :
    escaped (c :: rest) = escaped rest := by
  rw [escaped.eq_def]
  split
  · rename_i equal
    cases equal
  · rename_i equal
    cases equal
    exact (unmarked rfl rfl).elim
  · rename_i equal
    cases equal
    exact (unmarked rfl rfl).elim
  · rename_i equal
    cases equal
    rfl

theorem escaped_spell (b : UInt8) (rest : List Char)
    (unmarked : b = underscore → rest.head? ≠ some 'X') :
    escaped (spell b ++ rest) = (if isPlain b then [] else [b]) ++ escaped rest := by
  cases plain : isPlain b with
  | true =>
      rw [spell_of_isPlain b plain, List.singleton_append, escaped_cons]
      · rfl
      · intro equal
        apply unmarked
        rw [← byte_of_char b, equal]
        rfl
  | false =>
      have whole : b.toNat / 16 * 16 + b.toNat % 16 = b.toNat := Nat.div_add_mod' b.toNat 16
      have small : b.toNat / 16 < 16 := Nat.div_lt_of_lt_mul b.toNat_lt
      obtain ⟨_, _, value, unmarked⟩ := upper_digit _ small
      obtain ⟨_, _, value', _⟩ := upper_digit (b.toNat % 16) (Nat.mod_lt _ (by decide))
      rw [spell_of_not_isPlain b plain]
      simp only [List.cons_append, List.nil_append]
      rw [escaped]
      · rw [value, value', whole, UInt8.ofNat_toNat]
        rfl
      · exact unmarked

/-- An encoding has digits only for bytes that do not stand for themselves. -/
theorem escaped_encode (bytes : List UInt8) :
    escaped (encode bytes) = bytes.filter fun b => !isPlain b := by
  induction bytes using encode.induct with
  | case1 => rfl
  | case2 b =>
      have spelled := escaped_spell b [] (fun _ => by simp)
      rw [List.append_nil] at spelled
      rw [encode, spelled, escaped, List.append_nil, List.filter_singleton]
      cases isPlain b <;> rfl
  | case3 b c rest marker ih =>
      obtain ⟨rfl, rfl⟩ := marker
      rw [encode_marker, escaped, ih]
      rfl
  | case4 b c rest unmarked ih =>
      rw [encode, if_neg unmarked, escaped_spell, ih]
      · cases plain : isPlain b <;> simp [List.filter_cons, plain]
      · intro start ends
        exact unmarked ⟨start, encode_head c rest ends⟩

theorem encode_of_decode (text : List Char) (bytes : List UInt8) (read : decode text = some bytes)
    (foreign : ∀ b ∈ escaped text, isPlain b = false) : encode bytes = text := by
  induction text using decode.induct generalizing bytes with
  | case1 =>
      cases read
      rfl
  | case2 rest ih =>
      rw [decode] at read
      obtain ⟨inner, found, rfl⟩ := Option.map_eq_some_iff.mp read
      rw [escaped] at foreign
      rw [encode_marker, ih inner found foreign]
  | case3 high low rest unmarked digits ih =>
      rw [decode, if_pos digits] at read
      · obtain ⟨inner, found, rfl⟩ := Option.map_eq_some_iff.mp read
        rw [escaped] at foreign
        · rw [Bool.and_eq_true] at digits
          have here := foreign _ List.mem_cons_self
          have apart : UInt8.ofNat (Hex.value high * 16 + Hex.value low) ≠ underscore := by
            intro same
            rw [same] at here
            cases here
          rw [encode_cons _ inner fun same => (apart same).elim,
            spell_digits high low digits.1 digits.2 here,
            ih inner found fun b member => foreign b (List.mem_cons_of_mem _ member)]
          rfl
        · exact unmarked
      · exact unmarked
  | case4 high low rest unmarked digits =>
      rw [decode, if_neg digits] at read
      · cases read
      · exact unmarked
  | case5 rest short bare =>
      rw [decode] at read
      · cases read
      · exact short
      · exact bare
  | case6 c rest marker escape bare plain ih =>
      have unmarked : c = '_' → rest.head? ≠ some 'X' := by
        rintro same start
        obtain ⟨tail, rfl⟩ := List.head?_eq_some_iff.mp start
        exact bare tail same rfl
      rw [decode_plain c rest plain unmarked] at read
      obtain ⟨inner, found, rfl⟩ := Option.map_eq_some_iff.mp read
      rw [escaped_cons c rest unmarked] at foreign
      obtain ⟨byte, same⟩ := byte_of_plain c plain
      have rest_encoded := ih inner found foreign
      rw [encode_cons, spell_of_isPlain _ byte, same, rest_encoded]
      · rfl
      · intro start ends
        apply unmarked
        · rw [← same, start]
          rfl
        · rw [← rest_encoded]
          exact head?_encode inner ends
  | case7 c rest marker escape bare plain =>
      rw [decode, if_neg plain] at read
      · cases read
      · exact marker
      · exact escape
      · exact bare

/-- A text is the encoding of a byte string exactly if it is read as that byte string and has digits for
those bytes only that do not stand for themselves. -/
theorem encode_eq_iff (text : List Char) (bytes : List UInt8) :
    encode bytes = text ↔
      decode text = some bytes ∧ ∀ b ∈ escaped text, isPlain b = false := by
  constructor
  · rintro rfl
    refine ⟨decode_encode bytes, fun b member => ?_⟩
    rw [escaped_encode, List.mem_filter] at member
    simpa using member.2
  · rintro ⟨read, foreign⟩
    exact encode_of_decode text bytes read foreign

/-- Digits are read where they spell a letter, though no encoding has them. -/
theorem escaped_letter_is_read :
    decode "_X41".toList = some [0x41] ∧ ¬ ∃ bytes, encode bytes = "_X41".toList := by
  have read : decode "_X41".toList = some [0x41] := by decide
  refine ⟨read, fun ⟨bytes, encoded⟩ => ?_⟩
  have same : encode bytes = encode [0x41] := by
    have decoded := congrArg decode encoded
    rw [decode_encode, read, Option.some.injEq] at decoded
    rw [decoded]
  rw [encoded] at same
  exact absurd same (by decide)

end StaticImage.Identifier
