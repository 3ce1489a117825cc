import StaticImage.Identifier
import StaticImage.Proofs.Text.Numerals

namespace StaticImage.Identifier

theorem every_byte (property : UInt8 → Prop) (table : ∀ n < 256, property (UInt8.ofNat n))
    (b : UInt8) : property b := by
  have entry := table b.toNat b.toNat_lt
  rwa [UInt8.ofNat_toNat] at entry

theorem char_isPlain (b : UInt8) (plain : isPlain b = true) :
    isPlainChar (Char.ofNat b.toNat) = true := by
  revert plain
  exact every_byte (fun b => isPlain b = true → isPlainChar (Char.ofNat b.toNat) = true)
    (by decide +kernel) b

theorem byte_of_char (b : UInt8) : UInt8.ofNat (Char.ofNat b.toNat).toNat = b := by
  have valid : b.toNat.isValidChar := Or.inl (Nat.lt_trans b.toNat_lt (by decide))
  rw [Char.ofNat, dif_pos valid]
  exact UInt8.ofNat_toNat

theorem upper_digit (n : Nat) (small : n < 16) :
    isPlainChar (Hex.upper n) = true ∧ Hex.isUpper (Hex.upper n) = true ∧
      Hex.value (Hex.upper n) = n ∧ Hex.upper n ≠ '_' := by
  have table : ∀ n < 16, isPlainChar (Hex.upper n) = true ∧ Hex.isUpper (Hex.upper n) = true ∧
      Hex.value (Hex.upper n) = n ∧ Hex.upper n ≠ '_' := by decide
  exact table n small

theorem spell_of_not_isPlain (b : UInt8) (plain : isPlain b = false) : spell b =
    ['_', 'X', Hex.upper (b.toNat / 16), Hex.upper (b.toNat % 16)] := by
  rw [spell, if_neg (by rw [plain]; exact Bool.false_ne_true)]
  rfl

theorem spell_of_isPlain (b : UInt8) (plain : isPlain b = true) :
    spell b = [Char.ofNat b.toNat] := if_pos plain

theorem spell_plain (b : UInt8) (c : Char) (member : c ∈ spell b) : isPlainChar c = true := by
  have small : b.toNat / 16 < 16 := Nat.div_lt_of_lt_mul b.toNat_lt
  have small' : b.toNat % 16 < 16 := Nat.mod_lt _ (by decide)
  cases plain : isPlain b with
  | true =>
      rw [spell_of_isPlain b plain, List.mem_singleton] at member
      rw [member]
      exact char_isPlain b plain
  | false =>
      rw [spell_of_not_isPlain b plain] at member
      simp only [List.mem_cons, List.not_mem_nil, or_false] at member
      rcases member with rfl | rfl | rfl | rfl
      · decide
      · decide
      · exact (upper_digit _ small).1
      · exact (upper_digit _ small').1

theorem encode_plain (bytes : List UInt8) (c : Char) (member : c ∈ encode bytes) :
    isPlainChar c = true := by
  induction bytes using encode.induct with
  | case1 => cases member
  | case2 b => exact spell_plain b c member
  | case3 b d rest marker ih =>
      rw [encode, if_pos marker] at member
      simp only [List.mem_cons] at member
      rcases member with rfl | rfl | rfl | inside
      · decide
      · decide
      · decide
      · exact ih inside
  | case4 b d rest unmarked ih =>
      rw [encode, if_neg unmarked, List.mem_append] at member
      rcases member with here | inside
      · exact spell_plain b c here
      · exact ih inside

/-- Only a byte that ends a marker is spelled like the end of one. -/
theorem encode_head (b : UInt8) (rest : List UInt8)
    (start : (encode (b :: rest)).head? = some 'X') : b = markerEnd := by
  have spelled : (spell b).head? = some 'X' := by
    cases rest with
    | nil => exact start
    | cons c rest =>
        rw [encode] at start
        split at start
        · cases start
        · cases plain : isPlain b with
          | true => simpa [spell_of_isPlain b plain] using start
          | false => simp [spell_of_not_isPlain b plain] at start
  cases plain : isPlain b with
  | true =>
      rw [spell_of_isPlain b plain, List.head?_cons, Option.some.injEq] at spelled
      rw [← byte_of_char b, spelled]
      rfl
  | false => simp [spell_of_not_isPlain b plain] at spelled

theorem decode_plain (c : Char) (rest : List Char) (plain : isPlainChar c = true)
    (unmarked : c = '_' → rest.head? ≠ some 'X') :
    decode (c :: rest) = (decode rest).map (UInt8.ofNat c.toNat :: ·) := by
  rw [decode.eq_def]
  split
  · rename_i equal
    cases equal
  · rename_i equal
    cases equal
    exact (unmarked rfl rfl).elim
  · rename_i equal
    cases equal
    exact (unmarked rfl rfl).elim
  · rename_i equal
    cases equal
    exact (unmarked rfl rfl).elim
  · rename_i equal
    cases equal
    rw [if_pos plain]

theorem decode_escape (high low : Nat) (rest : List Char) (small : high < 16) (small' : low < 16) :
    decode ('_' :: 'X' :: Hex.upper high :: Hex.upper low :: rest) =
      (decode rest).map (UInt8.ofNat (high * 16 + low) :: ·) := by
  obtain ⟨_, digit, value, unmarked⟩ := upper_digit high small
  obtain ⟨_, digit', value', _⟩ := upper_digit low small'
  rw [decode]
  · rw [digit, digit', value, value']
    rfl
  · exact unmarked

theorem decode_spell (b : UInt8) (rest : List Char)
    (unmarked : b = underscore → rest.head? ≠ some 'X') :
    decode (spell b ++ rest) = (decode rest).map (b :: ·) := by
  cases plain : isPlain b with
  | true =>
      rw [spell_of_isPlain b plain, List.singleton_append, decode_plain _ _ (char_isPlain b plain),
        byte_of_char]
      intro equal
      apply unmarked
      rw [← byte_of_char b, equal]
      rfl
  | false =>
      have whole : b.toNat / 16 * 16 + b.toNat % 16 = b.toNat := Nat.div_add_mod' b.toNat 16
      rw [spell_of_not_isPlain b plain]
      simp only [List.cons_append, List.nil_append]
      rw [decode_escape _ _ _ (Nat.div_lt_of_lt_mul b.toNat_lt) (Nat.mod_lt _ (by decide)), whole,
        UInt8.ofNat_toNat]

theorem decode_encode (bytes : List UInt8) : decode (encode bytes) = some bytes := by
  induction bytes using encode.induct with
  | case1 => rfl
  | case2 b =>
      have spelled := decode_spell b [] (fun _ => nofun)
      rw [List.append_nil] at spelled
      exact spelled
  | case3 b c rest marker ih =>
      obtain ⟨rfl, rfl⟩ := marker
      rw [encode, if_pos ⟨rfl, rfl⟩, decode, ih]
      rfl
  | case4 b c rest unmarked ih =>
      rw [encode, if_neg unmarked, decode_spell, ih]
      · rfl
      · intro start ends
        exact unmarked ⟨start, encode_head c rest ends⟩

theorem bytes_from (bytes : ByteArray) (start : Nat) (taken : List UInt8) :
    ByteArray.toList.loop bytes start taken =
      taken.reverse ++ bytes.data.toList.drop start := by
  induction start, taken using ByteArray.toList.loop.induct bytes with
  | case1 start taken inside ih =>
      have bound : start < bytes.data.toList.length := inside
      have here : bytes.get! start = bytes.data.toList[start] := getElem!_pos bytes.data start inside
      rw [ByteArray.toList.loop, if_pos inside, ih, List.drop_eq_getElem_cons bound, here,
        List.reverse_cons, List.append_assoc, List.singleton_append]
  | case2 start taken outside =>
      have bound : bytes.data.toList.length ≤ start := Nat.le_of_not_lt outside
      rw [ByteArray.toList.loop, if_neg outside, List.drop_eq_nil_of_le bound, List.append_nil]

theorem ofText_injective (left right : String)
    (equal : (ofText left).toList = (ofText right).toList) : left = right := by
  rw [ofText, ofText, String.toList_ofList, String.toList_ofList] at equal
  have decoded := congrArg decode equal
  rw [decode_encode, decode_encode, Option.some.injEq, ByteArray.toList, ByteArray.toList,
    bytes_from, bytes_from] at decoded
  apply String.toByteArray_inj.mp
  apply ByteArray.ext
  exact Array.toList_inj.mp decoded

theorem ofText_plain (text : String) (c : Char) (member : c ∈ (ofText text).toList) :
    isPlainChar c = true := by
  rw [ofText, String.toList_ofList] at member
  exact encode_plain _ c member

theorem tells_ofText (left right : String) (closing : List Char) {stop : Char}
    (ends : closing.head? = some stop) (outside : isPlainChar stop = false) :
    Tells ((ofText left).toList ++ closing) ((ofText right).toList ++ closing) (left = right) :=
  (Tells.field isPlainChar ends outside (ofText_plain left) (ofText_plain right)).mono
    (ofText_injective left right)

end StaticImage.Identifier
