import StaticImage.Proofs.Text.Identifiers

namespace StaticImage.Identifier

theorem char_small (c : Char) (plain : isPlainChar c = true) : c.toNat < 128 := by
  delta isPlainChar Char.isAlphanum Char.isAlpha Char.isUpper Char.isLower Char.isDigit at plain
  simp only [Bool.or_eq_true, Bool.and_eq_true, decide_eq_true_eq, UInt32.le_iff_toNat_le,
    beq_iff_eq, ge_iff_le] at plain
  rcases plain with ((⟨_, upper⟩ | ⟨_, upper⟩) | ⟨_, upper⟩) | rfl
  · exact Nat.lt_of_le_of_lt upper (by decide)
  · exact Nat.lt_of_le_of_lt upper (by decide)
  · exact Nat.lt_of_le_of_lt upper (by decide)
  · decide

theorem byte_of_plain (c : Char) (plain : isPlainChar c = true) :
    isPlain (UInt8.ofNat c.toNat) = true ∧ Char.ofNat (UInt8.ofNat c.toNat).toNat = c := by
  have table : ∀ n < 128, isPlainChar (Char.ofNat n) = true →
      isPlain (UInt8.ofNat n) = true ∧ (UInt8.ofNat n).toNat = n := by decide +kernel
  have small := char_small c plain
  obtain ⟨byte, value⟩ := table c.toNat small (by rwa [Char.ofNat_toNat])
  exact ⟨byte, by rw [value, Char.ofNat_toNat]⟩

theorem bytes_of_plain (text : String) (plain : ∀ c ∈ text.toList, isPlainChar c = true) :
    text.toUTF8.toList = text.toList.map fun c => UInt8.ofNat c.toNat := by
  have bytes : text.toUTF8.toList = text.toList.flatMap String.utf8EncodeChar := by
    rw [ByteArray.toList, bytes_from, List.reverse_nil, List.nil_append, List.drop_zero,
      String.toUTF8, ← String.utf8Encode_toList, List.utf8Encode, List.data_toByteArray,
      List.toList_toArray]
  rw [bytes, List.map_eq_flatMap]
  refine List.flatMap_congr fun c member => ?_
  have small := char_small c (plain c member)
  have one : c.utf8Size = 1 := by
    rw [Char.utf8Size_eq_one_iff, UInt32.le_iff_toNat_le]
    exact Nat.le_of_lt_succ small
  rw [String.utf8EncodeChar_eq_singleton one]
  rfl

/-- An encoding is no shorter than what it encodes, and longer where a marker occurs. -/
theorem length_encode (bytes : List UInt8) : bytes.length ≤ (encode bytes).length ∧
    ([underscore, markerEnd] <:+: bytes → bytes.length < (encode bytes).length) := by
  have spelled (b : UInt8) : 1 ≤ (spell b).length := by
    cases plain : isPlain b with
    | true => rw [spell_of_isPlain b plain]; exact Nat.le_refl 1
    | false => rw [spell_of_not_isPlain b plain]; exact Nat.le_add_left 1 3
  induction bytes using encode.induct with
  | case1 => exact ⟨Nat.le_refl 0, fun inside => by simp at inside⟩
  | case2 b =>
      refine ⟨spelled b, fun inside => ?_⟩
      have short := inside.length_le
      simp at short
  | case3 b c rest marker ih =>
      rw [encode, if_pos marker]
      simp only [List.length_cons]
      exact ⟨by omega, fun _ => by omega⟩
  | case4 b c rest unmarked ih =>
      have head := spelled b
      rw [encode, if_neg unmarked, List.length_append, List.length_cons]
      refine ⟨by omega, fun inside => ?_⟩
      rcases List.infix_cons_iff.mp inside with start | later
      · obtain ⟨behind, whole⟩ := start
        simp only [List.cons_append, List.nil_append, List.cons.injEq] at whole
        exact (unmarked ⟨whole.1.symm, whole.2.1.symm⟩).elim
      · have longer := ih.2 later
        omega

theorem encode_ordinary (chars : List Char) (plain : ∀ c ∈ chars, isPlainChar c = true)
    (unmarked : ¬ ['_', 'X'] <:+: chars) :
    encode (chars.map fun c => UInt8.ofNat c.toNat) = chars := by
  have spelled (c : Char) (member : c ∈ chars) : spell (UInt8.ofNat c.toNat) = [c] := by
    obtain ⟨byte, same⟩ := byte_of_plain c (plain c member)
    rw [spell_of_isPlain _ byte, same]
  induction chars with
  | nil => rfl
  | cons c rest ih =>
      have inner := ih (fun d member => plain d (List.mem_cons_of_mem c member))
        (fun inside => unmarked (inside.trans (List.suffix_cons c rest).isInfix))
        (fun d member => spelled d (List.mem_cons_of_mem c member))
      have here := spelled c List.mem_cons_self
      cases rest with
      | nil => exact here
      | cons d rest =>
          rw [List.map_cons] at inner
          rw [List.map_cons, List.map_cons, encode, if_neg, here, inner]
          · rfl
          · rintro ⟨first, second⟩
            have value (e : Char) (member : e ∈ c :: d :: rest) :
                Char.ofNat (UInt8.ofNat e.toNat).toNat = e := (byte_of_plain e (plain e member)).2
            have marker : c = '_' ∧ d = 'X' := by
              rw [← value c (by simp), ← value d (by simp), first, second]
              exact ⟨rfl, rfl⟩
            exact unmarked ⟨[], rest, by rw [marker.1, marker.2]; rfl⟩

/-- Plain characters without a marker among them. -/
def IsOrdinary (text : String) : Prop :=
  (∀ c ∈ text.toList, isPlainChar c = true) ∧ ¬ ['_', 'X'] <:+: text.toList

theorem ofText_eq_self_iff (text : String) : ofText text = text ↔ IsOrdinary text := by
  constructor
  · intro same
    have plain (c : Char) (member : c ∈ text.toList) : isPlainChar c = true :=
      ofText_plain text c (by rwa [same])
    refine ⟨plain, fun inside => ?_⟩
    have bytes := bytes_of_plain text plain
    have marked : [underscore, markerEnd] <:+: text.toUTF8.toList := by
      rw [bytes]
      exact inside.map fun c => UInt8.ofNat c.toNat
    have longer := (length_encode _).2 marked
    have chars : encode text.toUTF8.toList = text.toList := by
      rw [← String.toList_ofList (l := encode _)]
      exact congrArg String.toList same
    rw [chars, bytes, List.length_map] at longer
    exact Nat.lt_irrefl _ longer
  · rintro ⟨plain, unmarked⟩
    rw [ofText, bytes_of_plain text plain, encode_ordinary _ plain unmarked, String.ofList_toList]

end StaticImage.Identifier
