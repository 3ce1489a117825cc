import Mathlib.Algebra.Group.Nat.Defs
import StaticImage.Proofs.Text.Telling
import StaticImage.Text.Hex

namespace StaticImage

namespace Decimal

theorem toList_nat (n : Nat) : (toString n).toList = Nat.toDigits 10 n := Nat.toList_repr

theorem isDigit_of_mem (n : Nat) (c : Char) (member : c ∈ (toString n).toList) :
    c.isDigit = true := by
  rw [toList_nat] at member
  exact Nat.isDigit_of_mem_toDigits (by decide) (by decide) member

theorem toDigits_cases (n : Nat) : Nat.toDigits 10 n = ['0'] ∨
    ∃ c cs, Nat.toDigits 10 n = c :: cs ∧ c.isDigit = true ∧ c ≠ '0' ∧
      ∀ d ∈ cs, d.isDigit = true := by
  have digit (m : Nat) (d : Char) (member : d ∈ Nat.toDigits 10 m) : d.isDigit = true :=
    Nat.isDigit_of_mem_toDigits (by decide) (by decide) member
  induction n using Nat.strongRecOn with
  | _ n ih =>
      by_cases small : n < 10
      · have table : ∀ m < 10, m.digitChar = '0' ∨
            m.digitChar.isDigit = true ∧ m.digitChar ≠ '0' := by decide
        rw [Nat.toDigits_of_lt_base small]
        rcases table n small with zero | ⟨first, other⟩
        · exact Or.inl (congrArg (fun c => [c]) zero)
        · exact Or.inr ⟨n.digitChar, [], rfl, first, other, by simp⟩
      · have split := Nat.toDigits_of_base_le (b := 10) (by decide) (Nat.le_of_not_lt small)
        rcases ih (n / 10) (by omega) with zero | ⟨c, cs, front, first, other, _⟩
        · have value := Nat.ofDigitChars_ten_toDigits (n := n / 10)
          rw [zero] at value
          have none : n / 10 = 0 := value.symm
          omega
        · rw [front] at split
          refine Or.inr ⟨c, cs ++ [(n % 10).digitChar], split, first, other, fun d member => ?_⟩
          exact digit n d (split ▸ List.mem_cons_of_mem c member)

theorem nat_injective (n m : Nat) (equal : (toString n).toList = (toString m).toList) :
    n = m := by
  rw [toList_nat, toList_nat] at equal
  have values := congrArg (fun digits => Nat.ofDigitChars 10 digits 0) equal
  simpa only [Nat.ofDigitChars_ten_toDigits] using values

theorem toList_int (n : Int) : (toString n).toList =
    if 0 ≤ n then (toString n.toNat).toList else '-' :: (toString (-n).toNat).toList := by
  rw [Int.toString_eq_repr, Int.repr_eq_if]
  split
  · rfl
  · rw [String.toList_append]
    rfl

theorem int_injective (n m : Int) (equal : (toString n).toList = (toString m).toList) :
    n = m := by
  have unsigned (k : Nat) : '-' ∉ (toString k).toList := by
    intro member
    exact absurd (isDigit_of_mem k '-' member) (by decide)
  rw [toList_int, toList_int] at equal
  split at equal
  · split at equal
    · have same := nat_injective _ _ equal
      omega
    · exact (unsigned n.toNat (equal ▸ List.mem_cons_self)).elim
  · split at equal
    · exact (unsigned m.toNat (equal ▸ List.mem_cons_self)).elim
    · have same := nat_injective _ _ (List.cons.inj equal).2
      omega

def isSigned (c : Char) : Bool :=
  c == '-' || c.isDigit

theorem isSigned_of_mem (n : Int) (c : Char) (member : c ∈ (toString n).toList) :
    isSigned c = true := by
  have digits (k : Nat) (digit : c ∈ (toString k).toList) : isSigned c = true := by
    rw [isSigned, isDigit_of_mem k c digit, Bool.or_true]
  rw [toList_int] at member
  split at member
  · exact digits _ member
  · rcases List.mem_cons.mp member with rfl | digit
    · rfl
    · exact digits _ digit

end Decimal

namespace Tells

theorem nat (n m : Nat) (closing : List Char) {stop : Char}
    (ends : closing.head? = some stop) (outside : stop.isDigit = false) :
    Tells ((toString n).toList ++ closing) ((toString m).toList ++ closing) (n = m) :=
  (field Char.isDigit ends outside (Decimal.isDigit_of_mem n) (Decimal.isDigit_of_mem m)).mono
    (Decimal.nat_injective n m)

theorem int (n m : Int) (closing : List Char) {stop : Char}
    (ends : closing.head? = some stop)
    (outside : Decimal.isSigned stop = false) :
    Tells ((toString n).toList ++ closing) ((toString m).toList ++ closing) (n = m) :=
  (field Decimal.isSigned ends outside (Decimal.isSigned_of_mem n)
    (Decimal.isSigned_of_mem m)).mono (Decimal.int_injective n m)

theorem flag (b c : Bool) :
    Tells (if b then "1" else "0").toList (if c then "1" else "0").toList (b = c) := by
  have equal : (if b then "1" else "0").toList = (if c then "1" else "0").toList → b = c := by
    revert b c
    decide
  refine (block ?_).mono equal
  cases b <;> cases c <;> rfl

end Tells

namespace Hex

theorem upper_injective (a b : Nat) (small : a < 16) (small' : b < 16)
    (equal : upper a = upper b) : a = b := by
  have table : ∀ x < 16, ∀ y < 16, upper x = upper y → x = y := by decide
  exact table a small b small' equal

theorem lower_injective (a b : Nat) (small : a < 16) (small' : b < 16)
    (equal : lower a = lower b) : a = b := by
  have table : ∀ x < 16, ∀ y < 16, lower x = lower y → x = y := by decide
  exact table a small b small' equal

theorem length_fixed (digit : Nat → Char) (width n : Nat) :
    (fixed digit width n).length = width := by
  induction width generalizing n with
  | zero => rfl
  | succ width ih => rw [fixed, List.length_append, ih, List.length_singleton]

theorem fixed_injective (digit : Nat → Char)
    (distinct : ∀ a b, a < 16 → b < 16 → digit a = digit b → a = b) (width n m : Nat)
    (small : n < 16 ^ width) (small' : m < 16 ^ width)
    (equal : fixed digit width n = fixed digit width m) : n = m := by
  induction width generalizing n m with
  | zero => omega
  | succ width ih =>
      rw [Nat.pow_succ] at small small'
      obtain ⟨high, low⟩ := List.append_inj' equal rfl
      have top : n / 16 = m / 16 := by
        apply ih _ _ _ _ high
        · omega
        · omega
      have last : n % 16 = m % 16 := by
        apply distinct
        · omega
        · omega
        · exact List.singleton_injective low
      omega

/-- A digit of either case is told by its value but for its case. -/
theorem upper_value_of_isDigit {c : Char} (digit : isDigit c = true) :
    value c < 16 ∧ upper (value c) = c.toUpper := by
  have table : ∀ n < 128, isDigit (Char.ofNat n) = true →
      value (Char.ofNat n) < 16 ∧ upper (value (Char.ofNat n)) = (Char.ofNat n).toUpper := by
    decide +kernel
  have small : c.toNat < 128 := by
    simp only [isDigit, Bool.or_eq_true, Bool.and_eq_true, decide_eq_true_eq, Char.le_def,
      UInt32.le_iff_toNat_le] at digit
    rcases digit with (⟨_, high⟩ | ⟨_, high⟩) | ⟨_, high⟩
    · exact Nat.lt_of_le_of_lt high (by decide)
    · exact Nat.lt_of_le_of_lt high (by decide)
    · exact Nat.lt_of_le_of_lt high (by decide)
  have entry := table c.toNat small
  rw [Char.ofNat_toNat] at entry
  exact entry digit

theorem isDigit_of_isUpper {c : Char} (digit : isUpper c = true) : isDigit c = true := by
  rw [isUpper] at digit
  rw [isDigit, digit, Bool.true_or]

theorem toUpper_of_isUpper {c : Char} (digit : isUpper c = true) : c.toUpper = c := by
  simp only [isUpper, Bool.or_eq_true, Bool.and_eq_true, decide_eq_true_eq, Char.le_def] at digit
  have small : ¬ (c.val ≥ 'a'.val ∧ c.val ≤ 'z'.val) := by
    rintro ⟨above, _⟩
    rcases digit with ⟨_, below⟩ | ⟨_, below⟩
    · exact absurd (UInt32.le_trans above below) (by decide)
    · exact absurd (UInt32.le_trans above below) (by decide)
  exact dif_neg small

theorem ofByte_ofNat {high low : Nat} (small : high < 16) (small' : low < 16) :
    ofByte (UInt8.ofNat (high * 16 + low)) = [upper high, upper low] := by
  have value : (UInt8.ofNat (high * 16 + low)).toNat = high * 16 + low := by
    rw [UInt8.toNat_ofNat']
    omega
  have quotient : (high * 16 + low) / 16 = high := by omega
  have remainder : (high * 16 + low) % 16 = low := by omega
  rw [ofByte, value, quotient, remainder]

theorem ofByte_injective (a b : UInt8) (equal : ofByte a = ofByte b) : a = b := by
  have width (c : UInt8) : c.toNat < 256 := c.toNat_lt
  have bound_a := width a
  have bound_b := width b
  obtain ⟨high, rest⟩ := List.cons.inj equal
  have top := upper_injective _ _ (by omega) (by omega) high
  have last := upper_injective _ _ (by omega) (by omega) (List.cons.inj rest).1
  apply UInt8.toNat_inj.mp
  omega

theorem flatMap_ofByte_injective (left right : List UInt8)
    (equal : left.flatMap ofByte = right.flatMap ofByte) : left = right := by
  have length : left.length = right.length := by
    have doubled (data : List UInt8) : (data.flatMap ofByte).length = 2 * data.length := by
      induction data with
      | nil => rfl
      | cons b rest ih =>
          rw [List.flatMap_cons, List.length_append, ih, List.length_cons, ofByte]
          simp only [List.length_cons, List.length_nil]
          omega
    have both := congrArg List.length equal
    rw [doubled, doubled] at both
    omega
  refine (Tells.sequence ofByte left right (fun a _ b _ => ?_) length).of_eq equal
  have digits : Tells (ofByte a) (ofByte b) (ofByte a = ofByte b) := Tells.block rfl
  exact digits.mono (ofByte_injective a b)

theorem isDigit_of_mem_fixed (digit : Nat → Char)
    (digits : ∀ n < 16, isDigit (digit n) = true) (width n : Nat) (c : Char)
    (member : c ∈ fixed digit width n) : isDigit c = true := by
  induction width generalizing n with
  | zero => cases member
  | succ width ih =>
      rw [fixed, List.mem_append] at member
      rcases member with high | low
      · exact ih (n / 16) high
      · rw [List.mem_singleton.mp low]
        exact digits _ (Nat.mod_lt n (by decide))

theorem isDigit_of_mem_ofByte (b : UInt8) (c : Char) (member : c ∈ ofByte b) :
    isDigit c = true := by
  have digits : ∀ n < 16, isDigit (upper n) = true := by decide
  have bound : b.toNat < 256 := b.toNat_lt
  rcases List.mem_cons.mp member with rfl | last
  · exact digits _ (by omega)
  · rw [List.mem_singleton.mp last]
    exact digits _ (by omega)

/-- Digits spell the number they were written for, as far as it fits into them. -/
theorem foldl_fixed_lower (width n start : Nat) :
    (fixed lower width n).foldl (fun m c => m * 16 + value c) start =
      start * 16 ^ width + n % 16 ^ width := by
  have digits : ∀ d < 16, value (lower d) = d := by decide
  induction width generalizing n with
  | zero => simp [fixed, Nat.mod_one]
  | succ width ih =>
      have last := digits (n % 16) (Nat.mod_lt n (by decide))
      have split : n % 16 ^ (width + 1) = n % 16 + 16 * (n / 16 % 16 ^ width) := by
        rw [Nat.pow_succ, Nat.mul_comm, Nat.mod_mul]
      rw [fixed, List.foldl_append, ih, List.foldl_cons, List.foldl_nil, last, split, Nat.pow_succ,
        Nat.add_mul, Nat.mul_assoc]
      omega

theorem lt_pow_length (n : Nat) : n < 16 ^ length n := by
  induction n using length.induct with
  | case1 n small =>
      rw [length, if_pos small]
      omega
  | case2 n large ih =>
      rw [length, if_neg large, Nat.pow_succ]
      omega

theorem lt_pow_padded (width n : Nat) : n < 16 ^ max width (length n) :=
  Nat.lt_of_lt_of_le (lt_pow_length n)
    (Nat.pow_le_pow_right (by decide) (Nat.le_max_right width (length n)))

theorem toNat_padded_lower (width n : Nat) : toNat (padded lower width n) = n := by
  rw [toNat, padded, foldl_fixed_lower, Nat.mod_eq_of_lt (lt_pow_padded width n), Nat.zero_mul,
    Nat.zero_add]

/-- Zeros in front do not matter: as many digits in all spell one number. -/
theorem padded_injective (digit : Nat → Char)
    (distinct : ∀ a b, a < 16 → b < 16 → digit a = digit b → a = b) (width n m : Nat)
    (equal : padded digit width n = padded digit width m) : n = m := by
  have long := congrArg List.length equal
  rw [padded, padded, length_fixed, length_fixed] at long
  rw [padded, padded, ← long] at equal
  exact fixed_injective digit distinct _ n m (lt_pow_padded width n)
    (long ▸ lt_pow_padded width m) equal

end Hex

end StaticImage
