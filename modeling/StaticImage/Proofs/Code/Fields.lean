import Mathlib.Data.Int.ModEq
import Mathlib.Data.List.Basic
import StaticImage.Code.Instruction

/-!
The fields of instruction words. A word is the sum of its operation, A and Bx, each at a place of
its own, so it is told by the three, and an operand that is too wide loses its high bits and reaches
into no other field.
-/

namespace StaticImage

namespace Opcode

theorem mem_all (op : Opcode) : op ∈ all := by
  cases op <;> decide

theorem code_lt (op : Opcode) : op.code < 48 :=
  List.idxOf_lt_length_of_mem op.mem_all

theorem ofCode?_code (op : Opcode) : ofCode? op.code = some op :=
  List.getElem?_idxOf op.mem_all

theorem code_of_ofCode? {code : Nat} {op : Opcode} (known : ofCode? code = some op) :
    op.code = code := by
  obtain ⟨inside, rfl⟩ := List.getElem?_eq_some_iff.mp known
  have distinct : all.Nodup := by decide
  exact distinct.idxOf_getElem code inside

end Opcode

namespace Instruction

variable {i j : Instruction} {op : Opcode}

theorem ra_lt (i : Instruction) : i.ra < 256 :=
  Nat.mod_lt _ (by decide)

theorem bx_lt (i : Instruction) : i.bx < 262144 :=
  Nat.mod_lt _ (by decide)

theorem rkb_eq (i : Instruction) : i.rkb = i.bx / 512 := by
  rw [rkb, bx, Nat.shiftRight_eq_div_pow]
  omega

theorem rkc_eq (i : Instruction) : i.rkc = i.bx % 512 := by
  rw [rkc, bx]
  omega

theorem bx_eq (i : Instruction) : i.bx = i.rkb * 512 + i.rkc := by
  rw [rkb_eq, rkc_eq]
  omega

theorem toNat_word (known : i.op? = some op) :
    i.word.toNat = op.code * 67108864 + i.ra * 262144 + i.bx := by
  have code := Opcode.code_of_ofCode? known
  rw [code, ra, bx, Nat.shiftRight_eq_div_pow, Nat.shiftRight_eq_div_pow]
  omega

theorem eq_of_fields (known : i.op? = some op) (known' : j.op? = some op) (a : i.ra = j.ra)
    (wide : i.bx = j.bx) : i = j := by
  have words : i.word.toNat = j.word.toNat := by
    rw [toNat_word known, toNat_word known', a, wide]
  obtain ⟨word⟩ := i
  obtain ⟨word'⟩ := j
  exact congrArg Instruction.mk (UInt32.toNat_inj.mp words)

section

variable (op : Opcode) (a : UInt8) {low : Nat} (small : low < 262144)

include small

theorem toNat_ofFields :
    (ofFields op a low).word.toNat = op.code * 67108864 + a.toNat * 262144 + low := by
  have code := op.code_lt
  have byte : a.toNat < 256 := a.toNat_lt
  have whole : op.code <<< 26 + a.toNat <<< 18 + low =
      op.code * 67108864 + a.toNat * 262144 + low := by
    rw [Nat.shiftLeft_eq, Nat.shiftLeft_eq]
  rw [ofFields, whole]
  apply UInt32.toNat_ofNat_of_lt'
  rw [UInt32.size]
  omega

theorem op?_ofFields : (ofFields op a low).op? = some op := by
  have byte : a.toNat < 256 := a.toNat_lt
  have code : (op.code * 67108864 + a.toNat * 262144 + low) / 2 ^ 26 = op.code := by omega
  rw [op?, toNat_ofFields op a small, Nat.shiftRight_eq_div_pow, code, Opcode.ofCode?_code]

theorem ra_ofFields : (ofFields op a low).ra = a.toNat := by
  have byte : a.toNat < 256 := a.toNat_lt
  rw [ra, toNat_ofFields op a small, Nat.shiftRight_eq_div_pow]
  omega

theorem bx_ofFields : (ofFields op a low).bx = low := by
  rw [bx, toNat_ofFields op a small]
  omega

end

theorem ofFields_eq_self (known : i.op? = some op) : ofFields op (UInt8.ofNat i.ra) i.bx = i := by
  refine eq_of_fields (op?_ofFields op _ i.bx_lt) known ?_ (bx_ofFields op _ i.bx_lt)
  rw [ra_ofFields op _ i.bx_lt, UInt8.toNat_ofNat_of_lt' i.ra_lt]

/-- The wide operand that B and C make up, of which each keeps its lowest nine bits. -/
def pair (b c : Nat) : Nat :=
  b % 512 * 512 + c % 512

theorem pair_lt (b c : Nat) : pair b c < 262144 := by
  rw [pair]
  omega

theorem abc_eq (op : Opcode) (a : UInt8) (b c : UInt32) :
    abc op a b c = ofFields op a (pair b.toNat c.toNat) := by
  rw [abc, pair, Nat.shiftLeft_eq]

theorem fields_abc (op : Opcode) (a : UInt8) (b c : UInt32) :
    (abc op a b c).op? = some op ∧ (abc op a b c).ra = a.toNat ∧
      (abc op a b c).rkb = b.toNat % 512 ∧ (abc op a b c).rkc = c.toNat % 512 := by
  have small := pair_lt b.toNat c.toNat
  have wide := bx_ofFields op a small
  rw [abc_eq, rkb_eq, rkc_eq, wide, pair]
  refine ⟨op?_ofFields op a small, ra_ofFields op a small, ?_, ?_⟩
  · omega
  · omega

theorem fields_abx (op : Opcode) (a : UInt8) (bx : UInt32) :
    (abx op a bx).op? = some op ∧ (abx op a bx).ra = a.toNat ∧
      (abx op a bx).bx = bx.toNat % 2 ^ 18 := by
  have small : bx.toNat % 262144 < 262144 := Nat.mod_lt _ (by decide)
  exact ⟨op?_ofFields op a small, ra_ofFields op a small, bx_ofFields op a small⟩

theorem fields_asbx (op : Opcode) (a : UInt8) (sbx : Int) :
    (asbx op a sbx).op? = some op ∧ (asbx op a sbx).ra = a.toNat ∧
      (asbx op a sbx).sbx ≡ sbx [ZMOD 2 ^ 18] ∧
      ((asbx op a sbx).sbx = sbx ↔ -131071 ≤ sbx ∧ sbx ≤ 131072) := by
  have small : ((sbx + bias) % 262144).toNat < 262144 := by omega
  have wide : (asbx op a sbx).bx = ((sbx + bias) % 262144).toNat := bx_ofFields op a small
  refine ⟨op?_ofFields op a small, ra_ofFields op a small, ?_, ?_⟩
  · rw [Int.ModEq, Instruction.sbx, wide, bias]
    omega
  · rw [Instruction.sbx, wide, bias]
    omega

theorem toNat_ofNat_of_le_bx {n : Nat} (less : n ≤ i.bx) : (UInt32.ofNat n).toNat = n :=
  UInt32.toNat_ofNat_of_lt' (Nat.lt_of_le_of_lt less (Nat.lt_trans i.bx_lt (by decide)))

theorem abc_eq_self (known : i.op? = some op) :
    abc op (.ofNat i.ra) (.ofNat i.rkb) (.ofNat i.rkc) = i := by
  have whole := i.bx_eq
  have b : (UInt32.ofNat i.rkb).toNat = i.rkb := toNat_ofNat_of_le_bx (i := i) (by omega)
  have c : (UInt32.ofNat i.rkc).toNat = i.rkc := toNat_ofNat_of_le_bx (i := i) (by omega)
  have same : pair i.rkb i.rkc = i.bx := by
    have bound := i.bx_lt
    have upper := i.rkb_eq
    have lower := i.rkc_eq
    rw [pair]
    omega
  rw [abc_eq, b, c, same, ofFields_eq_self known]

theorem abx_eq_self (known : i.op? = some op) : abx op (.ofNat i.ra) (.ofNat i.bx) = i := by
  rw [abx, toNat_ofNat_of_le_bx (Nat.le_refl i.bx), Nat.mod_eq_of_lt i.bx_lt,
    ofFields_eq_self known]

theorem asbx_eq_self (known : i.op? = some op) : asbx op (.ofNat i.ra) i.sbx = i := by
  have bound := i.bx_lt
  have same : ((i.sbx + bias) % 262144).toNat = i.bx := by
    rw [Instruction.sbx, bias]
    omega
  rw [asbx, same, ofFields_eq_self known]

/-- Instruction words and their fields determine each other. What is built from an operation and
operands has these, each modulo the width of its field; a word of a known operation is built again
from its own fields in each of the three layouts. -/
theorem words_and_fields_determine_each_other :
    (∀ (op : Opcode) (a : UInt8) (b c : UInt32),
      (abc op a b c).op? = some op ∧ (abc op a b c).ra = a.toNat ∧
        (abc op a b c).rkb = b.toNat % 512 ∧ (abc op a b c).rkc = c.toNat % 512) ∧
    (∀ (op : Opcode) (a : UInt8) (bx : UInt32),
      (abx op a bx).op? = some op ∧ (abx op a bx).ra = a.toNat ∧
        (abx op a bx).bx = bx.toNat % 2 ^ 18) ∧
    (∀ (op : Opcode) (a : UInt8) (sbx : Int),
      (asbx op a sbx).op? = some op ∧ (asbx op a sbx).ra = a.toNat ∧
        (asbx op a sbx).sbx ≡ sbx [ZMOD 2 ^ 18] ∧
        ((asbx op a sbx).sbx = sbx ↔ -131071 ≤ sbx ∧ sbx ≤ 131072)) ∧
    ∀ (i : Instruction) (op : Opcode), i.op? = some op →
      abc op (.ofNat i.ra) (.ofNat i.rkb) (.ofNat i.rkc) = i ∧
        abx op (.ofNat i.ra) (.ofNat i.bx) = i ∧ asbx op (.ofNat i.ra) i.sbx = i :=
  ⟨fields_abc, fields_abx, fields_asbx, fun _ _ known =>
    ⟨abc_eq_self known, abx_eq_self known, asbx_eq_self known⟩⟩

/-- A jump as far back as there is: all bits of its target are 0. -/
def farthestJump : Instruction :=
  ⟨0x73FC0000⟩

theorem farthest_jump_is_rebuilt :
    farthestJump.op? = some .jump ∧ farthestJump.sbx = -131071 ∧
      asbx .jump 255 (-131071) = farthestJump ∧ abc .jump 255 512 1024 = farthestJump := by
  have known : farthestJump.op? = some .jump := by decide
  obtain ⟨_, _, _, again⟩ := words_and_fields_determine_each_other
  obtain ⟨_, _, rebuilt⟩ := again farthestJump .jump known
  exact ⟨known, by decide, rebuilt, by decide⟩

end Instruction

end StaticImage
