import StaticImage.Code.Opcode

/-!
Instruction words of 32 bits: six bits of operation, eight of A, nine of B and nine of C. Bx is
the eighteen bits of B and C together, and its signed reading is biased.
-/

namespace StaticImage

structure Instruction where
  word : UInt32
  deriving DecidableEq, Repr, Inhabited

namespace Instruction

def bias : Int := 131071

def ofFields (op : Opcode) (a : UInt8) (low : Nat) : Instruction :=
  ⟨UInt32.ofNat (op.code <<< 26 + a.toNat <<< 18 + low)⟩

/-- Three operands; B and C keep their lowest nine bits. -/
def abc (op : Opcode) (a : UInt8) (b c : UInt32) : Instruction :=
  ofFields op a ((b.toNat % 512) <<< 9 + c.toNat % 512)

def abx (op : Opcode) (a : UInt8) (bx : UInt32) : Instruction :=
  ofFields op a (bx.toNat % 262144)

/-- A and one signed operand, taken modulo the width of its field. -/
def asbx (op : Opcode) (a : UInt8) (sbx : Int) : Instruction :=
  ofFields op a ((sbx + bias) % 262144).toNat

def op? (i : Instruction) : Option Opcode :=
  Opcode.ofCode? (i.word.toNat >>> 26)

def ra (i : Instruction) : Nat :=
  i.word.toNat >>> 18 % 256

def rkb (i : Instruction) : Nat :=
  i.word.toNat >>> 9 % 512

def rkc (i : Instruction) : Nat :=
  i.word.toNat % 512

def bx (i : Instruction) : Nat :=
  i.word.toNat % 262144

def sbx (i : Instruction) : Int :=
  i.bx - bias

def globalAccess (i : Instruction) : Option Nat :=
  match i.op? with
  | some .getGlobal => some i.bx
  | some .setGlobal => some i.bx
  | _ => none

end Instruction

end StaticImage
