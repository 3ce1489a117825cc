import StaticImage.Code.Instruction
import StaticImage.Text.Hex

/-!
Instructions as text. Each operation shows a fixed list of operands, two of them a list that
depends on A; the text is the program counter, the name and the operands between tabs.
-/

namespace StaticImage

inductive Operand where
  | blank
  | register (a : Nat)
  | number (n : Nat)
  | signed (n : Int)
  | registerOrConst (rk : Nat)
  | global (slot : Nat)
  | upvalue (index : Nat)
  | const (index : Nat)
  | proto (index : Nat)
  | target (address : Int)
  deriving DecidableEq, Repr

/-- At least four digits; a negative address is written as its 64-bit two's complement. -/
def addressText (address : Int) : String :=
  String.ofList (Hex.padded Hex.upper 4 (if address < 0 then address + UInt64.size else address).toNat)

namespace Operand

def text : Operand → String
  | blank => ""
  | register a => "R" ++ toString a
  | number n => toString n
  | signed n => toString n
  | registerOrConst rk =>
    if rk / 256 % 2 = 1 then "K" ++ toString (rk % 256) else "R" ++ toString (rk % 256)
  | global slot => "G" ++ toString slot
  | upvalue index => "U" ++ toString index
  | const index => "K" ++ toString index
  | proto index => "P" ++ toString index
  | target address => "#" ++ addressText address

end Operand

namespace Instruction

def operands (i : Instruction) (pc : Nat) : Opcode → List Operand
  | .add | .sub | .mul | .div | .mod | .lt | .le | .eq | .ne | .gt | .ge | .connect
  | .getMember | .setMember | .getMethod | .getIndex | .setIndex | .and | .or | .xor
  | .shl | .shr => [.register i.ra, .registerOrConst i.rkb, .registerOrConst i.rkc]
  | .getNamed | .setNamed | .move | .setSuper | .neg | .flip | .importModule =>
    [.register i.ra, .registerOrConst i.rkb]
  | .getGlobal | .setGlobal => [.register i.ra, .global i.bx]
  | .jump => [.blank, .target (pc + i.sbx + 1)]
  | .jumpTrue | .jumpFalse => [.register i.ra, .target (pc + i.sbx + 1)]
  | .loadInt => [.register i.ra, .signed i.sbx]
  | .loadBool | .catchError => [.register i.ra, .number i.rkb, .number i.rkc]
  | .ret => if i.ra = 0 then [.number i.ra] else [.number i.ra, .registerOrConst i.rkb]
  | .getUpvalue | .setUpvalue => [.register i.ra, .upvalue i.rkb]
  | .loadConst => [.register i.ra, .const i.bx]
  | .call => [.register i.ra, .number i.rkb]
  | .closure => [.register i.ra, .proto i.bx]
  | .makeClass => [.const i.bx]
  | .close | .loadNil => [.register i.ra]
  | .raise => [.number i.ra, .registerOrConst i.rkb, .registerOrConst i.rkc]
  | .exceptBlock =>
    if i.ra = 0 then [.number i.ra, .target (pc + i.sbx + 1)] else [.number i.ra, .number i.bx]

def text (i : Instruction) (pc : Nat) : String :=
  "  " ++ addressText pc ++ "  " ++
    match i.op? with
    | none => "??"
    | some op => op.name ++ String.join ((i.operands pc op).map fun o => "\t" ++ o.text)

end Instruction

end StaticImage
