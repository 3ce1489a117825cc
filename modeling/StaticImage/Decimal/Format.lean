/-!
Binary interchange formats. A finite number of a format is `m · 2 ^ q`, and its bits are the sign,
the biased exponent and the fraction.
-/

namespace StaticImage

structure BinaryFormat where
  fractionBits : Nat
  exponentBits : Nat
  deriving DecidableEq, Repr

namespace BinaryFormat

def double : BinaryFormat := ⟨52, 11⟩

def single : BinaryFormat := ⟨23, 8⟩

/-- The exponent of the last place of the smallest numbers. -/
def least (f : BinaryFormat) : Int :=
  2 - (1 <<< (f.exponentBits - 1) : Nat) - f.fractionBits

def infinite (f : BinaryFormat) : Nat :=
  (1 <<< f.exponentBits - 1) <<< f.fractionBits

def signBit (f : BinaryFormat) : Nat :=
  1 <<< (f.exponentBits + f.fractionBits)

end BinaryFormat

/-- A real of the host, kept as its bits in the format of the host. -/
inductive HostReal where
  | double (bits : UInt64)
  | single (bits : UInt32)
  deriving DecidableEq, Repr

namespace HostReal

def format : HostReal → BinaryFormat
  | double _ => .double
  | single _ => .single

def bits : HostReal → Nat
  | double b => b.toNat
  | single b => b.toNat

def isNegative (r : HostReal) : Bool :=
  r.format.signBit ≤ r.bits

def magnitude (r : HostReal) : Nat :=
  r.bits % r.format.signBit

end HostReal

inductive Magnitude where
  | zero
  | infinite
  | notANumber
  | finite (m : Nat) (q : Int) (narrowBelow : Bool)
  deriving DecidableEq, Repr

/-- Below the first number of a binade the neighbour is at half the distance. -/
def BinaryFormat.decode (f : BinaryFormat) (bits : Nat) : Magnitude :=
  let exponent := bits >>> f.fractionBits
  let fraction := bits % 1 <<< f.fractionBits
  if bits = 0 then .zero
  else if bits = f.infinite then .infinite
  else if f.infinite < bits then .notANumber
  else if exponent = 0 then .finite fraction f.least false
  else .finite (1 <<< f.fractionBits + fraction) (f.least + exponent - 1) (fraction = 0)

end StaticImage
