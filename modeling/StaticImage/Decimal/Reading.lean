import StaticImage.Decimal.Shortest

namespace StaticImage

namespace BinaryFormat

def roundEven (num den : Nat) : Nat :=
  let n := num / den
  let rest := num % den
  if 2 * rest < den || (2 * rest = den && n % 2 = 0) then n else n + 1

/-- The bits of the number nearest to `num / den`; carries pass into the exponent by themselves. -/
def ofRatio (f : BinaryFormat) (num den : Nat) : Nat :=
  let guess : Int := (Nat.log2 num : Int) - Nat.log2 den - f.fractionBits
  let fits : Bool := num <<< (-guess).toNat < den <<< (guess.toNat + f.fractionBits)
  let q := max f.least (if fits then guess - 1 else guess)
  let m := roundEven (num <<< (-q).toNat) (den <<< q.toNat)
  min f.infinite ((q - f.least).toNat <<< f.fractionBits + m)

/-- Ten powers past which every number is zero or infinite in either format. -/
def farAway : Int := 400

def ofDecimal (f : BinaryFormat) (d : Decimal) : Nat :=
  let leading := d.exponent + Shortest.digitCount d.digits
  if d.digits = 0 || leading < -farAway then 0
  else if farAway < leading then f.infinite
  else f.ofRatio (d.digits * Nat.pow 10 d.exponent.toNat) (Nat.pow 10 (-d.exponent).toNat)

end BinaryFormat

namespace Decimal

def digit? (c : Char) : Option Nat :=
  if '0' ≤ c && c ≤ '9' then some (c.toNat - 48) else none

def number? (digits : List Char) : Option Nat :=
  digits.foldlM (fun n c => (digit? c).map (n * 10 + ·)) 0

def exponent? : List Char → Option Int
  | [] => none
  | '+' :: digits => if digits.isEmpty then none else (number? digits).map fun n => (n : Int)
  | '-' :: digits => if digits.isEmpty then none else (number? digits).map fun n => -(n : Int)
  | digits => (number? digits).map fun n => (n : Int)

def read? (literal : List Char) : Option Decimal :=
  let mantissa := literal.takeWhile fun c => c != 'e' && c != 'E'
  let whole := mantissa.takeWhile fun c => c != '.'
  let fraction := (mantissa.dropWhile fun c => c != '.').drop 1
  match literal.drop mantissa.length with
  | [] => (number? (whole ++ fraction)).map fun n => ⟨n, -fraction.length⟩
  | _ :: exponent => do
    let n ← number? (whole ++ fraction)
    let e ← exponent? exponent
    some ⟨n, e - fraction.length⟩

end Decimal

namespace BinaryFormat

def realOfBits (f : BinaryFormat) (bits : Nat) : HostReal :=
  if f = double then .double (UInt64.ofNat bits) else .single (UInt32.ofNat bits)

def read? (f : BinaryFormat) (literal : String) : Option HostReal :=
  match literal.toList with
  | '-' :: digits =>
    (Decimal.read? digits).map fun d => f.realOfBits (f.signBit + f.ofDecimal d)
  | digits => (Decimal.read? digits).map fun d => f.realOfBits (f.ofDecimal d)

end BinaryFormat

end StaticImage
