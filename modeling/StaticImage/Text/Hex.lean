/-! Hexadecimal digits, of fixed and of least width. -/

namespace StaticImage.Hex

def upper (digit : Nat) : Char :=
  if digit < 10 then Char.ofNat (48 + digit) else Char.ofNat (55 + digit)

def lower (digit : Nat) : Char :=
  if digit < 10 then Char.ofNat (48 + digit) else Char.ofNat (87 + digit)

def isUpper (c : Char) : Bool :=
  ('0' ≤ c && c ≤ '9') || ('A' ≤ c && c ≤ 'F')

def isDigit (c : Char) : Bool :=
  ('0' ≤ c && c ≤ '9') || ('A' ≤ c && c ≤ 'F') || ('a' ≤ c && c ≤ 'f')

/-- The value of a digit of either case; meaningful where `isDigit` holds. -/
def value (c : Char) : Nat :=
  if c ≤ '9' then c.toNat - 48 else if c ≤ 'F' then c.toNat - 55 else c.toNat - 87

def value? (c : Char) : Option Nat :=
  if isDigit c then some (value c) else none

/-- The lowest `width` digits of a number, highest first. -/
def fixed (digit : Nat → Char) : (width : Nat) → Nat → List Char
  | 0, _ => []
  | width + 1, n => fixed digit width (n / 16) ++ [digit (n % 16)]

def length (n : Nat) : Nat :=
  if n < 16 then 1 else length (n / 16) + 1

def padded (digit : Nat → Char) (width n : Nat) : List Char :=
  fixed digit (max width (length n)) n

def ofByte (b : UInt8) : List Char :=
  [upper (b.toNat / 16), upper (b.toNat % 16)]

def toNat (digits : List Char) : Nat :=
  digits.foldl (fun n c => n * 16 + value c) 0

end StaticImage.Hex
