/-!
UTF-8 of bytes that may be broken. Bytes are read one character at a time; where none starts, the
longest first part of one is set aside as broken, or as cut where the bytes end inside it.
-/

namespace StaticImage.Utf8

inductive Part where
  | char (c : Char)
  /-- So many bytes from an index on begin a character that does not go on. -/
  | broken (index length : Nat)
  /-- The bytes end inside a character that begins at an index. -/
  | cut (index : Nat)
  deriving DecidableEq, Repr

/-- For a first byte the bits it holds, how many bytes follow, and the range of the next one. -/
def lead? (b : UInt8) : Option (Nat × Nat × UInt8 × UInt8) :=
  if b < 0x80 then some (b.toNat, 0, 0x80, 0xBF)
  else if b < 0xC2 then none
  else if b < 0xE0 then some (b.toNat - 0xC0, 1, 0x80, 0xBF)
  else if b < 0xF0 then
    some (b.toNat - 0xE0, 2, if b = 0xE0 then 0xA0 else 0x80, if b = 0xED then 0x9F else 0xBF)
  else if b < 0xF5 then
    some (b.toNat - 0xF0, 3, if b = 0xF0 then 0x90 else 0x80, if b = 0xF4 then 0x8F else 0xBF)
  else none

def follow (index : Nat) :
    (missing taken : Nat) → (low high : UInt8) → (code : Nat) → List UInt8 →
      Part × Nat × List UInt8
  | 0, taken, _, _, code, rest => (.char (Char.ofNat code), taken, rest)
  | _ + 1, taken, _, _, _, [] => (.cut index, taken, [])
  | missing + 1, taken, low, high, code, b :: rest =>
    if low ≤ b && b ≤ high then
      follow index missing (taken + 1) 0x80 0xBF (code * 64 + (b.toNat - 0x80)) rest
    else (.broken index taken, taken, b :: rest)

def partsFrom : (steps index : Nat) → List UInt8 → List Part
  | 0, _, _ => []
  | _ + 1, _, [] => []
  | steps + 1, index, b :: rest =>
    match lead? b with
    | none => .broken index 1 :: partsFrom steps (index + 1) rest
    | some (code, missing, low, high) =>
      match follow index missing 1 low high code rest with
      | (part, taken, rest) => part :: partsFrom steps (index + taken) rest

def parts (bytes : List UInt8) : List Part :=
  partsFrom bytes.length 0 bytes

def Part.char? : Part → Option Char
  | char c => some c
  | _ => none

def lossy (bytes : List UInt8) : String :=
  String.ofList ((parts bytes).map fun p => p.char?.getD (Char.ofNat 0xFFFD))

def decode (bytes : List UInt8) : Except Part String :=
  match (parts bytes).find? fun p => p.char?.isNone with
  | some p => .error p
  | none => .ok (String.ofList ((parts bytes).filterMap Part.char?))

def Part.message : Part → String
  | char c => String.singleton c
  | broken index length =>
    "invalid utf-8 sequence of " ++ toString length ++ " bytes from index " ++ toString index
  | cut index => "incomplete utf-8 byte sequence from index " ++ toString index

end StaticImage.Utf8
