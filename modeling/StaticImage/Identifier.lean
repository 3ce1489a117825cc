import StaticImage.Text.Hex

/-!
Byte strings as C identifiers. A letter, a digit and an underscore stand for themselves, any other
byte is the marker `_X` with two hexadecimal digits, and the marker itself gains an underscore.
-/

namespace StaticImage.Identifier

def underscore : UInt8 := 0x5F

def markerEnd : UInt8 := 0x58

def isPlain (b : UInt8) : Bool :=
  (0x30 ≤ b && b ≤ 0x39) || (0x41 ≤ b && b ≤ 0x5A) || (0x61 ≤ b && b ≤ 0x7A) || b == underscore

def isPlainChar (c : Char) : Bool :=
  c.isAlphanum || c == '_'

/-- The spelling of a byte that starts no marker. -/
def spell (b : UInt8) : List Char :=
  if isPlain b then [Char.ofNat b.toNat] else '_' :: 'X' :: Hex.ofByte b

def encode : List UInt8 → List Char
  | [] => []
  | [b] => spell b
  | b :: c :: rest =>
    if b = underscore ∧ c = markerEnd then '_' :: 'X' :: '_' :: encode rest
    else spell b ++ encode (c :: rest)

def encodedLength : List UInt8 → Nat
  | [] => 0
  | [b] => if isPlain b then 1 else 4
  | b :: c :: rest =>
    if b = underscore ∧ c = markerEnd then 3 + encodedLength rest
    else (if isPlain b then 1 else 4) + encodedLength (c :: rest)

/-- The bytes an identifier stands for; a marker without its two digits is refused. -/
def decode : List Char → Option (List UInt8)
  | [] => some []
  | '_' :: 'X' :: '_' :: rest => (decode rest).map (underscore :: markerEnd :: ·)
  | '_' :: 'X' :: high :: low :: rest =>
    if Hex.isUpper high && Hex.isUpper low then
      (decode rest).map (UInt8.ofNat (Hex.value high * 16 + Hex.value low) :: ·)
    else none
  | '_' :: 'X' :: _ => none
  | c :: rest =>
    if isPlainChar c then (decode rest).map (UInt8.ofNat c.toNat :: ·) else none

def ofText (text : String) : String :=
  String.ofList (encode text.toUTF8.toList)

end StaticImage.Identifier
