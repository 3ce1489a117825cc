import StaticImage.Code.Disassembly
import StaticImage.Identifier

/-!
Pieces of generated C text. Names that strings, keys and functions go by depend on whether strings
are weak references to strings the host has already; every other piece is spelled the same.
-/

namespace StaticImage

inductive Piece where
  | text (s : String)
  | string (content : String)
  | key (name : String) (link : Int)
  | functionName (content : String)
  | className (content : String)
  | externClass (name : String)
  | classSymbol (name : String)
  | localClass (name : String)
  | externClosure (symbol : String)
  | localClosure (symbol : String)
  | closureReference (isStatic : Bool) (symbol : String)
  | codeWord (i : Instruction) (pc : Nat)
  | foreignGlobal (slot : Nat)
  deriving DecidableEq, Repr

namespace Piece

/-- Strings of at least so many bytes go through the table of long strings. -/
def longString : Nat := 255

def stringText (weak : Bool) (content : String) : String :=
  let name := Identifier.ofText content
  if longString ≤ content.utf8ByteSize then "be_nested_str_long(" ++ name ++ ")"
  else if weak then "be_nested_str_weak(" ++ name ++ ")"
  else "be_nested_str(" ++ name ++ ")"

def keyText (weak : Bool) (name : String) (link : Int) : String :=
  (if weak then "be_const_key_weak(" else "be_const_key(") ++ Identifier.ofText name ++ ", " ++
    toString link ++ ")"

def nameText (weak : Bool) (content : String) : String :=
  if weak then "be_str_weak(" ++ Identifier.ofText content ++ ")"
  else "&be_const_str_" ++ Identifier.ofText content

def render (weak : Bool) : Piece → String
  | text s => s
  | string content => stringText weak content
  | key name link => keyText weak name link
  | functionName content => nameText weak content
  | className content => (if weak then "" else "(bstring*) ") ++ nameText weak content
  | externClass name => "extern const bclass be_class_" ++ name ++ ";"
  | classSymbol name => "be_class_" ++ name
  | localClass name => "be_local_class(" ++ name ++ ","
  | externClosure symbol => "extern bclosure *" ++ symbol ++ ";"
  | localClosure symbol => "be_local_closure(" ++ symbol ++ ","
  | closureReference isStatic symbol =>
    (if isStatic then "be_const_static_closure(" else "be_const_closure(") ++ symbol ++ "_closure)"
  | codeWord i pc =>
    "0x" ++ String.ofList (Hex.fixed Hex.upper 8 i.word.toNat) ++ ",  //" ++ i.text pc ++ "\n"
  | foreignGlobal slot => "\n===== unsupported global G" ++ toString slot ++ "\n"

end Piece

end StaticImage
