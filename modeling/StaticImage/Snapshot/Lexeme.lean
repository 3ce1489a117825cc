import StaticImage.Parsing.Parser
import StaticImage.Snapshot.Token
import StaticImage.Text.Printable

namespace StaticImage.Snapshot

open Parsing

namespace Lexeme

abbrev Lexer := Parser Char

/-- A line feed, perhaps behind a carriage return, or any other end of a line. -/
def lineEnd : Lexer Unit :=
  (((Parser.one '\r').optional.both (Parser.one '\n')).map fun _ => ()).or
    ((Parser.filter Text.isLineEnd).map fun _ => ())

def lineComment : Lexer Unit :=
  (((Parser.one '/').both (Parser.one '/')).both (lineEnd.or Parser.ending).skipUntil).map
    fun _ => ()

def blockComment : Lexer Unit :=
  (((Parser.one '/').both (Parser.one '*')).both
    ((Parser.one '*').both (Parser.one '/')).skipUntil).map fun _ => ()

def blanks : Lexer Unit :=
  ((((Parser.filter Text.isBlank).map fun _ => ()).or lineComment).or blockComment).many.map
    fun _ => ()

def isDecimal (c : Char) : Bool :=
  '0' ≤ c && c ≤ '9'

def digits : Lexer (List Char) :=
  (Parser.filter isDecimal).several

def hexDigits : Lexer (List Char) :=
  (Parser.filter Hex.isDigit).several

/-- A zero, or digits of which the first is none. -/
def whole : Lexer (List Char) :=
  (((Parser.filter fun c => isDecimal c && c != '0').both (Parser.filter isDecimal).many).map
    fun (c, cs) => c :: cs).or ((Parser.one '0').map fun c => [c])

def sign : Lexer Bool :=
  (Parser.one '-').optional.map Option.isSome

def exponent : Lexer (List Char) :=
  (((Parser.oneOf ['e', 'E']).both (Parser.oneOf ['+', '-']).optional).both digits).map
    fun ((mark, sign), digits) => mark :: sign.toList ++ digits

def minus (negative : Bool) : List Char :=
  if negative then ['-'] else []

def real : Lexer Token :=
  ((((sign.both whole).first (Parser.one '.')).both digits.optional).both exponent.optional).map
    fun (((negative, whole), fraction), exponent) =>
      .real (String.ofList (minus negative ++ whole ++ ['.'] ++ fraction.getD [] ++
        exponent.getD []))

/-- The number that digits of a base spell, without its sign; it ends below `2 ^ 63`. -/
def magnitude (kind : String) (base : Nat) (digits : List Char) : Except String Nat :=
  digits.foldlM (fun n c =>
    let n := n * base + Hex.value c
    if n < 1 <<< 63 then .ok n
    else .error ("invalid " ++ kind ++ " literal: number too large to fit in target type")) 0

def hexInteger : Lexer Nat :=
  ((((Parser.one '0').both (Parser.one 'x')).or
    ((Parser.one '0').both (Parser.one 'X'))).second hexDigits).check (magnitude "hex" 16)

def decimalInteger : Lexer Nat :=
  whole.check (magnitude "integer" 10)

def integer : Lexer Token :=
  (sign.both (hexInteger.or decimalInteger)).map fun (negative, n) =>
    .int (if negative then -(n : Int) else n)

def number : Lexer Token :=
  real.or integer

def byteEscape : Lexer Char :=
  ((Parser.filter Hex.isDigit).both (Parser.filter Hex.isDigit)).check fun (high, low) =>
    let code := Hex.value high * 16 + Hex.value low
    if code < 128 then .ok (Char.ofNat code)
    else .error "\\x escapes must be ASCII, use \\u\x7b..\x7d"

def codeEscape : Lexer Char :=
  (hexDigits.between (Parser.one '{') (Parser.one '}')).check fun digits =>
    let code := Hex.toNat digits
    if code.isValidChar then .ok (Char.ofNat code)
    else .error "invalid unicode escape"

def escape : Lexer Char :=
  (Parser.one '\\').second (Parser.choice
    [Parser.one '\\', Parser.one '"', (Parser.one 'n').map fun _ => '\n',
      (Parser.one 't').map fun _ => '\t', (Parser.one 'r').map fun _ => '\r',
      (Parser.one '0').map fun _ => '\x00', (Parser.one 'x').second byteEscape,
      (Parser.one 'u').second codeEscape])

def string : Lexer Token :=
  ((((Parser.one '"').second
    ((Parser.filter fun c => c != '\\' && c != '"').or escape).many).first
      (Parser.one '"')).map fun content => .string (String.ofList content)).labelled "string"

def isWordStart (c : Char) : Bool :=
  c.isAlpha || c == '_'

def isWordPart (c : Char) : Bool :=
  c.isAlphanum || c == '_'

def word : Lexer Token :=
  ((Parser.filter isWordStart).both (Parser.filter isWordPart).many).map fun (c, cs) =>
    Token.ofWord (String.ofList (c :: cs))

def punctuation : Lexer Token :=
  (Parser.oneOf ['(', ')', '{', '}', '[', ']', ':', ',']).map fun c =>
    if c = '(' then .openParen
    else if c = ')' then .closeParen
    else if c = '{' then .openBrace
    else if c = '}' then .closeBrace
    else if c = '[' then .openBracket
    else if c = ']' then .closeBracket
    else if c = ':' then .colon
    else .comma

def token : Lexer Token :=
  (((number.or string).or word).or punctuation).recovering

def tokens : Lexer (List (Token × Span)) :=
  (blanks.second ((token.mapSpan fun t span => (t, span)).first blanks).many).first
    Parser.ending

end Lexeme

def characters (text : List Char) : Source Char :=
  ⟨(text.zipIdx.map fun (c, i) => (c, ⟨i, i + 1⟩)).toArray, ⟨text.length, text.length⟩⟩

def lex (text : String) : Option (List (Token × Span)) × List (Failure Char) :=
  Lexeme.tokens.run (characters text.toList)

end StaticImage.Snapshot
