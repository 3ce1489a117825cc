import StaticImage.Text.Printable

namespace StaticImage.Snapshot

/-- A real keeps its literal, so that the format it is read in can be chosen later. -/
inductive Token where
  | ident (name : String)
  | nil
  | bool (b : Bool)
  | int (n : Int)
  | real (literal : String)
  | string (content : String)
  | colon
  | comma
  | openParen
  | closeParen
  | openBracket
  | closeBracket
  | openBrace
  | closeBrace
  deriving DecidableEq, Repr

def Token.display : Token → String
  | ident name => name
  | nil => "nil"
  | bool b => if b then "true" else "false"
  | int n => toString n
  | real literal => literal
  | string content => Text.quote content
  | colon => ":"
  | comma => ","
  | openParen => "("
  | closeParen => ")"
  | openBracket => "["
  | closeBracket => "]"
  | openBrace => "\x7b"
  | closeBrace => "\x7d"

def Token.ofWord (word : String) : Token :=
  if word = "nil" then nil
  else if word = "true" then bool true
  else if word = "false" then bool false
  else ident word

end StaticImage.Snapshot
