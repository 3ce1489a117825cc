import StaticImage.Parsing.Failure

namespace StaticImage.Snapshot

/-- A bare name refers to an item, or is a string where it is the key of a map. -/
inductive Expr where
  | nil
  | bool (b : Bool)
  | int (n : Int)
  | real (literal : String)
  | string (content : String)
  | ref (name : String)
  | call (function : Located String) (arguments : List (Located Expr))
  | list (items : List (Located Expr))
  | map (entries : List (Located Expr × Located Expr))

def Expr.describe : Expr → String
  | nil => "nil"
  | bool _ => "bool"
  | int _ => "integer"
  | real _ => "real"
  | string _ => "string"
  | ref _ => "reference"
  | call _ _ => "call"
  | list _ => "list"
  | map _ => "map"

structure Field where
  name : Located String
  value : Located Expr

structure Item where
  kind : Located String
  name : Option (Located String)
  fields : List Field
  span : Span

end StaticImage.Snapshot
