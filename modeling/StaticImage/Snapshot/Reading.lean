import StaticImage.Snapshot.Item
import StaticImage.Snapshot.Lexeme

namespace StaticImage.Snapshot

open Parsing

namespace Reading

abbrev Reader := Parser Token

def name : Reader (Located String) :=
  ((Parser.item (fun
    | Token.ident name => some name
    | _ => none) []).mapSpan fun name span => (⟨name, span⟩ : Located String)).labelled
      "identifier"

def literal : Reader Expr :=
  (Parser.item (fun
    | Token.nil => some Expr.nil
    | .bool b => some (.bool b)
    | .int n => some (.int n)
    | .real literal => some (.real literal)
    | .string content => some (.string content)
    | _ => none) []).labelled "literal"

def commaSeparated {α : Type} (p : Reader α) : Reader (List α) :=
  p.separated (Parser.one .comma)

def call (expr : Reader (Located Expr)) : Reader Expr :=
  ((name.both ((commaSeparated expr).between (Parser.one .openParen)
    (Parser.one .closeParen))).map fun (f, arguments) => .call f arguments).labelled "call"

def reference : Reader Expr :=
  name.map fun n => .ref n.value

def list (expr : Reader (Located Expr)) : Reader Expr :=
  (((commaSeparated expr).between (Parser.one .openBracket) (Parser.one .closeBracket)).map
    Expr.list).labelled "list"

def entry (expr : Reader (Located Expr)) : Reader (Located Expr × Located Expr) :=
  (expr.first (Parser.one .colon)).both expr

def map (expr : Reader (Located Expr)) : Reader Expr :=
  (((commaSeparated (entry expr)).between (Parser.one .openBrace)
    (Parser.one .closeBrace)).map Expr.map).labelled "map"

def exprBody (expr : Reader (Located Expr)) : Reader (Located Expr) :=
  ((((literal.or (call expr)).or reference).or (list expr)).or (map expr)).mapSpan
    fun e span => ⟨e, span⟩

def expr : Reader (Located Expr) :=
  Parser.recursive exprBody

def field : Reader Field :=
  (((name.first (Parser.one .colon)).both expr).map fun (name, value) =>
    (⟨name, value⟩ : Field)).labelled "field"

def item : Reader Item :=
  (((name.both name.optional).both ((commaSeparated field).between (Parser.one .openBrace)
    (Parser.one .closeBrace))).mapSpan fun ((kind, name), fields) span =>
      (⟨kind, name, fields, span⟩ : Item)).labelled "item"

def items : Reader (List Item) :=
  item.many.first Parser.ending

end Reading

/-- Tokens of a text of so many characters; behind the last one there is room for one more. -/
def tokenSource (length : Nat) (tokens : List (Token × Span)) : Source Token :=
  ⟨tokens.toArray, ⟨length, length + 1⟩⟩

structure TextError where
  span : Span
  note : String
  message : String
  deriving DecidableEq, Repr

def TextError.ofFailure {τ : Type} (display : τ → String) (f : Failure τ) : TextError :=
  ⟨f.span, f.note display, f.message display⟩

/-- The items of a text, or all errors in it; tokens are only read if all of them are sound. -/
def parse (text : String) : Except (List TextError) (List Item) :=
  match lex text with
  | (some tokens, []) =>
    match Reading.items.run (tokenSource text.length tokens) with
    | (some items, []) => .ok items
    | (_, failures) => .error (failures.map (TextError.ofFailure Token.display))
  | (_, failures) => .error (failures.map (TextError.ofFailure String.singleton))

end StaticImage.Snapshot
