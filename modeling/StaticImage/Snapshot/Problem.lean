import StaticImage.Parsing.Failure

namespace StaticImage.Snapshot

inductive Problem where
  | unknownKind (kind : String)
  | unnamed
  | duplicateItem (name : String)
  | unknownItem (name : String)
  | unknownField (kind field : String)
  | duplicateField (name : String)
  | mismatch (expected found : String)
  | outOfRange (n : Int) (type : String)
  | invalidReal (literal : String)
  | unknownConstructor (name : String)
  | arity (constructor : String)
  | invalidHex
  | nilKey
  /-- A prototype where a value is expected. -/
  | notValue (name : String)
  | notA (name expected : String)
  deriving DecidableEq, Repr

def Problem.message : Problem → String
  | unknownKind kind =>
    "unknown item kind '" ++ kind ++ "', expected proto, closure, class, module or builtins"
  | unnamed => "item has neither a name nor a 'name' field"
  | duplicateItem name => "item '" ++ name ++ "' is defined twice"
  | unknownItem name => "no item named '" ++ name ++ "'"
  | unknownField kind field => kind ++ " has no field '" ++ field ++ "'"
  | duplicateField name => "field '" ++ name ++ "' is given twice"
  | mismatch expected found => "expected " ++ expected ++ ", found " ++ found
  | outOfRange n type => toString n ++ " does not fit in " ++ type
  | invalidReal literal => "invalid real literal '" ++ literal ++ "'"
  | unknownConstructor name => "unknown constructor '" ++ name ++ "'"
  | arity constructor => constructor ++ "() takes 1 argument(s)"
  | invalidHex => "bytes() expects an even number of hex digits"
  | nilKey => "nil cannot be used as a map key"
  | notValue name => "prototype '" ++ name ++ "' is not a value, wrap it in a closure"
  | notA name expected => "'" ++ name ++ "' is not a " ++ expected

inductive RootError where
  | unknownItem (name : String)
  | noRoot
  deriving DecidableEq, Repr

def RootError.message : RootError → String
  | unknownItem name => "no item named '" ++ name ++ "' to solidify"
  | noRoot => "snapshot has no closure, class or module to solidify"

end StaticImage.Snapshot
