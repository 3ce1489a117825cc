namespace StaticImage

inductive DumpError where
  /-- A constant or member of a type without a constant form. -/
  | value (typeName : String)
  | key (typeName : String)
  | instanceOf (className : String)
  /-- An instance that is part of an inheritance chain. -/
  | linkedInstance
  | global (slot : Nat) (function : String)
  | root (typeName : String)
  /-- A map that is reached again while it is written. -/
  | cyclicMap
  | sink (reason : String)
  /-- A list, an instance or a prototype nested in itself. -/
  | endless
  /-- An object that the heap does not hold. -/
  | dangling
  deriving DecidableEq, Repr

namespace DumpError

inductive Category where
  | unsupported
  | invalidRoot
  | sink
  | malformedHeap
  deriving DecidableEq, Repr

def category : DumpError → Category
  | value _ => .unsupported
  | key _ => .unsupported
  | instanceOf _ => .unsupported
  | linkedInstance => .unsupported
  | global _ _ => .unsupported
  | cyclicMap => .unsupported
  | root _ => .invalidRoot
  | sink _ => .sink
  | endless => .malformedHeap
  | dangling => .malformedHeap

def message : DumpError → String
  | value typeName => "internal_error: Unsupported type in function constants: " ++ typeName
  | key typeName => "internal_error: Unsupported type in key: " ++ typeName
  | instanceOf className => "internal_error: unsupported class '" ++ className ++ "'"
  | linkedInstance => "internal_error: instance must not have a super/sub class"
  | global slot function =>
    "internal_error: Unsupported access to non-builtin global G" ++ toString slot ++ " in '" ++
      function ++ "'"
  | root typeName => "value_error: unsupported type '" ++ typeName ++ "'"
  | cyclicMap => "internal_error: map contains itself"
  | sink reason => "io_error: " ++ reason
  | endless => "internal_error: object contains itself"
  | dangling => "internal_error: object is missing"

end DumpError

end StaticImage
