import StaticImage.Decimal.Format

namespace StaticImage

structure ProtoId where
  index : Nat
  deriving DecidableEq, Repr

/-- The id of no prototype: those in a heap are numbered below it. -/
def ProtoId.null : ProtoId :=
  ⟨0xFFFFFFFF⟩

structure ClosureId where
  index : Nat
  deriving DecidableEq, Repr

structure ClassId where
  index : Nat
  deriving DecidableEq, Repr

structure ModuleId where
  index : Nat
  deriving DecidableEq, Repr

structure InstanceId where
  index : Nat
  deriving DecidableEq, Repr

structure MapId where
  index : Nat
  deriving DecidableEq, Repr

structure ListId where
  index : Nat
  deriving DecidableEq, Repr

/-- A value without its static flag; `slot` is the place of an instance variable. -/
inductive Datum where
  | nil
  | bool (b : Bool)
  | int (n : Int)
  | slot (n : Int)
  | real (r : HostReal)
  | string (text : String)
  | nativeFunction (name : String)
  | nativeClosure (name : String)
  | nativePointer (name : String)
  | closure (id : ClosureId)
  | classObject (id : ClassId)
  | moduleObject (id : ModuleId)
  | instanceObject (id : InstanceId)
  | map (id : MapId)
  | list (id : ListId)
  deriving DecidableEq, Repr

structure Value where
  data : Datum
  isStatic : Bool
  deriving DecidableEq, Repr

def Datum.typeName : Datum → String
  | .nil => "nil"
  | .bool _ => "bool"
  | .int _ => "int"
  | .slot _ => "var"
  | .real _ => "real"
  | .string _ => "string"
  | .nativeFunction _ => "ntvfunc"
  | .nativeClosure _ => "ntvclos"
  | .nativePointer _ => "comptr"
  | .closure _ => "closure"
  | .classObject _ => "class"
  | .moduleObject _ => "module"
  | .instanceObject _ => "instance"
  | .map _ => "map"
  | .list _ => "list"

namespace Value

def plain (data : Datum) : Value :=
  ⟨data, false⟩

def withStatic (v : Value) : Value :=
  ⟨v.data, true⟩

def isNil (v : Value) : Bool :=
  v.data = .nil

def string? (v : Value) : Option String :=
  match v.data with
  | .string text => some text
  | _ => none

def closure? (v : Value) : Option ClosureId :=
  match v.data with
  | .closure id => some id
  | _ => none

def class? (v : Value) : Option ClassId :=
  match v.data with
  | .classObject id => some id
  | _ => none

end Value

end StaticImage
