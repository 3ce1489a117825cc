import StaticImage.Code.Instruction
import StaticImage.Heap.Table

namespace StaticImage

structure Upvalue where
  inStack : Bool
  index : UInt8
  deriving DecidableEq, Repr

/-- A compiled function; `owner` is the class it was compiled in, if it is a method. -/
structure Prototype where
  name : String
  source : String
  nstack : UInt8
  argc : UInt8
  varg : UInt8
  upvalues : List Upvalue
  protos : List ProtoId
  owner : Option ClassId
  consts : List Value
  code : List Instruction
  deriving DecidableEq, Repr

namespace Prototype

def named (name : String) : Prototype :=
  ⟨name, "", 0, 0, 0, [], [], none, [], []⟩

/-- The third flag of `varg` marks a static method. -/
def isStaticMethod (p : Prototype) : Bool :=
  p.varg.toNat / 4 % 2 = 1

end Prototype

structure Closure where
  proto : ProtoId
  captured : List Value
  deriving DecidableEq, Repr

structure ClassObject where
  name : String
  nvar : UInt32
  super : Option ClassId
  members : Option MapId
  deriving DecidableEq, Repr

structure ModuleObject where
  name : Option String
  members : Option MapId
  deriving DecidableEq, Repr

inductive InstanceClass where
  | bytes
  | map
  | list
  | user (id : ClassId)
  deriving DecidableEq, Repr

inductive InstanceData where
  | bytes (data : List UInt8)
  | members (values : List Value)
  deriving DecidableEq, Repr

structure InstanceObject where
  ofClass : InstanceClass
  data : InstanceData
  super : Option InstanceId
  sub : Option InstanceId
  deriving DecidableEq, Repr

namespace InstanceObject

def bytes (data : List UInt8) : InstanceObject :=
  ⟨.bytes, .bytes data, none, none⟩

def wrapMap (id : MapId) : InstanceObject :=
  ⟨.map, .members [.plain (.map id)], none, none⟩

def wrapList (id : ListId) : InstanceObject :=
  ⟨.list, .members [.plain (.list id)], none, none⟩

end InstanceObject

structure Heap where
  protos : Array Prototype
  closures : Array Closure
  classes : Array ClassObject
  modules : Array ModuleObject
  instances : Array InstanceObject
  maps : Array Table
  lists : Array (List Value)
  builtins : List String
  deriving DecidableEq, Repr

namespace Heap

def defaultBuiltins : List String :=
  ["assert", "bool", "bytes", "call", "classname", "classof", "compile", "format", "global",
    "input", "int", "isinstance", "issubclass", "list", "map", "module", "number", "open", "print",
    "range", "real", "size", "str", "super", "type", "__iterator__", "__hasnext__", "__next__",
    "_class"]

def empty : Heap :=
  ⟨#[], #[], #[], #[], #[], #[], #[], defaultBuiltins⟩

def proto? (h : Heap) (id : ProtoId) : Option Prototype :=
  h.protos[id.index]?

def closureAt? (h : Heap) (id : ClosureId) : Option Closure :=
  h.closures[id.index]?

def class? (h : Heap) (id : ClassId) : Option ClassObject :=
  h.classes[id.index]?

def module? (h : Heap) (id : ModuleId) : Option ModuleObject :=
  h.modules[id.index]?

def instance? (h : Heap) (id : InstanceId) : Option InstanceObject :=
  h.instances[id.index]?

def table? (h : Heap) (id : MapId) : Option Table :=
  h.maps[id.index]?

def list? (h : Heap) (id : ListId) : Option (List Value) :=
  h.lists[id.index]?

def addProto (h : Heap) (p : Prototype) : ProtoId × Heap :=
  (⟨h.protos.size⟩, { h with protos := h.protos.push p })

def addClosure (h : Heap) (c : Closure) : ClosureId × Heap :=
  (⟨h.closures.size⟩, { h with closures := h.closures.push c })

def addClass (h : Heap) (c : ClassObject) : ClassId × Heap :=
  (⟨h.classes.size⟩, { h with classes := h.classes.push c })

def addModule (h : Heap) (m : ModuleObject) : ModuleId × Heap :=
  (⟨h.modules.size⟩, { h with modules := h.modules.push m })

def addInstance (h : Heap) (i : InstanceObject) : InstanceId × Heap :=
  (⟨h.instances.size⟩, { h with instances := h.instances.push i })

def addTable (h : Heap) (t : Table) : MapId × Heap :=
  (⟨h.maps.size⟩, { h with maps := h.maps.push t })

def addList (h : Heap) (items : List Value) : ListId × Heap :=
  (⟨h.lists.size⟩, { h with lists := h.lists.push items })

def modifyProto (h : Heap) (id : ProtoId) (f : Prototype → Prototype) : Heap :=
  { h with protos := h.protos.modify id.index f }

def modifyClosure (h : Heap) (id : ClosureId) (f : Closure → Closure) : Heap :=
  { h with closures := h.closures.modify id.index f }

def modifyClass (h : Heap) (id : ClassId) (f : ClassObject → ClassObject) : Heap :=
  { h with classes := h.classes.modify id.index f }

def modifyModule (h : Heap) (id : ModuleId) (f : ModuleObject → ModuleObject) : Heap :=
  { h with modules := h.modules.modify id.index f }

def modifyTable (h : Heap) (id : MapId) (f : Table → Table) : Heap :=
  { h with maps := h.maps.modify id.index f }

def isBuiltin (h : Heap) (slot : Nat) : Bool :=
  slot < h.builtins.length

def builtinName? (h : Heap) (slot : Nat) : Option String :=
  h.builtins[slot]?

def builtinSlot? (h : Heap) (name : String) : Option Nat :=
  h.builtins.findIdx? (· == name)

def builtinsText (h : Heap) : String :=
  "[" ++ ", ".intercalate h.builtins ++ "]"

def className? (h : Heap) (id : ClassId) : Option String :=
  (h.class? id).map ClassObject.name

def memberTable? (h : Heap) (root : Datum) : Option Table :=
  match root with
  | .classObject id => do h.table? (← (← h.class? id).members)
  | .moduleObject id => do h.table? (← (← h.module? id).members)
  | _ => none

/-- The closures a root defines: itself, or those among its members in slot order. -/
def rootClosures (h : Heap) (root : Value) : List ClosureId :=
  match root.data with
  | .closure id => [id]
  | data =>
    match h.memberTable? data with
    | none => []
    | some t => t.entries.filterMap fun e => e.value.closure?

end Heap

end StaticImage
