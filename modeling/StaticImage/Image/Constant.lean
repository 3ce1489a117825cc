import StaticImage.Heap.Basic
import StaticImage.Image.DumpError

/-!
Constants: values unfolded along lists, maps and wrapper instances into finite trees. A place that
has no constant form is a leaf of its own, so that what stands before it can still be written.
Maps are unfolded as they lie after compaction, and `μ` labels the map each was read from. Shared
objects are unfolded at each place, so items and entries are worked out only when asked for.
-/

namespace StaticImage

inductive ConstantKey where
  | text (name : String)
  | number (n : Int)
  | refused (typeName : String)
  deriving DecidableEq, Repr

structure Binding (α : Type) where
  key : ConstantKey
  link : Int
  value : α

inductive Wrapper where
  | map
  | list
  deriving DecidableEq, Repr

inductive Constant (μ : Type) where
  | nil
  | bool (b : Bool)
  | int (n : Int)
  | slot (n : Int)
  | real (r : HostReal)
  | string (content : String)
  | closure (isStatic : Bool) (owner : Option String) (name : String)
  | classNamed (name : String)
  | nativePointer
  | nativeFunction (isStatic : Bool)
  | bytes (data : List UInt8)
  | wrapped (kind : Wrapper) (inner : Constant μ)
  | list (items : List (Unit → Constant μ))
  | map (label : μ) (bindings : List (Binding (Unit → Constant μ)))
  | refused (why : DumpError)

def Wrapper.name : Wrapper → String
  | map => "map"
  | list => "list"

def Datum.constantKey : Datum → ConstantKey
  | .string text => .text text
  | .int n => .number n
  | other => .refused other.typeName

namespace Heap

def closureConstant (h : Heap) (isStatic : Bool) (id : ClosureId) : Constant MapId :=
  match (h.closureAt? id).bind fun c => h.proto? c.proto with
  | none => .refused .dangling
  | some p =>
    match p.owner with
    | none => .closure isStatic none p.name
    | some owner =>
      match h.className? owner with
      | none => .refused .dangling
      | some name => .closure isStatic (some name) p.name

/-- What an instance wraps, or the constant it is if it wraps no value. -/
def instanceContent (h : Heap) (i : InstanceObject) : Constant MapId ⊕ (Wrapper × Value) :=
  if i.super.isSome || i.sub.isSome then .inl (.refused .linkedInstance)
  else
    match i.ofClass, i.data with
    | .bytes, .bytes data => .inl (.bytes data)
    | .bytes, _ => .inl (.refused (.instanceOf "bytes"))
    | .user id, _ =>
      match h.className? id with
      | none => .inl (.refused .dangling)
      | some name => .inl (.refused (.instanceOf name))
    | .map, .members (inner :: _) => .inr (.map, inner)
    | .map, _ => .inl (.refused (.instanceOf "map"))
    | .list, .members (inner :: _) => .inr (.list, inner)
    | .list, _ => .inl (.refused (.instanceOf "list"))

/-- Unfolds a value while the maps in `opened` are being unfolded around it. -/
def unfold (h : Heap) : (nesting : Nat) → (opened : List MapId) → Value → Constant MapId
  | 0, _, _ => .refused .endless
  | nesting + 1, opened, v =>
    match v.data with
    | .nil => .nil
    | .bool b => .bool b
    | .int n => .int n
    | .slot n => .slot n
    | .real r => .real r
    | .string text => .string text
    | .closure id => h.closureConstant v.isStatic id
    | .classObject id =>
      match h.className? id with
      | none => .refused .dangling
      | some name => .classNamed name
    | .nativePointer _ => .nativePointer
    | .nativeFunction _ => .nativeFunction v.isStatic
    | .nativeClosure _ => .refused (.value v.data.typeName)
    | .moduleObject _ => .refused (.value v.data.typeName)
    | .instanceObject id =>
      match (h.instance? id).map h.instanceContent with
      | none => .refused .dangling
      | some (.inl c) => c
      | some (.inr (kind, inner)) => .wrapped kind (h.unfold nesting opened inner)
    | .list id =>
      match h.list? id with
      | none => .refused .dangling
      | some items => .list (items.map fun item _ => h.unfold nesting opened item)
    | .map id =>
      if id ∈ opened then .refused .cyclicMap
      else
        match h.table? id with
        | none => .refused .dangling
        | some t =>
          .map id (t.compact.entries.map fun e =>
            ⟨e.key.data.constantKey, e.link, fun _ => h.unfold nesting (id :: opened) e.value⟩)

/-- No map occurs twice on the way into a value, and between two maps no list or instance does. -/
def nesting (h : Heap) : Nat :=
  (h.maps.size + 1) * (h.lists.size + h.instances.size + 1)

def constant (h : Heap) (v : Value) : Constant MapId :=
  h.unfold h.nesting [] v

end Heap

end StaticImage
