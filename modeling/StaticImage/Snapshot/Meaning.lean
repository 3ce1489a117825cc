import StaticImage.Heap.Basic
import StaticImage.Host
import StaticImage.Snapshot.Item
import StaticImage.Snapshot.Problem
import StaticImage.Text.Hex

/-!
The meaning of expressions: scalars stand for themselves, a name for the item declared under it,
and lists, maps and constructors allocate objects, inner ones first. Objects that are there
already stay as they are.
-/

namespace StaticImage.Snapshot

/-- What an item is declared as; a closure without a prototype field has a prototype of its own. -/
inductive Declared where
  | proto (id : ProtoId)
  | closure (id : ClosureId) (own : Option ProtoId)
  | classItem (id : ClassId)
  | moduleItem (id : ModuleId)
  deriving DecidableEq, Repr

def Declared.value? : Declared → Option Value
  | proto _ => none
  | closure id _ => some (.plain (.closure id))
  | classItem id => some (.plain (.classObject id))
  | moduleItem id => some (.plain (.moduleObject id))

structure Scope where
  host : Host
  names : List (String × Declared)

abbrev Load := StateT Heap (Except (Located Problem))

namespace Load

def fail {α : Type} (p : Problem) (span : Span) : Load α :=
  fun _ => .error ⟨p, span⟩

def mismatch {α : Type} (expected : String) (e : Located Expr) : Load α :=
  fail (.mismatch expected e.value.describe) e.span

end Load

open Load

def intOf (e : Located Expr) : Load Int :=
  match e.value with
  | .int n => pure n
  | _ => mismatch "integer" e

def byteOf (e : Located Expr) : Load UInt8 := do
  let n ← intOf e
  if 0 ≤ n ∧ n < UInt8.size then pure (UInt8.ofNat n.toNat) else fail (.outOfRange n "u8") e.span

def wordOf (e : Located Expr) : Load UInt32 := do
  let n ← intOf e
  if 0 ≤ n ∧ n < UInt32.size then pure (UInt32.ofNat n.toNat) else fail (.outOfRange n "u32") e.span

def hostIntOf (s : Scope) (e : Located Expr) : Load Int := do
  let n ← intOf e
  if s.host.fits n then pure n else fail (.outOfRange n "int") e.span

def stringOf (e : Located Expr) : Load String :=
  match e.value with
  | .string content => pure content
  | _ => mismatch "string" e

def nameOf (e : Located Expr) : Load String :=
  match e.value with
  | .string content => pure content
  | .ref name => pure name
  | _ => mismatch "name" e

def listOf (e : Located Expr) : Load (List (Located Expr)) :=
  match e.value with
  | .list items => pure items
  | _ => mismatch "list" e

def resolve (s : Scope) (e : Located Expr) : Load (String × Declared) :=
  match e.value with
  | .ref name =>
    match s.names.lookup name with
    | some d => pure (name, d)
    | none => fail (.unknownItem name) e.span
  | _ => mismatch "item name" e

def protoRef (s : Scope) (e : Located Expr) : Load ProtoId := do
  match ← resolve s e with
  | (_, .proto id) => pure id
  | (name, _) => fail (.notA name "proto") e.span

def classRef (s : Scope) (e : Located Expr) : Load (Option ClassId) :=
  match e.value with
  | .nil => pure none
  | _ => do
    match ← resolve s e with
    | (_, .classItem id) => pure (some id)
    | (name, _) => fail (.notA name "class") e.span

def reference (s : Scope) (e : Located Expr) : Load Value := do
  let (name, d) ← resolve s e
  match d.value? with
  | some v => pure v
  | none => fail (.notValue name) e.span

def realOf (s : Scope) (literal : String) (span : Span) : Load Value :=
  match s.host.format.read? literal with
  | some r => pure (.plain (.real r))
  | none => fail (.invalidReal literal) span

def newList (items : List Value) : Load Value :=
  modifyGet fun h =>
    let (id, h) := h.addList items
    (.plain (.list id), h)

def newMap (t : Table) : Load Value :=
  modifyGet fun h =>
    let (id, h) := h.addTable t
    (.plain (.map id), h)

def newInstance (i : InstanceObject) : Load Value :=
  modifyGet fun h =>
    let (id, h) := h.addInstance i
    (.plain (.instanceObject id), h)

/-- One byte from two digits; the first may be a plus sign. -/
def hexByte? (high low : Char) : Option UInt8 := do
  let low ← Hex.value? low
  if high = '+' then some (UInt8.ofNat low)
  else
    let high ← Hex.value? high
    some (UInt8.ofNat (high * 16 + low))

def hexBytes? : List Char → Option (List UInt8)
  | [] => some []
  | [_] => none
  | high :: low :: rest => do
    let b ← hexByte? high low
    let bytes ← hexBytes? rest
    some (b :: bytes)

def constructors : List String :=
  ["var", "static", "native", "ntvclos", "ptr", "bytes", "map_instance", "list_instance",
    "instance"]

/-- Applies a constructor to its argument; `inner` is the value of the argument. -/
def construct (s : Scope) (function : Located String) (argument : Located Expr)
    (inner : Load Value) : Load Value :=
  match function.value with
  | "var" => do return .plain (.slot (← hostIntOf s argument))
  | "static" => do return (← inner).withStatic
  | "native" => do return .plain (.nativeFunction (← nameOf argument))
  | "ntvclos" => do return .plain (.nativeClosure (← nameOf argument))
  | "ptr" => do return .plain (.nativePointer (← nameOf argument))
  | "bytes" => do
    match hexBytes? (← stringOf argument).toList with
    | some data => newInstance (.bytes data)
    | none => fail .invalidHex argument.span
  | "map_instance" => do
    match (← inner).data with
    | .map id => newInstance (.wrapMap id)
    | _ => mismatch "map" argument
  | "list_instance" => do
    match (← inner).data with
    | .list id => newInstance (.wrapList id)
    | _ => mismatch "list" argument
  | "instance" => do
    match ← classRef s argument with
    | some id => newInstance ⟨.user id, .members [], none, none⟩
    | none => mismatch "class" argument
  | other => fail (.unknownConstructor other) function.span

/-- A bare name is a string where it is a key; `inner` is the value of any other key. -/
def mapKey (e : Expr) (span : Span) (inner : Load Value) : Load Value :=
  match e with
  | .ref name => pure (.plain (.string name))
  | .nil => fail .nilKey span
  | _ => inner

def bind (t : Table) (key value : Value) (keySpan : Span) : Load Table :=
  match t.insert key value with
  | .ok (_, t) => pure t
  | .error .nilKey => fail .nilKey keySpan

mutual

def value (s : Scope) : Expr → Span → Load Value
  | .nil, _ => pure (.plain .nil)
  | .bool b, _ => pure (.plain (.bool b))
  | .int n, span => do return .plain (.int (← hostIntOf s ⟨.int n, span⟩))
  | .real literal, span => realOf s literal span
  | .string content, _ => pure (.plain (.string content))
  | .ref name, span => reference s ⟨.ref name, span⟩
  | .call function [⟨e, at_⟩], _ => construct s function ⟨e, at_⟩ (value s e at_)
  | .call function _, span =>
    if function.value ∈ constructors then fail (.arity function.value) span
    else fail (.unknownConstructor function.value) function.span
  | .list items, _ => do newList (← values s items)
  | .map entries, _ => do newMap (← bindings s .empty entries)

def values (s : Scope) : List (Located Expr) → Load (List Value)
  | [] => pure []
  | ⟨e, span⟩ :: items => do
    let v ← value s e span
    let vs ← values s items
    pure (v :: vs)

def bindings (s : Scope) (t : Table) : List (Located Expr × Located Expr) → Load Table
  | [] => pure t
  | (⟨key, keySpan⟩, ⟨e, span⟩) :: entries => do
    let k ← mapKey key keySpan (value s key keySpan)
    let v ← value s e span
    bindings s (← bind t k v keySpan) entries

end

def valueOf (s : Scope) (e : Located Expr) : Load Value :=
  value s e.value e.span

def valuesOf (s : Scope) (e : Located Expr) : Load (List Value) := do
  values s (← listOf e)

end StaticImage.Snapshot
