import StaticImage.Snapshot.Meaning
import StaticImage.Snapshot.Reading

/-!
Loading a snapshot. Items may refer to each other in any order: all are declared first, which
allocates their objects, and then defined field by field. Every item that fails is reported once.
-/

namespace StaticImage.Snapshot

inductive Kind where
  | proto
  | closure
  | classKind
  | moduleKind
  | builtins
  deriving DecidableEq, Repr

namespace Kind

def name : Kind → String
  | proto => "proto"
  | closure => "closure"
  | classKind => "class"
  | moduleKind => "module"
  | builtins => "builtins"

def ofName? (name : String) : Option Kind :=
  [proto, closure, classKind, moduleKind, builtins].find? fun k => k.name == name

end Kind

def Item.field? (i : Item) (name : String) : Option Field :=
  i.fields.find? fun f => f.name.value == name

structure Declarations where
  heap : Heap
  names : List (String × Declared)

/-- The name an item is declared under, where it stands, and the name its object shows. -/
def itemName (i : Item) : Except (Located Problem) (String × Span × String) := do
  let shown ← match i.field? "name" with
    | none => pure none
    | some f =>
      match f.value.value with
      | .string content => pure (some content)
      | other => .error ⟨.mismatch "string" other.describe, f.value.span⟩
  match i.name, shown with
  | some n, shown => .ok (n.value, n.span, shown.getD n.value)
  | none, some shown => .ok (shown, i.span, shown)
  | none, none => .error ⟨.unnamed, i.span⟩

/-- Allocates the object of an item. A closure that names its prototype gets it when defined. -/
def allocate (h : Heap) (i : Item) (shown : String) : Kind → Option (Declared × Heap)
  | .proto =>
    let (id, h) := h.addProto (.named shown)
    some (.proto id, h)
  | .closure =>
    if (i.field? "proto").isSome then
      let (id, h) := h.addClosure ⟨.null, []⟩
      some (.closure id none, h)
    else
      let (own, h) := h.addProto (.named shown)
      let (id, h) := h.addClosure ⟨own, []⟩
      some (.closure id (some own), h)
  | .classKind =>
    let (id, h) := h.addClass ⟨shown, 0, none, none⟩
    some (.classItem id, h)
  | .moduleKind =>
    let (id, h) := h.addModule ⟨some shown, none⟩
    some (.moduleItem id, h)
  | .builtins => none

def itemKind (i : Item) : Except (Located Problem) Kind :=
  match Kind.ofName? i.kind.value with
  | some kind => .ok kind
  | none => .error ⟨.unknownKind i.kind.value, i.kind.span⟩

def declare (d : Declarations) (i : Item) :
    Except (Located Problem) (Option Declared × Declarations) := do
  let kind ← itemKind i
  if kind = .builtins then .ok (none, d)
  else
    let (name, span, shown) ← itemName i
    if (d.names.lookup name).isSome then .error ⟨.duplicateItem name, span⟩
    else
      match allocate d.heap i shown kind with
      | none => .ok (none, d)
      | some (declared, h) => .ok (some declared, ⟨h, d.names ++ [(name, declared)]⟩)

/-- Declares items one after the other: the first list holds the problems, the second what each item
was declared as. -/
def declareAll (d : Declarations) :
    List Item → List (Located Problem) × List (Item × Option Declared) × Declarations
  | [] => ([], [], d)
  | i :: items =>
    match declare d i with
    | .error p =>
      let (problems, declared, d) := declareAll d items
      (p :: problems, declared, d)
    | .ok (what, d) =>
      let (problems, declared, d) := declareAll d items
      (problems, (i, what) :: declared, d)

open Load

def upvalue (e : Located Expr) : Load Upvalue := do
  match ← listOf e with
  | [inStack, index] => do
    let inStack ← match inStack.value with
      | .bool b => pure b
      | .int 0 => pure false
      | .int 1 => pure true
      | _ => mismatch "bool" inStack
    pure ⟨inStack, ← byteOf index⟩
  | _ => mismatch "[instack, idx]" e

def setProto (id : ProtoId) (f : Prototype → Prototype) : Load Unit :=
  modify fun h => h.modifyProto id f

def protoField? (s : Scope) (id : ProtoId) (f : Field) : Option (Load Unit) :=
  let e := f.value
  match f.name.value with
  | "name" => some do
    let x ← stringOf e
    setProto id fun p => { p with name := x }
  | "source" => some do
    let x ← stringOf e
    setProto id fun p => { p with source := x }
  | "nstack" => some do
    let x ← byteOf e
    setProto id fun p => { p with nstack := x }
  | "argc" => some do
    let x ← byteOf e
    setProto id fun p => { p with argc := x }
  | "varg" => some do
    let x ← byteOf e
    setProto id fun p => { p with varg := x }
  | "upvals" => some do
    let x ← (← listOf e).mapM upvalue
    setProto id fun p => { p with upvalues := x }
  | "protos" => some do
    let x ← (← listOf e).mapM (protoRef s)
    setProto id fun p => { p with protos := x }
  | "class" => some do
    let x ← classRef s e
    setProto id fun p => { p with owner := x }
  | "consts" => some do
    let x ← valuesOf s e
    setProto id fun p => { p with consts := x }
  | "code" => some do
    let x ← (← listOf e).mapM wordOf
    setProto id fun p => { p with code := x.map Instruction.mk }
  | _ => none

def areCaptured (e : Expr) : Bool :=
  match e with
  | .list [] => true
  | .list items => items.any fun u =>
    match u.value with
    | .list _ => false
    | _ => true
  | _ => true

/-- A closure with a prototype of its own has the fields of that prototype as well. -/
def closureField? (s : Scope) (id : ClosureId) (own : Option ProtoId) (f : Field) :
    Option (Load Unit) :=
  let e := f.value
  if f.name.value = "proto" then some do
    let x ← protoRef s e
    modify fun h => h.modifyClosure id fun c => { c with proto := x }
  else if f.name.value = "upvals" ∧ areCaptured e.value then some do
    let x ← valuesOf s e
    modify fun h => h.modifyClosure id fun c => { c with captured := x }
  else own.bind fun own => protoField? s own f

def optionalMap (s : Scope) (e : Located Expr) : Load (Option MapId) :=
  match e.value with
  | .nil => pure none
  | .map _ => do
    match (← valueOf s e).data with
    | .map id => pure (some id)
    | _ => mismatch "map" e
  | _ => mismatch "map" e

def classField? (s : Scope) (id : ClassId) (f : Field) : Option (Load Unit) :=
  let e := f.value
  match f.name.value with
  | "name" => some do
    let x ← stringOf e
    modify fun h => h.modifyClass id fun c => { c with name := x }
  | "nvar" => some do
    let x ← wordOf e
    modify fun h => h.modifyClass id fun c => { c with nvar := x }
  | "super" => some do
    let x ← classRef s e
    modify fun h => h.modifyClass id fun c => { c with super := x }
  | "members" => some do
    let x ← optionalMap s e
    modify fun h => h.modifyClass id fun c => { c with members := x }
  | _ => none

def moduleField? (s : Scope) (id : ModuleId) (f : Field) : Option (Load Unit) :=
  let e := f.value
  match f.name.value with
  | "name" => some do
    let x ← stringOf e
    modify fun h => h.modifyModule id fun m => { m with name := some x }
  | "members" => some do
    let x ← optionalMap s e
    modify fun h => h.modifyModule id fun m => { m with members := x }
  | _ => none

def builtinsField? (f : Field) : Option (Load Unit) :=
  match f.name.value with
  | "names" => some do
    let x ← (← listOf f.value).mapM nameOf
    modify fun h => { h with builtins := x }
  | _ => none

def field? (s : Scope) (f : Field) : Option Declared → Option (Load Unit)
  | some (.proto id) => protoField? s id f
  | some (.closure id own) => closureField? s id own f
  | some (.classItem id) => classField? s id f
  | some (.moduleItem id) => moduleField? s id f
  | none => builtinsField? f

/-- The first field whose name an earlier one has. -/
def duplicate? : (seen : List String) → List Field → Option Field
  | _, [] => none
  | seen, f :: fields =>
    if f.name.value ∈ seen then some f else duplicate? (f.name.value :: seen) fields

def define (s : Scope) (i : Item) (what : Option Declared) : Load Unit := do
  match duplicate? [] i.fields with
  | some f => fail (.duplicateField f.name.value) f.name.span
  | none =>
    i.fields.forM fun f =>
      match field? s f what with
      | some effect => effect
      | none => fail (.unknownField i.kind.value f.name.value) f.name.span

/-- Defines items one after the other; one that fails leaves no trace in the heap. -/
def defineAll (s : Scope) (h : Heap) :
    List (Item × Option Declared) → List (Located Problem) × Heap
  | [] => ([], h)
  | (i, what) :: items =>
    match define s i what h with
    | .ok ((), h) => defineAll s h items
    | .error p =>
      let (problems, h) := defineAll s h items
      (p :: problems, h)

structure Loaded where
  heap : Heap
  /-- The items that are values, in source order. -/
  items : List (String × Value)

def lower (host : Host) (items : List Item) : Except (List (Located Problem)) Loaded :=
  match declareAll ⟨.empty, []⟩ items with
  | ([], declared, d) =>
    match defineAll ⟨host, d.names⟩ d.heap declared with
    | ([], h) =>
      .ok ⟨h, d.names.filterMap fun (name, what) => what.value?.map fun v => (name, v)⟩
    | (problems, _) => .error problems
  | (problems, _, _) => .error problems

inductive LoadError where
  | text (errors : List TextError)
  | items (problems : List (Located Problem))

def load (host : Host) (text : String) : Except LoadError Loaded :=
  match parse text with
  | .error errors => .error (.text errors)
  | .ok items =>
    match lower host items with
    | .error problems => .error (.items problems)
    | .ok loaded => .ok loaded

namespace Loaded

def item? (l : Loaded) (name : String) : Option Value :=
  l.items.lookup name

/-- The item of a name, or the last item. -/
def root (l : Loaded) : Option String → Except RootError Value
  | some name =>
    match l.item? name with
    | some v => .ok v
    | none => .error (.unknownItem name)
  | none =>
    match l.items.getLast? with
    | some (_, v) => .ok v
    | none => .error .noRoot

end Loaded

end StaticImage.Snapshot
