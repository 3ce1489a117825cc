import StaticImage.Image.Function

/-!
Declarations of closures, classes and modules. A function is preceded by the classes among its
constants, a class by its methods and a module by its functions and classes, so that a name is
declared before it is used; a method is written only where its own class is.
-/

namespace StaticImage

def bannerEdge : String :=
  "********************************************************************"

def banner (kind name : String) : Step :=
  .text ("\n/" ++ bannerEdge ++ "\n** Solidified " ++ kind ++ ": " ++ name ++ "\n" ++
    bannerEdge ++ "/\n")

def classContext (name : String) : String :=
  "class_" ++ name

def borrowedPlan (function owner : String) : Plan :=
  .steps [.text ("// Borrowed method '" ++ function ++ "' from class '" ++ classContext owner ++
      "'\n"),
    .write (.externClosure (classContext owner ++ "_" ++ function)), .text "\n"]

def externPlan (name : String) : Plan :=
  .steps [.write (.externClass name), .text "\n"]

namespace Heap

/-- The classes among the constants of a prototype, but for the first one of a static method. -/
def hoistedClasses (p : Prototype) : List ClassId :=
  p.consts.zipIdx.filterMap fun (k, i) =>
    if i = 0 && p.isStaticMethod then none else k.class?

def functionPlan (h : Heap) (context : Option String) (id : ClosureId) (proto : ProtoId)
    (p : Prototype) (owner : Option String) : Plan :=
  Plan.steps [.function id, banner "function" p.name] >>
    (match owner with
      | none => Plan.nothing
      | some name => externPlan name) >>
    Plan.steps [.write (.localClosure (match context with
        | none => Identifier.ofText p.name
        | some context => context ++ "_" ++ Identifier.ofText p.name)),
      .text "   /* name */\n"] >>
    (h.function proto).plan h.builtins.length 2 >>
    Plan.text "\n);\n/*******************************************************************/\n\n"

/-- Writes a closure under the name in force; `hoist` writes a class that it needs. -/
def closurePlan (h : Heap) (hoist : ClassId → Plan) (context : Option String)
    (id : ClosureId) : Plan :=
  match (h.closureAt? id).bind fun c => (h.proto? c.proto).map fun p => (c, p) with
  | none => .stop .dangling
  | some (c, p) =>
    let before := (if c.captured.isEmpty then Plan.nothing
        else Plan.text "--> Unsupported upvals in closure <---") >>
      Plan.each hoist (hoistedClasses p)
    match p.owner with
    | none => before >> h.functionPlan context id c.proto p none
    | some owner =>
      match h.className? owner with
      | none => .stop .dangling
      | some name =>
        if context = some (classContext name) then
          before >> h.functionPlan context id c.proto p (some name)
        else borrowedPlan p.name name

def namedMembers (t : Table) : List Value :=
  t.compact.entries.filterMap fun e => (e.key.string?).map fun _ => e.value

def membersPlan (h : Heap) (members : Option MapId) (member : Value → Plan) : Plan :=
  match members with
  | none => .nothing
  | some id =>
    match h.table? id with
    | none => .stop .dangling
    | some t => Plan.steps [.compact id] >> Plan.each member (namedMembers t)

def memberTablePlan (h : Heap) (context : Option String) (members : Option MapId)
    (terminator : String) : Plan :=
  match members with
  | none => .text "    NULL,\n"
  | some id => (h.constant (.plain (.map id))).plan context none >> Plan.text terminator

def superPlan : Option String → Plan
  | none => .text "    NULL,\n"
  | some name => .steps [.text "    &", .write (.classSymbol name), .text ",\n"]

def classBodyPlan (h : Heap) (c : ClassObject) (superName : Option String) : Plan :=
  Plan.steps [banner "class" c.name] >>
    (match superName with
      | none => Plan.nothing
      | some name => externPlan name) >>
    Plan.steps [.write (.localClass c.name), .text ("\n    " ++ toString c.nvar.toNat ++ ",\n")] >>
    superPlan superName >>
    h.memberTablePlan (some (classContext c.name)) c.members ",\n" >>
    Plan.steps [.text "    ", .write (.className c.name), .text "\n);\n"]

/-- Writes a class unless it is one of those being written around it. -/
def classPlan (h : Heap) : (nesting : Nat) → (opened : List ClassId) → ClassId → Plan
  | 0, _, _ => .stop .endless
  | nesting + 1, opened, id =>
    if id ∈ opened then .nothing
    else
      match h.class? id with
      | none => .stop .dangling
      | some c =>
        .insideClass id
          (Plan.text "\n" >> externPlan c.name >>
            h.membersPlan c.members (fun v =>
              match v.closure? with
              | none => Plan.nothing
              | some closure =>
                h.closurePlan (h.classPlan nesting (id :: opened)) (some (classContext c.name))
                  closure) >>
            (match c.super with
              | none => h.classBodyPlan c none
              | some super =>
                match h.className? super with
                | none => Plan.stop .dangling
                | some name => h.classBodyPlan c (some name)))

def classNesting (h : Heap) : Nat :=
  h.classes.size + 1

def outermostClass (h : Heap) (id : ClassId) : Plan :=
  h.classPlan h.classNesting [] id

def modulePlan (h : Heap) (id : ModuleId) : Plan :=
  match h.module? id with
  | none => .stop .dangling
  | some m =>
    let name := m.name.getD ""
    h.membersPlan m.members (fun v =>
      match v.data with
      | .closure closure => h.closurePlan h.outermostClass none closure
      | .classObject cls => h.outermostClass cls
      | _ => .nothing) >>
    Plan.steps [banner "module" name,
      .text ("be_local_module(" ++ name ++ ",\n    \"" ++ name ++ "\",\n")] >>
    h.memberTablePlan none m.members "\n" >>
    Plan.text (");\nBE_EXPORT_VARIABLE be_define_const_native_module(" ++ name ++ ");\n/" ++
      bannerEdge ++ "/\n")

/-- The plan of a whole dump; the name in force matters only for a closure. -/
def rootPlan (h : Heap) (root : Value) (context : Option String) : Plan :=
  match root.data with
  | .closure id => h.closurePlan h.outermostClass context id
  | .classObject id => h.outermostClass id
  | .moduleObject id => h.modulePlan id
  | other => .stop (.root other.typeName)

end Heap

end StaticImage
