import StaticImage.Heap.Listing
import StaticImage.Image.Expression

namespace StaticImage

inductive FunctionImage (μ : Type) where
  | node (name : String) (nstack argc varg : UInt8) (upvalues : List Upvalue)
      (owner : Option String) (nested : List (Unit → FunctionImage μ)) (consts : List (Constant μ))
      (code : List Instruction)
  | refused (why : DumpError)

namespace Heap

def unfoldProto (h : Heap) :
    (nesting : Nat) → (opened : List ProtoId) → ProtoId → FunctionImage MapId
  | 0, _, _ => .refused .endless
  | nesting + 1, opened, id =>
    if id ∈ opened then .refused .endless
    else
      match h.proto? id with
      | none => .refused .dangling
      | some p =>
        match p.owner.map h.className? with
        | some none => .refused .dangling
        | owner =>
          .node p.name p.nstack p.argc p.varg p.upvalues owner.join
            (p.protos.map fun nested _ => h.unfoldProto nesting (id :: opened) nested)
            (p.consts.map h.constant) p.code

def function (h : Heap) (id : ProtoId) : FunctionImage MapId :=
  h.unfoldProto (h.protos.size + 1) [] id

end Heap

namespace FunctionImage

def spaces (n : Nat) : String :=
  String.ofList (List.replicate n ' ')

def fieldLine (pad value name : String) : Step :=
  .text (pad ++ value ++ "," ++ spaces 26 ++ "/* " ++ name ++ " */\n")

def nullLine (pad name : String) : Step :=
  .text (pad ++ "NULL," ++ spaces 23 ++ "/* " ++ name ++ " */\n")

def countText (n : Nat) : String :=
  let digits := toString n
  spaces (2 - digits.length) ++ digits

def flagText (b : Bool) : String :=
  if b then "1" else "0"

def upvaluesPlan (pad : String) (upvalues : List Upvalue) : Plan :=
  .steps (fieldLine pad (flagText !upvalues.isEmpty) "has upvals" ::
    if upvalues.isEmpty then [nullLine pad "no upvals"]
    else
      .text (pad ++ "( &(const bupvaldesc[" ++ countText upvalues.length ++
          "]) \x7b  /* upvals */\n") ::
        upvalues.map (fun u => .text (pad ++ "  be_local_const_upval(" ++ flagText u.inStack ++
          ", " ++ toString u.index.toNat ++ "),\n")) ++ [.text (pad ++ "\x7d),\n")])

def ownerPlan (pad : String) : Option String → Plan
  | none => .text (pad ++ "NULL, \n")
  | some name => .steps [.text (pad ++ "&"), .write (.classSymbol name), .text ", \n"]

def constsPlan (pad : String) (consts : List (Constant MapId)) : Plan :=
  Plan.steps [fieldLine pad (flagText !consts.isEmpty) "has constants"] >>
    if consts.isEmpty then Plan.steps [nullLine pad "no const"]
    else
      Plan.text (pad ++ "( &(const bvalue[" ++ countText consts.length ++
          "]) \x7b     /* constants */\n") >>
        Plan.each (fun (c, k) =>
          Plan.text (pad ++ "/* K" ++ Prototype.indexText k ++ " */  ") >>
            c.plan none none >> Plan.text ",\n") consts.zipIdx >>
        Plan.text (pad ++ "\x7d),\n")

/-- A code word; it may only reach globals below `builtins`, any other stops the dump behind it. -/
def codeWordPlan (builtins : Nat) (name pad : String) (i : Instruction) (pc : Nat) : Plan :=
  .steps ([.text (pad ++ "  "), .write (.codeWord i pc)] ++
    match i.globalAccess with
    | none => []
    | some slot =>
      if slot < builtins then [] else [.write (.foreignGlobal slot), .stop (.global slot name)])

def codePlan (builtins : Nat) (name pad : String) (code : List Instruction) : Plan :=
  Plan.text (pad ++ "( &(const binstruction[" ++ countText code.length ++
      "]) \x7b  /* code */\n") >>
    Plan.each (fun (i, pc) => codeWordPlan builtins name pad i pc) code.zipIdx >>
    Plan.text (pad ++ "\x7d)\n")

mutual

def plan (builtins : Nat) : (column : Nat) → FunctionImage MapId → Plan
  | _, .refused why => .stop why
  | column, .node name nstack argc varg upvalues owner nested consts code =>
    let pad := spaces (column + 2)
    Plan.steps [.text (spaces column ++ "be_nested_proto(\n"),
      fieldLine pad (toString nstack.toNat) "nstack",
      fieldLine pad (toString argc.toNat) "argc",
      fieldLine pad (toString varg.toNat) "varg"] >>
    upvaluesPlan pad upvalues >>
    Plan.steps [fieldLine pad (flagText !nested.isEmpty) "has sup protos"] >>
    (if nested.isEmpty then ownerPlan pad owner
      else
        Plan.text (pad ++ "( &(const struct bproto*[" ++ countText (nested.length + 1) ++
            "]) \x7b\n") >>
          nestedPlan builtins (column + 4) nested >> ownerPlan pad owner >>
          Plan.text (pad ++ "\x7d),\n")) >>
    constsPlan pad consts >>
    Plan.steps [.text pad, .write (.functionName name), .text ",\n",
      .text (pad ++ "&be_const_str_solidified,\n")] >>
    codePlan builtins name pad code >>
    Plan.text (spaces column ++ ")")

def nestedPlan (builtins : Nat) (column : Nat) : List (Unit → FunctionImage MapId) → Plan
  | [] => .nothing
  | f :: fs =>
    plan builtins column (f ()) >> Plan.text ",\n" >> nestedPlan builtins column fs

end

end FunctionImage

end StaticImage
