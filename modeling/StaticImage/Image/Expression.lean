import StaticImage.Image.Constant
import StaticImage.Image.Plan

namespace StaticImage

/-- The symbol of a closure without its suffix; methods go by their class, whatever is in force. -/
def closureSymbol (context : Option String) (owner : Option String) (name : String) : String :=
  let id := Identifier.ofText name
  match owner, context with
  | some owner, _ => "class_" ++ owner ++ "_" ++ id
  | none, some context => context ++ "_" ++ id
  | none, none => id

def nativeSymbol (context key : Option String) : String :=
  "be_ntv_" ++ context.getD "unknown" ++ "_" ++ key.getD "unknown"

def HostReal.constantText : HostReal → String
  | double bits =>
    "be_const_real_hex(0x" ++ String.ofList (Hex.fixed Hex.lower 16 bits.toNat) ++ ")"
  | single bits =>
    "be_const_real_hex(0x" ++ String.ofList (Hex.fixed Hex.upper 8 bits.toNat) ++ ")"

def bytesText (data : List UInt8) : String :=
  "be_const_bytes_instance(" ++ String.ofList (data.flatMap Hex.ofByte) ++ ")"

def Wrapper.opening (kind : Wrapper) : String :=
  "be_const_simple_instance(be_nested_simple_instance(&be_class_" ++ kind.name ++ ", \x7b\n" ++
    "        be_const_" ++ kind.name ++ "( * "

def Wrapper.closing : String :=
  "    ) \x7d ))"

def listOpening (count : Nat) : String :=
  "    be_nested_list(" ++ toString count ++ ",\n    ( (struct bvalue*) &(const bvalue[]) \x7b\n"

def mapOpening (count : Nat) : String :=
  "    be_nested_map(" ++ toString count ++
    ",\n    ( (struct bmapnode*) &(const bmapnode[]) \x7b\n"

def aggregateClosing : String :=
  "    \x7d))"

def ConstantKey.plan (link : Int) : ConstantKey → Plan
  | .text name => .steps [.text "        \x7b ", .write (.key name link), .text ", "]
  | .number n =>
    .text ("        \x7b be_const_key_int(" ++ toString n ++ ", " ++ toString link ++ "), ")
  | .refused typeName => .stop (.key typeName)

def ConstantKey.name? : ConstantKey → Option String
  | .text name => some name
  | .number _ => none
  | .refused _ => none

namespace Constant

mutual

def plan (context : Option String) : Option String → Constant MapId → Plan
  | _, .nil => .text "be_const_nil()"
  | _, .bool b => .text ("be_const_bool(" ++ (if b then "1" else "0") ++ ")")
  | _, .int n => .text ("be_const_int(" ++ toString n ++ ")")
  | _, .slot n => .text ("be_const_var(" ++ toString n ++ ")")
  | _, .real r => .text r.constantText
  | _, .string content => .write (.string content)
  | _, .closure isStatic owner name =>
    .write (.closureReference isStatic (closureSymbol context owner name))
  | _, .classNamed name => .steps [.text "be_const_class(", .write (.classSymbol name), .text ")"]
  | key, .nativePointer => .text ("be_const_comptr(&" ++ nativeSymbol context key ++ ")")
  | key, .nativeFunction isStatic =>
    .text ((if isStatic then "be_const_static_func(" else "be_const_func(") ++
      nativeSymbol context key ++ ")")
  | _, .bytes data => .text (bytesText data)
  | key, .wrapped kind inner =>
    Plan.text kind.opening >> plan context key inner >> Plan.text Wrapper.closing
  | _, .list items =>
    Plan.text (listOpening items.length) >> itemsPlan context items >>
      Plan.text aggregateClosing
  | _, .map id bindings =>
    Plan.steps [.compact id] >>
      Plan.insideMap id (Plan.text (mapOpening bindings.length) >> bindingsPlan context bindings >>
        Plan.text aggregateClosing)
  | _, .refused why => .stop why

def itemsPlan (context : Option String) : List (Unit → Constant MapId) → Plan
  | [] => .nothing
  | item :: items =>
    Plan.text "        " >> plan context (some "") (item ()) >> Plan.text ",\n" >>
      itemsPlan context items

def bindingsPlan (context : Option String) : List (Binding (Unit → Constant MapId)) → Plan
  | [] => .nothing
  | ⟨key, link, value⟩ :: bindings =>
    key.plan link >> plan context key.name? (value ()) >> Plan.text " \x7d,\n" >>
      bindingsPlan context bindings

end

end Constant

end StaticImage
