import StaticImage.Code.Disassembly
import StaticImage.Decimal.Notation
import StaticImage.Heap.Basic
import StaticImage.Text.Printable

namespace StaticImage

def Datum.text : Datum → String
  | .nil => "nil"
  | .bool b => if b then "true" else "false"
  | .int n => toString n
  | .slot n => "var(" ++ toString n ++ ")"
  | .real r => r.text
  | .string text => Text.quote text
  | .nativeFunction name => "<function: " ++ name ++ ">"
  | .nativeClosure name => "<ntvclos: " ++ name ++ ">"
  | .nativePointer name => "<ptr: " ++ name ++ ">"
  | other => "<" ++ other.typeName ++ ">"

def Value.text (v : Value) : String :=
  (if v.isStatic then "static " else "") ++ v.data.text

namespace Prototype

def upvalueText (u : Upvalue) : String :=
  "(" ++ (if u.inStack then "1" else "0") ++ "," ++ toString u.index.toNat ++ ")"

def indexText (n : Nat) : String :=
  let digits := toString n
  digits ++ String.ofList (List.replicate (3 - digits.length) ' ')

def lines (p : Prototype) (ownerName : Option String) : List String :=
  ["function " ++ p.name ++ " (source: " ++ p.source ++ ")",
    "nstack: " ++ toString p.nstack.toNat ++ " argc: " ++ toString p.argc.toNat ++ " varg: " ++
      toString p.varg.toNat] ++
  (match ownerName with
    | some name => ["class: " ++ name]
    | none => []) ++
  (if p.upvalues.isEmpty then []
    else ["upvals: " ++ " ".intercalate (p.upvalues.map upvalueText)]) ++
  (p.consts.zipIdx.map fun (k, i) => "K" ++ indexText i ++ " " ++ k.text) ++
  (p.code.zipIdx.map fun (i, pc) => i.text pc)

end Prototype

namespace Heap

/-- The lines of a prototype and of all nested in it; nothing if they nest deeper than there are
prototypes or one of them is missing. -/
def protoLines? (h : Heap) : (nesting : Nat) → (indent : String) → ProtoId → Option (List String)
  | 0, _, _ => none
  | nesting + 1, indent, id => do
    let p ← h.proto? id
    let nested ← p.protos.mapM (h.protoLines? nesting (indent ++ "  "))
    some ((p.lines (p.owner.bind h.className?)).map (indent ++ ·) ++ nested.flatten)

def listing? (h : Heap) (id : ClosureId) : Option String := do
  let c ← h.closureAt? id
  let lines ← h.protoLines? h.protos.size "" c.proto
  some (String.join (lines.map (· ++ "\n")))

end Heap

end StaticImage
