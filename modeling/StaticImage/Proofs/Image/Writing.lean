import StaticImage.Proofs.Heap.References
import StaticImage.Proofs.Image.Unfolding
import StaticImage.Proofs.Table.Contents

/-!
What dumps are made of. Every plan of a dump is put together from steps that write, code words that
were checked, maps and classes that are not being written already, and stops for each of which the
heap has a reason; in particular no plan is cut short on a heap that nests properly.
-/

namespace StaticImage

open Relation (TransGen)

def Step.isPlain : Step → Bool
  | .write (.codeWord _ _) => false
  | .write (.foreignGlobal _) => false
  | .write _ => true
  | .compact _ => true
  | .function _ => true
  | _ => false

def Value.isRoot (v : Value) : Bool :=
  match v.data with
  | .closure _ => true
  | .classObject _ => true
  | .moduleObject _ => true
  | _ => false

namespace Heap

/-- Nothing is missing that a dump of the root may look for. -/
def Sound (h : Heap) (root : Value) : Prop :=
  h.Closed ∧ ∀ o, root.object? = some o → h.Has o

/-- Why a dump may stop, with what is the matter with the heap then. -/
inductive Fault (h : Heap) (root : Value) : DumpError → Prop where
  | value (typeName : String) : Fault h root (.value typeName)
  | key (typeName : String) : Fault h root (.key typeName)
  | instanceOf (name : String) : Fault h root (.instanceOf name)
  | linkedInstance (id : InstanceId) (i : InstanceObject) (present : h.instance? id = some i)
      (linked : (i.super.isSome || i.sub.isSome) = true) : Fault h root .linkedInstance
  | cyclicMap (id : MapId) (cycle : TransGen h.Contains (.map id) (.map id)) :
      Fault h root .cyclicMap
  | endlessValue (o : ObjectId) (cycle : TransGen h.ContainsFixed o o) : Fault h root .endless
  | endlessProto (id : ProtoId) (cycle : TransGen h.Nests id id) : Fault h root .endless
  | dangling (missing : ¬ h.Sound root) : Fault h root .dangling
  | root (typeName : String) (other : root.isRoot = false) : Fault h root (.root typeName)

/-- What a dump writes while classes and maps are being written around it. -/
inductive Writes (h : Heap) (root : Value) : List ClassId → List MapId → Trace → Prop where
  | nothing (classes : List ClassId) (maps : List MapId) : Writes h root classes maps []
  | both (classes : List ClassId) (maps : List MapId) (first second : Trace)
      (left : Writes h root classes maps first) (right : Writes h root classes maps second) :
      Writes h root classes maps (first ++ second)
  | step (classes : List ClassId) (maps : List MapId) (step : Step) (plain : step.isPlain) :
      Writes h root classes maps [step]
  | word (classes : List ClassId) (maps : List MapId) (id : ProtoId) (p : Prototype)
      (i : Instruction) (pc : Nat) (present : h.proto? id = some p) (here : p.code[pc]? = some i)
      (allowed : ∀ slot, i.globalAccess = some slot → slot < h.builtins.length) :
      Writes h root classes maps [.write (.codeWord i pc)]
  | foreign (classes : List ClassId) (maps : List MapId) (id : ProtoId) (p : Prototype)
      (i : Instruction) (pc slot : Nat) (present : h.proto? id = some p)
      (here : p.code[pc]? = some i) (access : i.globalAccess = some slot)
      (beyond : h.builtins.length ≤ slot) :
      Writes h root classes maps
        [.write (.codeWord i pc), .write (.foreignGlobal slot), .stop (.global slot p.name)]
  | fault (classes : List ClassId) (maps : List MapId) (why : DumpError)
      (blamed : h.Fault root why) : Writes h root classes maps [.stop why]
  | insideMap (classes : List ClassId) (maps : List MapId) (id : MapId) (inner : Trace)
      (fresh : id ∉ maps) (inside : Writes h root classes (id :: maps) inner) :
      Writes h root classes maps (.openMap id :: inner ++ [.closeMap id])
  | insideClass (classes : List ClassId) (maps : List MapId) (id : ClassId) (inner : Trace)
      (fresh : id ∉ classes) (inside : Writes h root (id :: classes) maps inner) :
      Writes h root classes maps (.openClass id :: inner ++ [.closeClass id])

namespace Writes

variable {h : Heap} {root : Value} {classes : List ClassId} {maps : List MapId}

theorem append {first second : Trace} (left : h.Writes root classes maps first)
    (right : h.Writes root classes maps second) : h.Writes root classes maps (first ++ second) :=
  .both classes maps first second left right

theorem cons {first : Step} {rest : Trace} (plain : first.isPlain)
    (onward : h.Writes root classes maps rest) : h.Writes root classes maps (first :: rest) :=
  .both classes maps [first] rest (.step classes maps first plain) onward

theorem steps (known : Trace) (plain : known.all Step.isPlain) :
    h.Writes root classes maps known := by
  induction known with
  | nil => exact .nothing classes maps
  | cons first rest ih =>
      rw [List.all_cons, Bool.and_eq_true] at plain
      exact cons plain.1 (ih plain.2)

theorem text (s : String) : h.Writes root classes maps (Plan.text s).trace :=
  steps _ rfl

theorem andThen {first second : Plan} (left : h.Writes root classes maps first.trace)
    (right : h.Writes root classes maps second.trace) :
    h.Writes root classes maps (first >> second).trace :=
  append left right

theorem flatMap {α : Type} (trace : α → Trace) (items : List α)
    (each : ∀ item ∈ items, h.Writes root classes maps (trace item)) :
    h.Writes root classes maps (items.flatMap trace) := by
  induction items with
  | nil => exact .nothing classes maps
  | cons item rest ih =>
      rw [List.flatMap_cons]
      exact append (each item List.mem_cons_self)
        (ih fun other member => each other (List.mem_cons_of_mem item member))

theorem each {α : Type} (plan : α → Plan) (items : List α)
    (each : ∀ item ∈ items, h.Writes root classes maps (plan item).trace) :
    h.Writes root classes maps (Plan.each plan items).trace := by
  rw [Plan.trace_each]
  exact flatMap _ items each

theorem stop {why : DumpError} (blamed : h.Fault root why) :
    h.Writes root classes maps (Plan.stop why).trace :=
  .fault classes maps why blamed

theorem missing {o : ObjectId} (owed : h.Sound root → h.Has o) (absent : ¬ h.Has o) :
    h.Writes root classes maps (Plan.stop .dangling).trace :=
  stop (.dangling fun sound => absent (owed sound))

end Writes

end Heap

end StaticImage
