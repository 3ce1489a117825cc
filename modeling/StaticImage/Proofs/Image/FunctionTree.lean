import StaticImage.Proofs.Image.FunctionFields
import StaticImage.Proofs.Image.HeldData

namespace StaticImage

structure FunctionHeader where
  name : String
  nstack : UInt8
  argc : UInt8
  varg : UInt8
  upvalues : List Upvalue
  /-- The name of the class around it. -/
  owner : Option String
  code : List Instruction
  deriving DecidableEq, Repr

inductive FunctionTree where
  | node (header : FunctionHeader) (consts : List Data) (nested : List FunctionTree)

namespace FunctionTree

@[induction_eliminator]
theorem induct {motive : FunctionTree → Prop}
    (node : ∀ header consts nested, (∀ f ∈ nested, motive f) → motive (.node header consts nested))
    (f : FunctionTree) : motive f := by
  refine @FunctionTree.rec motive (fun nested => ∀ f ∈ nested, motive f) node ?_ ?_ f
  · intro f member
    cases member
  · intro head tail here there f member
    rcases List.mem_cons.mp member with rfl | inside
    · exact here
    · exact there f inside

inductive PlainNames : FunctionTree → Prop where
  | node (header : FunctionHeader) (consts : List Data) (nested : List FunctionTree)
      (name : PlainName header.name) (owner : ∀ name ∈ header.owner, PlainName name)
      (inside : ∀ f ∈ nested, PlainNames f) : PlainNames (.node header consts nested)

end FunctionTree

def Prototype.header (p : Prototype) (owner : Option String) : FunctionHeader :=
  ⟨p.name, p.nstack, p.argc, p.varg, p.upvalues, owner, p.code⟩

namespace Heap

/-- The tree of a prototype; where its source came from is not part of it. -/
inductive HoldsFunction (h : Heap) : FunctionTree → ProtoId → Prop where
  | node (id : ProtoId) (p : Prototype) (owner : Option String) (consts : List Data)
      (nested : List FunctionTree) (present : h.proto? id = some p)
      (owned : p.owner.map h.className? = owner.map some)
      (data : List.Forall₂ h.Holds consts p.consts)
      (inside : List.Forall₂ (HoldsFunction h) nested p.protos) :
      HoldsFunction h (.node (p.header owner) consts nested) id

theorem unfoldProto_held (h : Heap) (builtins column nesting : Nat) (opened : List ProtoId)
    (id : ProtoId) (header : FunctionHeader) (consts : List Data) (nested : List FunctionTree)
    (held : h.HoldsFunction (.node header consts nested) id)
    (complete :
      (FunctionImage.plan builtins column (h.unfoldProto nesting opened id)).trace.Complete) :
    ∃ inner protos values, h.unfoldProto nesting opened id =
        .node header.name header.nstack header.argc header.varg header.upvalues header.owner
          (protos.map fun p _ => h.unfoldProto inner (id :: opened) p) (values.map h.constant)
          header.code ∧
      List.Forall₂ h.Holds consts values ∧ List.Forall₂ h.HoldsFunction nested protos := by
  cases nesting with
  | zero => exact (complete .endless List.mem_cons_self).elim
  | succ inner =>
      cases held with
      | node _ p owner _ _ present owned data inside =>
          refine ⟨inner, p.protos, p.consts, ?_, data, inside⟩
          simp only [unfoldProto] at complete ⊢
          by_cases around : id ∈ opened
          · rw [if_pos around] at complete
            exact (complete .endless List.mem_cons_self).elim
          · rw [if_neg around, present]
            cases owner with
            | none =>
                simp only [owned, Option.map_none]
                rfl
            | some name =>
                simp only [owned, Option.map_some]
                rfl

theorem constant_tells (g h : Heap) (weak : Bool) (context key : Option String) (d e : Data)
    (v w : Value) (held : g.Holds d v) (held' : h.Holds e w) :
    PlansTell weak ((g.constant v).plan context key) ((h.constant w).plan context key) (d = e) := by
  intro complete complete'
  rw [constant, held.spelling g weak context d v _ _ key complete, constant,
    held'.spelling h weak context e w _ _ key complete']
  exact Data.tells weak d e

end Heap

namespace FunctionImage

theorem consts_tell (g h : Heap) (weak : Bool) (pad : String) (ds es : List Data)
    (vs ws : List Value) (held : List.Forall₂ g.Holds ds vs) (held' : List.Forall₂ h.Holds es ws) :
    PlansTell weak (constsPlan pad (vs.map g.constant)) (constsPlan pad (ws.map h.constant))
      (ds = es) := by
  have sized : ds.length = (vs.map g.constant).length := by
    rw [List.length_map, held.length_eq]
  have sized' : es.length = (ws.map h.constant).length := by
    rw [List.length_map, held'.length_eq]
  refine ((isEmpty_tells weak pad "has constants" _ _).andThen fun same =>
    PlansTell.ite same (fun empty empty' => ?_) fun _ _ => ?_).mono And.right
  · refine (PlansTell.same _).mono fun _ => ?_
    rw [List.isEmpty_iff.mp empty, List.length_nil, List.length_eq_zero_iff] at sized
    rw [List.isEmpty_iff.mp empty', List.length_nil, List.length_eq_zero_iff] at sized'
    rw [sized, sized']
  · have counts := count_tells (pad ++ "( &(const bvalue[") "]) \x7b     /* constants */\n"
      (vs.map g.constant).length (ws.map h.constant).length rfl
    have values (f : Heap) (data : List Data) (values : List Value)
        (held : List.Forall₂ f.Holds data values) :
        List.Forall₂ (fun d c => ∃ v, f.Holds d v ∧ c = f.constant v) data
          (values.map f.constant) := by
      rw [List.forall₂_map_right_iff]
      exact held.imp fun d v holds => ⟨v, holds, rfl⟩
    refine ((PlansTell.text counts).andThen fun length => ?_).mono And.right
    refine (PlansTell.each_zipIdx _ _ ds es _ _ 0 (values g ds vs held) (values h es ws held')
      (sized.trans (length.trans sized'.symm)) ?_).before _
    rintro d _ e b c k ⟨v, holds, rfl⟩ ⟨w, holds', rfl⟩
    exact ((g.constant_tells h weak none none d e v w holds holds').before _).after _

theorem trace_nestedPlan (builtins column : Nat) (fs : List (Unit → FunctionImage MapId)) :
    (nestedPlan builtins column fs).trace =
      (Plan.each (fun f => plan builtins column (f ()) >> Plan.text ",\n") fs).trace := by
  induction fs with
  | nil => rfl
  | cons f fs ih =>
      have steps : nestedPlan builtins column (f :: fs) =
        plan builtins column (f ()) >> Plan.text ",\n" >> nestedPlan builtins column fs := rfl
      rw [steps, Plan.each, Plan.trace_andThen, Plan.trace_andThen, Plan.trace_andThen,
        Plan.trace_andThen, ih, List.append_assoc]

def nestedField (builtins : Nat) (pad : String) (column : Nat) (owner : Option String)
    (nested : List (Unit → FunctionImage MapId)) : Plan :=
  if nested.isEmpty then ownerPlan pad owner
  else
    Plan.text (pad ++ "( &(const struct bproto*[" ++ countText (nested.length + 1) ++
        "]) \x7b\n") >>
      nestedPlan builtins (column + 4) nested >> ownerPlan pad owner >>
      Plan.text (pad ++ "\x7d),\n")

theorem plan_node (builtins column : Nat) (header : FunctionHeader)
    (nested : List (Unit → FunctionImage MapId)) (consts : List (Constant MapId)) :
    plan builtins column (.node header.name header.nstack header.argc header.varg header.upvalues
        header.owner nested consts header.code) =
      Plan.steps [.text (spaces column ++ "be_nested_proto(\n"),
        fieldLine (spaces (column + 2)) (toString header.nstack.toNat) "nstack",
        fieldLine (spaces (column + 2)) (toString header.argc.toNat) "argc",
        fieldLine (spaces (column + 2)) (toString header.varg.toNat) "varg"] >>
      upvaluesPlan (spaces (column + 2)) header.upvalues >>
      Plan.steps [fieldLine (spaces (column + 2)) (flagText !nested.isEmpty) "has sup protos"] >>
      nestedField builtins (spaces (column + 2)) column header.owner nested >>
      constsPlan (spaces (column + 2)) consts >>
      Plan.steps [.text (spaces (column + 2)), .write (.functionName header.name), .text ",\n",
        .text (spaces (column + 2) ++ "&be_const_str_solidified,\n")] >>
      codePlan builtins header.name (spaces (column + 2)) header.code >>
      Plan.text (spaces column ++ ")") := rfl

theorem limits_tell (weak : Bool) (pad first : String) (header header' : FunctionHeader) :
    PlansTell weak
      (.steps [.text first, fieldLine pad (toString header.nstack.toNat) "nstack",
        fieldLine pad (toString header.argc.toNat) "argc",
        fieldLine pad (toString header.varg.toNat) "varg"])
      (.steps [.text first, fieldLine pad (toString header'.nstack.toNat) "nstack",
        fieldLine pad (toString header'.argc.toNat) "argc",
        fieldLine pad (toString header'.varg.toNat) "varg"])
      (header.nstack = header'.nstack ∧ header.argc = header'.argc ∧
        header.varg = header'.varg) := by
  apply PlansTell.steps
  simp only [Trace.spelling_cons, Trace.spelling_nil]
  refine Tells.after _ (Tells.mono ((number_tells weak pad "nstack" _ _).append fun _ =>
    (number_tells weak pad "argc" _ _).append fun _ =>
      (number_tells weak pad "varg" _ _).before []) fun equal => ?_)
  exact ⟨UInt8.toNat_inj.mp equal.1, UInt8.toNat_inj.mp equal.2.1, UInt8.toNat_inj.mp equal.2.2⟩

theorem nestedField_tells (weak : Bool) (builtins builtins' : Nat) (pad : String) (column : Nat)
    (owner owner' : Option String) (plain : ∀ name ∈ owner, PlainName name)
    (plain' : ∀ name ∈ owner', PlainName name) (fs fs' : List FunctionTree)
    (images images' : List (Unit → FunctionImage MapId))
    (left right : FunctionTree → (Unit → FunctionImage MapId) → Prop)
    (each : List.Forall₂ left fs images) (each' : List.Forall₂ right fs' images')
    (told : ∀ f ∈ fs, ∀ f' image image', left f image → right f' image' →
      PlansTell weak (plan builtins (column + 4) (image ()))
        (plan builtins' (column + 4) (image' ())) (f = f'))
    (same : images.isEmpty = true ↔ images'.isEmpty = true) :
    PlansTell weak (nestedField builtins pad column owner images)
      (nestedField builtins' pad column owner' images') (owner = owner' ∧ fs = fs') := by
  have owners := owner_tells weak pad owner owner' plain plain'
  have sized := each.length_eq
  have sized' := each'.length_eq
  refine PlansTell.ite same (fun empty empty' => ?_) fun _ _ => ?_
  · refine owners.mono fun equal => ⟨equal, ?_⟩
    rw [List.isEmpty_iff.mp empty, List.length_nil, List.length_eq_zero_iff] at sized
    rw [List.isEmpty_iff.mp empty', List.length_nil, List.length_eq_zero_iff] at sized'
    rw [sized, sized']
  · have counts := count_tells (pad ++ "( &(const struct bproto*[") "]) \x7b\n"
      (images.length + 1) (images'.length + 1) rfl
    have functions (length : fs.length = fs'.length) :
        PlansTell weak (nestedPlan builtins (column + 4) images)
          (nestedPlan builtins' (column + 4) images') (fs = fs') := by
      refine PlansTell.of_traces (trace_nestedPlan _ _ _) (trace_nestedPlan _ _ _) ?_
      refine PlansTell.each _ _ fs fs' images images' each each' length ?_
      intro f member f' image image' here there
      exact (told f member f' image image' here there).before _
    refine ((PlansTell.text counts).andThen fun length => (functions ?_).andThen fun _ =>
      owners.before _).mono fun equal => ⟨equal.2.2, equal.2.1⟩
    omega

def UnfoldedIn (h : Heap) (f : FunctionTree) (image : Unit → FunctionImage MapId) : Prop :=
  f.PlainNames ∧ ∃ nesting opened id, h.HoldsFunction f id ∧
    image () = h.unfoldProto nesting opened id

theorem unfoldedIn_each (h : Heap) (nesting : Nat) (opened : List ProtoId)
    (fs : List FunctionTree) (ids : List ProtoId) (held : List.Forall₂ h.HoldsFunction fs ids)
    (plain : ∀ f ∈ fs, f.PlainNames) :
    List.Forall₂ (UnfoldedIn h) fs (ids.map fun id _ => h.unfoldProto nesting opened id) := by
  induction held with
  | nil => exact .nil
  | cons head tail ih =>
      refine .cons ⟨plain _ List.mem_cons_self, nesting, opened, _, head, rfl⟩ ?_
      exact ih fun f member => plain f (List.mem_cons_of_mem _ member)

/-- The text of a function tells its tree. -/
theorem tells (g h : Heap) (weak : Bool) (builtins builtins' column nesting nesting' : Nat)
    (opened opened' : List ProtoId) (f f' : FunctionTree) (id id' : ProtoId)
    (held : g.HoldsFunction f id) (held' : h.HoldsFunction f' id') (plain : f.PlainNames)
    (plain' : f'.PlainNames) :
    PlansTell weak (plan builtins column (g.unfoldProto nesting opened id))
      (plan builtins' column (h.unfoldProto nesting' opened' id')) (f = f') := by
  induction f generalizing f' column nesting nesting' opened opened' id id' with
  | node header consts nested ih =>
      obtain ⟨header', consts', nested'⟩ := f'
      intro complete complete'
      obtain ⟨inner, ids, values, unfolded, data, inside⟩ :=
        g.unfoldProto_held builtins column nesting opened id header consts nested held complete
      obtain ⟨inner', ids', values', unfolded', data', inside'⟩ :=
        h.unfoldProto_held builtins' column nesting' opened' id' header' consts' nested' held'
          complete'
      obtain ⟨_, _, _, _, owner, plain⟩ := plain
      obtain ⟨_, _, _, _, owner', plain'⟩ := plain'
      revert complete complete'
      rw [unfolded, unfolded', plan_node, plan_node]
      have parts (same) := nestedField_tells weak builtins builtins' (spaces (column + 2)) column
        header.owner header'.owner owner owner' nested nested' _ _ _ _
        (unfoldedIn_each g inner (id :: opened) nested ids inside plain)
        (unfoldedIn_each h inner' (id' :: opened') nested' ids' inside' plain')
        (by
          rintro f member f' image image' ⟨plain, _, _, _, held, here⟩ ⟨plain', _, _, _, held', there⟩
          rw [here, there]
          exact ih f member _ _ _ _ _ f' _ _ held held' plain plain') same
      refine PlansTell.mono ((limits_tell weak (spaces (column + 2)) _ header header').andThen
        fun _ => (upvalues_tell weak _ _ _).andThen
        fun _ => (isEmpty_tells weak _ "has sup protos" _ _).andThen
        fun same => (parts same).andThen
        fun _ => (consts_tell g h weak _ consts consts' values values' data data').andThen
        fun _ => (name_tells weak _ header.name header'.name _).andThen
        fun _ => (code_tells weak _ builtins builtins' _ _ header.code header'.code).before _)
        fun equal => ?_
      obtain ⟨⟨nstack, argc, varg⟩, upvalues, _, ⟨owner, fs⟩, consts, name, code⟩ := equal
      have headers : header = header' := by
        cases header
        cases header'
        rw [FunctionHeader.mk.injEq]
        exact ⟨name, nstack, argc, varg, upvalues, owner, code⟩
      rw [headers, fs, consts]

end FunctionImage

end StaticImage
