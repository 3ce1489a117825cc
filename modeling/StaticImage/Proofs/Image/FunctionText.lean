import StaticImage.Proofs.Image.Forms

namespace StaticImage

namespace FunctionImage

def arrayText (pad flag missing opening behind : String) (entries : List Trace) : Trace :=
  fieldLine pad (flagText !entries.isEmpty) flag ::
    if entries.isEmpty then [nullLine pad missing]
    else
      .text (pad ++ opening ++ countText entries.length ++ behind) ::
        entries.flatten ++ [.text (pad ++ "\x7d),\n")]

def ownerText (pad : String) : Option String → Trace
  | none => [.text (pad ++ "NULL, \n")]
  | some name => [.text (pad ++ "&"), .write (.classSymbol name), .text ", \n"]

def nestedText (pad : String) (owner : Option String) (nested : List Trace) : Trace :=
  fieldLine pad (flagText !nested.isEmpty) "has sup protos" ::
    if nested.isEmpty then ownerText pad owner
    else
      .text (pad ++ "( &(const struct bproto*[" ++ countText (nested.length + 1) ++ "]) \x7b\n") ::
        nested.flatMap (fun inner => inner ++ [.text ",\n"]) ++ ownerText pad owner ++
          [.text (pad ++ "\x7d),\n")]

def codeText (pad : String) (code : List Instruction) : Trace :=
  .text (pad ++ "( &(const binstruction[" ++ countText code.length ++ "]) \x7b  /* code */\n") ::
    code.zipIdx.flatMap (fun (i, pc) => [.text (pad ++ "  "), .write (.codeWord i pc)]) ++
      [.text (pad ++ "\x7d)\n")]

end FunctionImage

open FunctionImage

namespace Heap

def constantTexts (h : Heap) (pad : String) (consts : List Value) : List Trace :=
  consts.zipIdx.map fun (v, k) =>
    .text (pad ++ "/* K" ++ Prototype.indexText k ++ " */  ") ::
      ((h.constant v).plan none none).trace ++ [.text ",\n"]

/-- The initialiser of a prototype at a column, field by field, with those of the functions nested
in it. -/
inductive FunctionText (h : Heap) : Nat × ProtoId → Trace → Prop where
  | proto (column : Nat) (id : ProtoId) (p : Prototype) (owner : Option String)
      (nested : List Trace) (present : h.proto? id = some p)
      (owned : p.owner.map h.className? = owner.map some)
      (inside : List.Forall₂ (FunctionText h) (p.protos.map fun inner => (column + 4, inner)) nested) :
      FunctionText h (column, id)
        ([.text (spaces column ++ "be_nested_proto(\n"),
          fieldLine (spaces (column + 2)) (toString p.nstack.toNat) "nstack",
          fieldLine (spaces (column + 2)) (toString p.argc.toNat) "argc",
          fieldLine (spaces (column + 2)) (toString p.varg.toNat) "varg"] ++
        arrayText (spaces (column + 2)) "has upvals" "no upvals" "( &(const bupvaldesc["
          "]) \x7b  /* upvals */\n"
          (p.upvalues.map fun u => [.text (upvalueLine (spaces (column + 2)) u)]) ++
        nestedText (spaces (column + 2)) owner nested ++
        arrayText (spaces (column + 2)) "has constants" "no const" "( &(const bvalue["
          "]) \x7b     /* constants */\n" (h.constantTexts (spaces (column + 2)) p.consts) ++
        [.text (spaces (column + 2)), .write (.functionName p.name), .text ",\n",
          .text (spaces (column + 2) ++ "&be_const_str_solidified,\n")] ++
        codeText (spaces (column + 2)) p.code ++ [.text (spaces column ++ ")")])

end Heap

namespace FunctionImage

theorem trace_upvaluesPlan (pad : String) (upvalues : List Upvalue) :
    (upvaluesPlan pad upvalues).trace =
      arrayText pad "has upvals" "no upvals" "( &(const bupvaldesc[" "]) \x7b  /* upvals */\n"
        (upvalues.map fun u => [.text (upvalueLine pad u)]) := by
  cases upvalues with
  | nil => rfl
  | cons u us =>
      have lines : (us.map fun u => [Step.text (upvalueLine pad u)]).flatten =
          us.map fun u => Step.text (upvalueLine pad u) := by
        rw [← List.flatMap_def, List.map_eq_flatMap]
      simp only [arrayText, List.map_cons, List.flatten_cons, lines]
      simp [upvaluesPlan, upvalueLine]

theorem trace_ownerPlan (pad : String) (owner : Option String) :
    (ownerPlan pad owner).trace = ownerText pad owner := by
  cases owner <;> rfl

theorem trace_constsPlan (h : Heap) (pad : String) (consts : List Value) :
    (constsPlan pad (consts.map h.constant)).trace =
      arrayText pad "has constants" "no const" "( &(const bvalue[" "]) \x7b     /* constants */\n"
        (h.constantTexts pad consts) := by
  cases consts with
  | nil => rfl
  | cons v vs =>
      simp [constsPlan, arrayText, Heap.constantTexts, Plan.text, List.zipIdx_map, List.flatMap_map,
        ← List.flatMap_def]

theorem trace_codePlan (builtins : Nat) (name pad : String) (code : List Instruction)
    (complete : (codePlan builtins name pad code).trace.Complete) :
    (codePlan builtins name pad code).trace = codeText pad code := by
  simp only [codePlan, Plan.trace_andThen, Plan.trace_each, Trace.complete_append,
    Trace.complete_flatMap] at complete ⊢
  have words : (code.zipIdx.flatMap fun x => (codeWordPlan builtins name pad x.1 x.2).trace) =
      code.zipIdx.flatMap fun x => [.text (pad ++ "  "), .write (.codeWord x.1 x.2)] :=
    List.flatMap_congr fun x member =>
      trace_codeWordPlan pad builtins name x.1 x.2 (complete.2.1 x member)
  rw [words]
  simp [codeText, Plan.text]

theorem trace_nestedField (builtins : Nat) (pad : String) (column : Nat) (owner : Option String)
    (nested : List (Unit → FunctionImage MapId)) :
    fieldLine pad (flagText !nested.isEmpty) "has sup protos" ::
        (nestedField builtins pad column owner nested).trace =
      nestedText pad owner (nested.map fun f => (plan builtins (column + 4) (f ())).trace) := by
  cases nested with
  | nil => simp [nestedField, nestedText, trace_ownerPlan]
  | cons f fs =>
      simp [nestedField, nestedText, trace_nestedPlan, trace_ownerPlan, Plan.text, List.flatMap_map]

theorem complete_nestedField (builtins : Nat) (pad : String) (column : Nat) (owner : Option String)
    (nested : List (Unit → FunctionImage MapId)) :
    (nestedField builtins pad column owner nested).trace.Complete ↔
      ∀ f ∈ nested, (plan builtins (column + 4) (f ())).trace.Complete := by
  have owned : (ownerPlan pad owner).trace.Complete := by
    rw [trace_ownerPlan]
    cases owner <;> simp [ownerText, Step.text]
  cases nested with
  | nil => simpa [nestedField] using owned
  | cons f fs =>
      simp [nestedField, trace_nestedPlan, Plan.text, Step.text, Trace.complete_flatMap, owned]

end FunctionImage

namespace Heap

variable {h : Heap}

/-- A function that is written to its end is written in full. -/
theorem functionText_of_complete (nesting : Nat) (opened : List ProtoId) (column : Nat)
    (id : ProtoId)
    (complete :
      (plan h.builtins.length column (h.unfoldProto nesting opened id)).trace.Complete) :
    h.FunctionText (column, id)
      (plan h.builtins.length column (h.unfoldProto nesting opened id)).trace := by
  induction nesting generalizing opened column id with
  | zero => exact (complete .endless List.mem_cons_self).elim
  | succ nesting ih =>
      have form := h.protoForm nesting opened id
      generalize h.unfoldProto (nesting + 1) opened id = f at form complete ⊢
      cases form with
      | node p owner fresh present owned =>
          rw [plan_node] at complete ⊢
          simp only [Plan.trace_andThen, Plan.trace_steps, Trace.complete_append] at complete ⊢
          obtain ⟨-, -, -, inside, -, -, code, -⟩ := complete
          rw [complete_nestedField, List.forall_mem_map] at inside
          have whole := FunctionText.proto column id p owner _ present owned
            (List.forall₂_map_left_iff.mpr <| List.forall₂_map_right_iff.mpr <| List.forall₂_same.mpr
              fun inner member => ih (id :: opened) (column + 4) inner
                (inside inner member))
          have field := trace_nestedField h.builtins.length (spaces (column + 2)) column owner
            (p.protos.map fun inner _ => h.unfoldProto nesting (id :: opened) inner)
          simp only [List.map_map, Function.comp_def] at field
          convert whole using 1
          rw [← field, trace_upvaluesPlan, trace_constsPlan, trace_codePlan _ _ _ _ code]
          simp [Plan.text, Prototype.header]
      | _ => exact (complete _ List.mem_cons_self).elim

end Heap

end StaticImage
