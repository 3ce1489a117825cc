import StaticImage.Proofs.Image.ClosureSymbols
import StaticImage.Proofs.Text.OrdinaryNames

/-!
The symbol of a borrowed method. The line that makes it known has the name of the function as it is,
the definition in its own class has the identifier of the name; the two are the same only for names
that are identifiers already.
-/

namespace StaticImage

namespace Heap

section

variable {h : Heap} {id : ClosureId} {p : Prototype} {cls : ClassId} {name : String}

theorem closurePlan_method (hoist : ClassId → Plan) (context : Option String)
    (present : h.prototypeOf? id = some p) (owned : p.owner = some cls)
    (called : h.className? cls = some name) :
    ∃ c, h.closureAt? id = some c ∧ h.closurePlan hoist context id =
      if context = some (classContext name) then
        ((if c.captured.isEmpty then Plan.nothing
            else Plan.text "--> Unsupported upvals in closure <---") >>
          Plan.each hoist (hoistedClasses p)) >> h.functionPlan context id c.proto p (some name)
      else borrowedPlan p.name name := by
  obtain ⟨c, found, there⟩ := Option.bind_eq_some_iff.mp present
  refine ⟨c, found, ?_⟩
  simp only [closurePlan, found, Option.bind_some, there, Option.map_some, owned, called]

theorem trace_borrowed (hoist : ClassId → Plan) (context : Option String)
    (present : h.prototypeOf? id = some p) (owned : p.owner = some cls)
    (called : h.className? cls = some name) (elsewhere : context ≠ some (classContext name)) :
    (h.closurePlan hoist context id).trace =
      [.text ("// Borrowed method '" ++ p.name ++ "' from class '" ++ classContext name ++ "'\n"),
        .write (.externClosure (classContext name ++ "_" ++ p.name)), .text "\n"] := by
  obtain ⟨c, _, plan⟩ := closurePlan_method hoist context present owned called
  rw [plan, if_neg elsewhere]
  rfl

theorem trace_own (hoist : ClassId → Plan) (present : h.prototypeOf? id = some p)
    (owned : p.owner = some cls) (called : h.className? cls = some name) :
    ∃ before body, (h.closurePlan hoist (some (classContext name)) id).trace =
        before ++ .function id :: body ∧
      Trace.definitions body =
        [.write (.localClosure (classContext name ++ "_" ++ Identifier.ofText p.name))] := by
  obtain ⟨c, _, plan⟩ := closurePlan_method hoist (some (classContext name)) present owned called
  have defined := definitions_functionPlan (h := h) (some (classContext name)) id c.proto p
    (some name)
  rw [plan, if_pos rfl, Plan.trace_andThen]
  rw [trace_functionPlan] at defined ⊢
  exact ⟨_, _, rfl, defined⟩

end

/-- A method is made known under the name it has, and defined under the identifier of that name. So
these are one symbol exactly if the name is one of letters, digits and underscores without the marker
of the encoding. -/
theorem borrowed_symbol_iff (h : Heap) (id : ClosureId) (p : Prototype) (cls : ClassId)
    (name : String) (present : h.prototypeOf? id = some p) (owned : p.owner = some cls)
    (called : h.className? cls = some name) :
    let borrowed := classContext name ++ "_" ++ p.name
    let defined := classContext name ++ "_" ++ Identifier.ofText p.name
    (∀ hoist context, context ≠ some (classContext name) →
      (h.closurePlan hoist context id).trace =
        [.text ("// Borrowed method '" ++ p.name ++ "' from class '" ++ classContext name ++ "'\n"),
          .write (.externClosure borrowed), .text "\n"]) ∧
      (∀ hoist, ∃ before body, (h.closurePlan hoist (some (classContext name)) id).trace =
          before ++ .function id :: body ∧
        Trace.definitions body = [.write (.localClosure defined)]) ∧
      (borrowed = defined ↔ Identifier.IsOrdinary p.name) := by
  intro borrowed defined
  refine ⟨fun hoist context elsewhere => trace_borrowed hoist context present owned called elsewhere,
    fun hoist => trace_own hoist present owned called, ?_⟩
  rw [← Identifier.ofText_eq_self_iff]
  constructor
  · intro same
    have chars := congrArg String.toList same
    simp only [borrowed, defined, String.toList_append] at chars
    exact (String.toList_inj.mp (List.append_cancel_left chars)).symm
  · intro same
    simp only [borrowed, defined, same]

def operators : Heap where
  protos := #[⟨"==", "", 0, 0, 0, [], [], some ⟨0⟩, [], []⟩]
  closures := #[⟨⟨0⟩, []⟩]
  classes := #[⟨"A", 0, none, some ⟨0⟩⟩, ⟨"B", 0, some ⟨0⟩, some ⟨1⟩⟩]
  modules := #[⟨some "m", some ⟨2⟩⟩]
  instances := #[]
  maps := #[Table.afterAll [.insert (.plain (.string "==")) (.plain (.closure ⟨0⟩))],
    Table.afterAll [.insert (.plain (.string "==")) (.plain (.closure ⟨0⟩))],
    Table.afterAll [.insert (.plain (.string "B")) (.plain (.classObject ⟨1⟩)),
      .insert (.plain (.string "A")) (.plain (.classObject ⟨0⟩))]]
  lists := #[]
  builtins := defaultBuiltins

theorem operator_symbols :
    operators.prototypeOf? ⟨0⟩ = some ⟨"==", "", 0, 0, 0, [], [], some ⟨0⟩, [], []⟩ ∧
      operators.className? ⟨0⟩ = some "A" ∧
      "class_A_==" ≠ "class_A_" ++ Identifier.ofText "==" ∧
      ¬ Identifier.IsOrdinary "==" := by
  obtain ⟨_, _, same⟩ := borrowed_symbol_iff operators ⟨0⟩
    ⟨"==", "", 0, 0, 0, [], [], some ⟨0⟩, [], []⟩ ⟨0⟩ "A" rfl rfl rfl
  have apart : "class_A_==" ≠ "class_A_" ++ Identifier.ofText "==" := by decide +kernel
  exact ⟨rfl, rfl, apart, fun ordinary => apart (same.mpr ordinary)⟩

/-- Within one dump an operator is made known under a symbol that nothing defines. -/
theorem operator_is_borrowed_under_another_symbol :
    let root := Value.plain (.moduleObject ⟨0⟩)
    let steps := operators.stepsOf (.dump root ⟨false, none⟩ none)
    (operators.dump root ⟨false, none⟩ none).1.error = none ∧
      .write (.externClosure "class_A_==") ∈ steps ∧
      steps.filter Step.isDefinition = [.write (.localClosure "class_A__X3D_X3D"),
        .write (.localClass "A"), .write (.localClass "B")] ∧
      .write (.closureReference false "class_A__X3D_X3D") ∈ steps := by
  decide +kernel

end Heap

end StaticImage
