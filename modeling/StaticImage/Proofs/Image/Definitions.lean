import StaticImage.Proofs.Image.ClassNames
import StaticImage.Proofs.Image.Taken
import Mathlib.Data.List.Nodup

namespace StaticImage

def Step.isDefinition : Step → Bool
  | .write (.localClass _) => true
  | .write (.localClosure _) => true
  | _ => false

def Trace.definitions (trace : Trace) : Trace :=
  trace.filter Step.isDefinition

@[simp]
theorem Trace.definitions_append (first second : Trace) :
    (first ++ second).definitions = first.definitions ++ second.definitions :=
  List.filter_append first second

theorem Trace.nodup_definitions_iff (trace : Trace) :
    trace.definitions.Nodup ↔ ∀ symbol, trace.count (.write (.localClass symbol)) ≤ 1 ∧
      trace.count (.write (.localClosure symbol)) ≤ 1 := by
  have counted (step : Step) (defines : step.isDefinition) :
      trace.definitions.count step = trace.count step := List.count_filter defines
  rw [List.nodup_iff_count_le_one]
  constructor
  · intro once symbol
    rw [← counted (.write (.localClass symbol)) rfl, ← counted (.write (.localClosure symbol)) rfl]
    exact ⟨once _, once _⟩
  · intro once step
    by_cases defines : step.isDefinition
    · rw [counted step defines]
      unfold Step.isDefinition at defines
      split at defines
      · exact (once _).1
      · exact (once _).2
      · cases defines
    · have absent : step ∉ trace.definitions := fun member =>
        defines (List.mem_filter.mp member).2
      rw [List.count_eq_zero.mpr absent]
      exact Nat.zero_le 1

/-- What is written one after the other: a definition, or a class that the dump goes into. -/
inductive Portion where
  | definition (piece : Piece)
  | classObject (id : ClassId)
  deriving DecidableEq, Repr

def Portion.definitions (hoist : ClassId → Plan) : Portion → Trace
  | definition piece => [.write piece]
  | classObject cls => (hoist cls).trace.definitions

/-- If a trace comes to its end, then it defines what the portions do, and the classes among them have
come to theirs. -/
def Trace.Covers (hoist : ClassId → Plan) (portions : List Portion) (trace : Trace) : Prop :=
  trace.Complete → trace.definitions = portions.flatMap (Portion.definitions hoist) ∧
    ∀ cls, .classObject cls ∈ portions → (hoist cls).trace.Complete

namespace Trace.Covers

variable {hoist : ClassId → Plan} {portions : List Portion} {first second : Trace}

theorem nothing {trace : Trace} (none : trace.definitions = []) : Covers hoist [] trace := by
  intro _
  exact ⟨none, fun cls member => nomatch member⟩

theorem stop (portions : List Portion) (why : DumpError) : Covers hoist portions [.stop why] := by
  intro complete
  exact (complete why List.mem_cons_self).elim

theorem hoisted (cls : ClassId) : Covers hoist [.classObject cls] (hoist cls).trace := by
  intro complete
  constructor
  · rw [List.flatMap_singleton, Portion.definitions]
  · intro other member
    cases List.mem_singleton.mp member
    exact complete

theorem definition {trace : Trace} {piece : Piece} (defines : trace.definitions = [.write piece]) :
    Covers hoist [.definition piece] trace := by
  intro _
  constructor
  · rw [List.flatMap_singleton, Portion.definitions, defines]
  · intro cls member
    cases List.mem_singleton.mp member

theorem append {others : List Portion} (left : Covers hoist portions first)
    (right : Covers hoist others second) : Covers hoist (portions ++ others) (first ++ second) := by
  intro complete
  rw [Trace.complete_append] at complete
  have early := left complete.1
  have late := right complete.2
  constructor
  · rw [Trace.definitions_append, early.1, late.1, List.flatMap_append]
  · intro cls member
    rcases List.mem_append.mp member with member | member
    · exact early.2 cls member
    · exact late.2 cls member

theorem behind (none : first.definitions = []) (covers : Covers hoist portions second) :
    Covers hoist portions (first ++ second) :=
  (nothing none).append covers

theorem before (covers : Covers hoist portions first) (none : second.definitions = []) :
    Covers hoist portions (first ++ second) := by
  have whole := covers.append (nothing none)
  rwa [List.append_nil] at whole

theorem flatMap {α : Type} (portions : α → List Portion) (trace : α → Trace) (items : List α)
    (each : ∀ item, Covers hoist (portions item) (trace item)) :
    Covers hoist (items.flatMap portions) (items.flatMap trace) := by
  induction items with
  | nil => exact nothing rfl
  | cons item rest ih =>
      rw [List.flatMap_cons, List.flatMap_cons]
      exact (each item).append ih

theorem each (classes : List ClassId) :
    Covers hoist (classes.map .classObject) (Plan.each hoist classes).trace := by
  rw [Plan.trace_each, List.map_eq_flatMap]
  exact flatMap _ _ classes hoisted

end Trace.Covers

def functionSymbol (context : Option String) (name : String) : String :=
  match context with
  | none => Identifier.ofText name
  | some context => context ++ "_" ++ Identifier.ofText name

namespace Heap

def isWritten (h : Heap) (context : Option String) (p : Prototype) : Bool :=
  match p.owner with
  | none => true
  | some owner => (h.className? owner).any fun name => context = some (classContext name)

def closurePortions (h : Heap) (context : Option String) (id : ClosureId) : List Portion :=
  match (h.closureAt? id).bind fun c => h.proto? c.proto with
  | none => []
  | some p =>
    if h.isWritten context p then
      (hoistedClasses p).map .classObject ++
        [.definition (.localClosure (functionSymbol context p.name))]
    else []

def memberPortions (h : Heap) (members : Option MapId) (portions : Value → List Portion) :
    List Portion :=
  match members.bind h.table? with
  | none => []
  | some t => (namedMembers t).flatMap portions

def methodPortions (h : Heap) (context : Option String) (v : Value) : List Portion :=
  match v.closure? with
  | none => []
  | some closure => h.closurePortions context closure

def classPortions (h : Heap) (id : ClassId) : List Portion :=
  match h.class? id with
  | none => []
  | some c =>
    h.memberPortions c.members (h.methodPortions (some (classContext c.name))) ++
      [.definition (.localClass c.name)]

def moduleMemberPortions (h : Heap) (v : Value) : List Portion :=
  match v.data with
  | .closure closure => h.closurePortions none closure
  | .classObject cls => [.classObject cls]
  | _ => []

def modulePortions (h : Heap) (id : ModuleId) : List Portion :=
  match h.module? id with
  | none => []
  | some m => h.memberPortions m.members h.moduleMemberPortions

def rootPortions (h : Heap) (root : Value) (context : Option String) : List Portion :=
  match root.data with
  | .closure id => h.closurePortions context id
  | .classObject id => [.classObject id]
  | .moduleObject id => h.modulePortions id
  | _ => []

variable {h : Heap} {hoist : ClassId → Plan}

theorem RefersOnly.definitions {named : ClassId → Prop} {trace : Trace}
    (refers : h.RefersOnly named trace) : trace.definitions = [] := by
  apply List.filter_eq_nil_iff.mpr
  intro step member defines
  have here := refers step member
  unfold Step.isDefinition at defines
  split at defines
  · exact here
  · exact here
  · cases defines

theorem definitions_functionPlan (context : Option String) (id : ClosureId) (proto : ProtoId)
    (p : Prototype) (owner : Option String) :
    (h.functionPlan context id proto p owner).trace.definitions =
      [.write (.localClosure (functionSymbol context p.name))] := by
  have tree := (refers_function (h := h) h.builtins.length 2 proto).definitions
  simp only [functionPlan, Plan.trace_andThen, Trace.definitions_append, tree]
  cases owner with
  | none => rfl
  | some name => rfl

theorem isWritten_home (context : Option String) (p : Prototype) (owner : Option String)
    (owned : p.owner.map h.className? = owner.map some)
    (home : ∀ name, owner = some name → context = some (classContext name)) :
    h.isWritten context p = true := by
  unfold isWritten
  cases owner with
  | none => rw [Option.map_eq_none_iff.mp owned]
  | some name =>
      obtain ⟨cls, here, called⟩ := Option.map_eq_some_iff.mp owned
      simp [here, called, home name rfl]

theorem covers_closurePlan (context : Option String) (id : ClosureId) :
    Trace.Covers hoist (h.closurePortions context id) (h.closurePlan hoist context id).trace := by
  have form := h.closureForm hoist context id
  generalize h.closurePlan hoist context id = plan at form ⊢
  cases form with
  | borrowed c p owner name present there owned called elsewhere =>
      have unwritten : h.isWritten context p = false := by
        simp [isWritten, owned, called, elsewhere]
      simp only [closurePortions, present, Option.bind_some, there, unwritten, Bool.false_eq_true]
      exact .nothing rfl
  | written c p owner present there owned home =>
      simp only [closurePortions, present, Option.bind_some, there,
        isWritten_home context p owner owned home, if_pos]
      refine .append (.behind ?_ (.each _)) (.definition (definitions_functionPlan ..))
      split <;> rfl
  | _ => exact .stop _ .dangling

theorem covers_membersPlan (members : Option MapId) (member : Value → Plan)
    (portions : Value → List Portion)
    (each : ∀ v, Trace.Covers hoist (portions v) (member v).trace) :
    Trace.Covers hoist (h.memberPortions members portions)
      (h.membersPlan members member).trace := by
  cases members with
  | none => exact .nothing rfl
  | some id =>
      simp only [membersPlan, memberPortions, Option.bind_some]
      cases h.table? id with
      | none => exact .stop _ .dangling
      | some t =>
          have compacting : Trace.definitions [.compact id] = [] := rfl
          apply Trace.Covers.behind compacting
          rw [Plan.trace_each]
          exact .flatMap _ _ _ each

theorem definitions_memberTablePlan (context : Option String) (members : Option MapId)
    (terminator : String) :
    (h.memberTablePlan context members terminator).trace.definitions = [] := by
  cases members with
  | none => rfl
  | some table =>
      have constant := (refers_constant (h := h) context none (.plain (.map table))).definitions
      simp only [memberTablePlan, Plan.trace_andThen, Trace.definitions_append, constant]
      rfl

theorem definitions_classBodyPlan (c : ClassObject) (superName : Option String) :
    (h.classBodyPlan c superName).trace.definitions = [.write (.localClass c.name)] := by
  simp only [classBodyPlan, Plan.trace_andThen, Trace.definitions_append,
    definitions_memberTablePlan]
  cases superName with
  | none => rfl
  | some name => rfl

theorem covers_inheriting (c : ClassObject) (body : Plan) (form : h.BodyForm c body) :
    Trace.Covers hoist [.definition (.localClass c.name)] body.trace := by
  cases form with
  | orphan super inherits absent => exact .stop _ .dangling
  | body superName inherits => exact .definition (definitions_classBodyPlan c superName)

/-- A class is written in its portions if it is not one of those being written. -/
theorem covers_classPlan (nesting : Nat) (opened : List ClassId) (id : ClassId)
    (fresh : id ∉ opened) :
    Trace.Covers (h.classPlan nesting (id :: opened)) (h.classPortions id)
      (h.classPlan (nesting + 1) opened id).trace := by
  have form := h.classForm nesting opened id
  generalize h.classPlan (nesting + 1) opened id = plan at form ⊢
  cases form with
  | again around => exact absurd around fresh
  | missing _ absent => exact .stop _ .dangling
  | written c body _ present form =>
      simp only [classPortions, present]
      have entry : Trace.definitions [.openClass id] = [] := rfl
      refine .before (.behind entry (.behind rfl
        (.behind rfl (.append ?_ (covers_inheriting c body form))))) rfl
      apply covers_membersPlan
      intro v
      unfold methodPortions
      cases v.closure? with
      | none => exact .nothing rfl
      | some closure => exact covers_closurePlan (some (classContext c.name)) closure

theorem covers_modulePlan (id : ModuleId) :
    Trace.Covers h.outermostClass (h.modulePortions id) (h.modulePlan id).trace := by
  unfold modulePlan modulePortions
  cases h.module? id with
  | none => exact .stop _ .dangling
  | some m =>
      refine .before ?_ ?_
      · apply covers_membersPlan
        intro v
        unfold moduleMemberPortions
        obtain ⟨data, isStatic⟩ := v
        cases data with
        | closure closure => exact covers_closurePlan none closure
        | classObject cls => exact .hoisted cls
        | _ => exact .nothing rfl
      · simp only [Plan.trace_andThen, Trace.definitions_append, definitions_memberTablePlan]
        rfl

theorem covers_rootPlan (root : Value) (context : Option String) :
    Trace.Covers h.outermostClass (h.rootPortions root context)
      (h.rootPlan root context).trace := by
  obtain ⟨data, isStatic⟩ := root
  cases data with
  | closure id => exact covers_closurePlan context id
  | classObject id => exact .hoisted id
  | moduleObject id => exact covers_modulePlan id
  | _ => exact .stop _ _

end Heap

end StaticImage
