import StaticImage.Image.Dump

/-!
Heaps that differ in nothing but how their maps lie in their slots, and not even in that once the
maps are compacted. What is planned on one of them is planned on the other, since no plan reads a
map in any other state.
-/

namespace StaticImage.Heap

structure Relaid (before after : Heap) : Prop where
  rest : { after with maps := before.maps } = before
  layouts : after.maps.map Table.compact = before.maps.map Table.compact

namespace Relaid

theorem refl (h : Heap) : Relaid h h := ⟨rfl, rfl⟩

theorem trans {first middle last : Heap} (left : Relaid first middle)
    (right : Relaid middle last) : Relaid first last where
  rest := by
    calc
      { last with maps := first.maps } =
          { ({ last with maps := middle.maps } : Heap) with maps := first.maps } := rfl
      _ = { middle with maps := first.maps } := by rw [right.rest]
      _ = first := left.rest
  layouts := right.layouts.trans left.layouts

theorem size {before after : Heap} (relaid : Relaid before after) :
    after.maps.size = before.maps.size := by
  simpa using congrArg Array.size relaid.layouts

theorem table {before after : Heap} (relaid : Relaid before after) (id : MapId) :
    (before.table? id = none ∧ after.table? id = none) ∨
      ∃ t u, before.table? id = some t ∧ after.table? id = some u ∧ u.compact = t.compact := by
  have same : (after.table? id).map Table.compact = (before.table? id).map Table.compact := by
    simp only [table?, ← Array.getElem?_map, relaid.layouts]
  rcases found : before.table? id with _ | t
  · rw [found, Option.map_none, Option.map_eq_none_iff] at same
    exact Or.inl ⟨rfl, same⟩
  · rw [found, Option.map_some, Option.map_eq_some_iff] at same
    obtain ⟨u, there, layout⟩ := same
    exact Or.inr ⟨t, u, rfl, there, layout⟩

theorem as_update {before after : Heap} (relaid : Relaid before after) :
    ∃ maps, after = { before with maps := maps } := by
  refine ⟨after.maps, ?_⟩
  rw [← relaid.rest]

end Relaid

variable {before after : Heap} (relaid : Relaid before after)

include relaid

theorem unfold_congr (nesting : Nat) (opened : List MapId) (v : Value) :
    after.unfold nesting opened v = before.unfold nesting opened v := by
  obtain ⟨maps, rfl⟩ := relaid.as_update
  induction nesting generalizing opened v with
  | zero => rfl
  | succ nesting ih =>
      obtain ⟨data, isStatic⟩ := v
      cases data with
      | instanceObject id =>
          simp only [unfold, ih]
          rfl
      | list id =>
          simp only [unfold, ih]
          rfl
      | map id =>
          simp only [unfold, ih]
          rcases relaid.table id with ⟨missing, there⟩ | ⟨t, u, present, there, same⟩
          · rw [missing, there]
          · rw [present, there]
            simp only [same]
      | _ => rfl

theorem constant_congr (v : Value) : after.constant v = before.constant v := by
  have nesting : after.nesting = before.nesting := by
    have size := relaid.size
    obtain ⟨maps, rfl⟩ := relaid.as_update
    simp only [Heap.nesting, size]
  rw [constant, constant, nesting, unfold_congr relaid]

theorem unfoldProto_congr (nesting : Nat) (opened : List ProtoId) (id : ProtoId) :
    after.unfoldProto nesting opened id = before.unfoldProto nesting opened id := by
  have constants := funext (constant_congr relaid)
  obtain ⟨maps, rfl⟩ := relaid.as_update
  induction nesting generalizing opened id with
  | zero => rfl
  | succ nesting ih =>
      simp only [unfoldProto, ih, constants]
      rfl

theorem functionPlan_congr (context : Option String) (id : ClosureId) (proto : ProtoId)
    (p : Prototype) (owner : Option String) :
    after.functionPlan context id proto p owner = before.functionPlan context id proto p owner := by
  have functions := unfoldProto_congr relaid
  obtain ⟨maps, rfl⟩ := relaid.as_update
  simp only [functionPlan, function, functions]

theorem closurePlan_congr (hoist : ClassId → Plan) (context : Option String) (id : ClosureId) :
    after.closurePlan hoist context id = before.closurePlan hoist context id := by
  have functions := functionPlan_congr relaid
  obtain ⟨maps, rfl⟩ := relaid.as_update
  simp only [closurePlan, functions]
  rfl

theorem membersPlan_congr (members : Option MapId) (member : Value → Plan) :
    after.membersPlan members member = before.membersPlan members member := by
  rcases members with _ | id
  · rfl
  · simp only [membersPlan]
    rcases relaid.table id with ⟨missing, there⟩ | ⟨t, u, present, there, same⟩
    · rw [missing, there]
    · rw [present, there]
      simp only [namedMembers, same]

theorem memberTablePlan_congr (context : Option String) (members : Option MapId)
    (terminator : String) :
    after.memberTablePlan context members terminator =
      before.memberTablePlan context members terminator := by
  rcases members with _ | id
  · rfl
  · simp only [memberTablePlan, constant_congr relaid]

theorem classPlan_congr (nesting : Nat) (opened : List ClassId) (id : ClassId) :
    after.classPlan nesting opened id = before.classPlan nesting opened id := by
  induction nesting generalizing opened id with
  | zero => rfl
  | succ nesting ih =>
      have inner := funext (ih (id :: opened))
      have members := membersPlan_congr relaid
      have tables := memberTablePlan_congr relaid
      have closures := closurePlan_congr relaid
      simp only [classPlan, classBodyPlan, inner, members, tables, closures]
      obtain ⟨maps, rfl⟩ := relaid.as_update
      rfl

theorem outermostClass_congr (id : ClassId) :
    after.outermostClass id = before.outermostClass id := by
  have classes := classPlan_congr relaid
  obtain ⟨maps, rfl⟩ := relaid.as_update
  exact classes _ [] id

theorem modulePlan_congr (id : ModuleId) : after.modulePlan id = before.modulePlan id := by
  have classes := funext (outermostClass_congr relaid)
  simp only [modulePlan, classes, membersPlan_congr relaid, memberTablePlan_congr relaid,
    closurePlan_congr relaid]
  obtain ⟨maps, rfl⟩ := relaid.as_update
  rfl

theorem rootPlan_congr (root : Value) (context : Option String) :
    after.rootPlan root context = before.rootPlan root context := by
  have classes := funext (outermostClass_congr relaid)
  simp only [rootPlan, classes, closurePlan_congr relaid, modulePlan_congr relaid]

end StaticImage.Heap
