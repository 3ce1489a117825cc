import StaticImage.Proofs.Image.AccountingDeclarations
import StaticImage.Proofs.Image.FunctionText

/-!
The walk over the members of a class or module, and the table that is printed after it. Both go along
the entries of the compacted table: the walk writes each closure under a string key in full or as a
borrowed one, and the same closures stand in the table in the same order.
-/

namespace StaticImage

namespace Heap

section

variable (h : Heap) (own : Prototype → Prop) (context : Option String) (hoist : ClassId → Plan)

/-- What is written of a closure that a walk comes across: the function from its banner to its last
line, behind the classes among its constants, where it is one of the walk's own, and otherwise two
lines that tell where it belongs. -/
inductive Visited (id : ClosureId) : Trace → Prop where
  | whole (c : Closure) (p : Prototype) (owner : Option String) (text : Trace)
      (present : h.closureAt? id = some c) (there : h.proto? c.proto = some p) (mine : own p)
      (owned : p.owner.map h.className? = owner.map some)
      (written : h.FunctionText (2, c.proto) text) :
      Visited id ((if c.captured.isEmpty then []
          else [.text "--> Unsupported upvals in closure <---"]) ++
        (hoistedClasses p).flatMap (fun cls => (hoist cls).trace) ++
        ([.function id, banner "function" p.name] ++ externLine owner ++
          [.write (.localClosure (functionSymbol context p.name)), .text "   /* name */\n"] ++
          text ++
          [.text "\n);\n/*******************************************************************/\n\n"]))
  | borrowed (p : Prototype) (owner : ClassId) (name : String)
      (present : h.prototypeOf? id = some p) (foreign : ¬ own p) (owned : p.owner = some owner)
      (called : h.className? owner = some name) :
      Visited id
        [.text ("// Borrowed method '" ++ p.name ++ "' from class '" ++ classContext name ++ "'\n"),
          .write (.externClosure (classContext name ++ "_" ++ p.name)), .text "\n"]

/-- What a walk writes for an entry of the table; `nested` is what it writes for a class. -/
inductive Met (nested : ClassId → Trace) (e : Entry) : Trace → Prop where
  | closure (key : String) (id : ClosureId) (trace : Trace) (named : e.key.string? = some key)
      (value : e.value.data = .closure id) (visited : h.Visited own context hoist id trace) :
      Met nested e trace
  | classObject (key : String) (cls : ClassId) (named : e.key.string? = some key)
      (value : e.value.data = .classObject cls) : Met nested e (nested cls)
  | skipped (other : e.key.string? = none ∨
      (∀ id, e.value.data ≠ .closure id) ∧ ∀ cls, e.value.data ≠ .classObject cls) :
      Met nested e []

def rowSteps (e : Entry) : Trace :=
  (e.key.data.constantKey.plan e.link).trace ++
    ((h.constant e.value).plan context e.key.data.constantKey.name?).trace ++ [.text " \x7d,\n"]

def tableSteps (table : MapId) (entries : List Entry) : Trace :=
  [.compact table, .openMap table, .text (mapOpening entries.length)] ++
    entries.flatMap (h.rowSteps context) ++ [.text aggregateClosing, .closeMap table]

/-- The entries of the table are met one by one, and then the table is printed with these entries;
besides them nothing enters or leaves a class, begins a function, or defines or borrows one. -/
def Walks (nested : ClassId → Trace) (members : Option MapId) (trace : Trace) : Prop :=
  match members with
  | none => trace.all Step.isInert
  | some table => ∃ t head walk middle tail, h.table? table = some t ∧
      trace = head ++ List.flatten walk ++ middle ++
        h.tableSteps context table t.compact.entries ++ tail ∧
      List.Forall₂ (h.Met own context hoist nested) t.compact.entries walk ∧
      (head ++ middle ++ h.tableSteps context table t.compact.entries ++ tail).all Step.isInert

end

variable {h : Heap} {own other : Prototype → Prop} {context : Option String}
  {hoist : ClassId → Plan} {nested : ClassId → Trace}

theorem Visited.congr {id : ClosureId} {trace : Trace}
    (visited : h.Visited own context hoist id trace)
    (same : ∀ p, h.prototypeOf? id = some p → (own p ↔ other p)) :
    h.Visited other context hoist id trace := by
  cases visited with
  | whole c p owner text present there mine owned written =>
      have found : h.prototypeOf? id = some p := by simp [prototypeOf?, present, there]
      exact .whole c p owner text present there ((same p found).mp mine) owned written
  | borrowed p owner name present foreign owned called =>
      exact .borrowed p owner name present (mt (same p present).mpr foreign) owned called

theorem Walks.congr {members : Option MapId} {trace : Trace}
    (walks : h.Walks own context hoist nested members trace)
    (same : ∀ p, own p ↔ other p) : h.Walks other context hoist nested members trace := by
  cases members with
  | none => exact walks
  | some table =>
      obtain ⟨t, head, walk, middle, tail, present, whole, met, inert⟩ := walks
      refine ⟨t, head, walk, middle, tail, present, whole, met.imp fun e trace here => ?_, inert⟩
      cases here with
      | closure key id trace named value visited =>
          exact .closure key id trace named value (visited.congr fun p _ => same p)
      | classObject key cls named value => exact .classObject key cls named value
      | skipped none => exact .skipped none

theorem functionText_of_functionPlan (context : Option String) (id : ClosureId) (proto : ProtoId)
    (p : Prototype) (owner : Option String)
    (complete : (h.functionPlan context id proto p owner).trace.Complete) :
    h.FunctionText (2, proto) ((h.function proto).plan h.builtins.length 2).trace := by
  simp only [trace_functionPlan, functionRest, Trace.complete_append, Trace.complete_cons] at complete
  exact functionText_of_complete (h.protos.size + 1) [] 2 proto complete.2.1.2

theorem visited_closurePlan (id : ClosureId)
    (complete : (h.closurePlan hoist context id).trace.Complete) :
    h.Visited (fun p => h.isWritten context p) context hoist id
      (h.closurePlan hoist context id).trace := by
  have form := h.closureForm hoist context id
  generalize h.closurePlan hoist context id = plan at form complete ⊢
  cases form with
  | borrowed c p owner name present there owned called elsewhere =>
      refine .borrowed p owner name (by simp [prototypeOf?, present, there]) ?_ owned called
      simp [isWritten, owned, called, elsewhere]
  | written c p owner present there owned home =>
      have mine := isWritten_home context p owner owned home
      have warning : (if c.captured.isEmpty then Plan.nothing
          else Plan.text "--> Unsupported upvals in closure <---").trace =
            if c.captured.isEmpty then []
            else [.text "--> Unsupported upvals in closure <---"] := by
        split <;> rfl
      rw [Plan.trace_andThen, Plan.trace_andThen, Plan.trace_each, warning] at complete ⊢
      have text := functionText_of_functionPlan context id c.proto p owner
        ((Trace.complete_append _ _).mp complete).2
      rw [trace_functionPlan, functionHeader, functionRest]
      have whole : h.Visited (fun p => h.isWritten context p) context hoist id _ :=
        .whole c p owner _ present there mine owned text
      convert whole using 2
      simp
  | _ => exact (complete .dangling List.mem_cons_self).elim

theorem trace_constant_table (context : Option String) (table : MapId) (t : Table)
    (present : h.table? table = some t)
    (complete : ((h.constant (.plain (.map table))).plan context none).trace.Complete) :
    ((h.constant (.plain (.map table))).plan context none).trace =
      h.tableSteps context table t.compact.entries := by
  obtain ⟨inner, nesting, unfolded⟩ :=
    h.unfold_map h.nesting [] table false t context none present complete
  have writable : ((h.unfold h.nesting [] (.plain (.map table))).Writable context none) := complete
  have same : h.constant (.plain (.map table)) = _ := unfolded
  rw [Value.plain, unfolded, Constant.writable_map] at writable
  rw [same, Constant.trace_map, Constant.trace_bindingsPlan, List.flatMap_map, List.length_map,
    tableSteps]
  congr 2
  apply List.flatMap_congr
  intro e member
  have entry := (writable _ (List.mem_map.mpr ⟨e, member, rfl⟩)).2
  have value : h.constant e.value = h.unfold inner [table] e.value :=
    h.unfold_more inner h.nesting [table] [] e.value context _ (by omega) (List.nil_subset _) entry
  rw [rowSteps, value]

theorem trace_namedMembers (t : Table) (member : Value → Plan) :
    (Plan.each member (namedMembers t)).trace = List.flatten (t.compact.entries.map fun e =>
      if e.key.string?.isSome then (member e.value).trace else []) := by
  rw [Plan.trace_each, namedMembers]
  induction t.compact.entries with
  | nil => rfl
  | cons e rest ih =>
      cases named : e.key.string? with
      | none => simp [named, ih]
      | some key => simp [named, ih]

structure WritesMembers (h : Heap) (own : Prototype → Prop) (context : Option String)
    (hoist : ClassId → Plan) (nested : ClassId → Trace) (member : Value → Plan) : Prop where
  closure : ∀ v id, v.data = .closure id → (member v).trace.Complete →
    h.Visited own context hoist id (member v).trace
  classObject : ∀ v cls, v.data = .classObject cls → (member v).trace = nested cls
  other : ∀ v, (∀ id, v.data ≠ .closure id) → (∀ cls, v.data ≠ .classObject cls) →
    (member v).trace = []

theorem writesMembers_methodPlan : h.WritesMembers (fun p => h.isWritten context p) context hoist
    (fun _ => []) (h.methodPlan hoist context) where
  closure v id data complete := by
    simp only [methodPlan, Value.closure?, data] at complete ⊢
    exact visited_closurePlan id complete
  classObject v cls data := by
    simp only [methodPlan, Value.closure?, data]
    rfl
  other v away _ := by
    unfold methodPlan Value.closure?
    split
    · rfl
    · rename_i id found
      split at found
      · rename_i data
        exact (away _ data).elim
      · cases found

theorem writesMembers_moduleMemberPlan : h.WritesMembers (fun p => h.isWritten none p) none
    h.outermostClass (fun cls => (h.outermostClass cls).trace) h.moduleMemberPlan where
  closure v id data complete := by
    simp only [moduleMemberPlan, data] at complete ⊢
    exact visited_closurePlan id complete
  classObject v cls data := by simp only [moduleMemberPlan, data]
  other v away apart := by
    unfold moduleMemberPlan
    split
    · exact (away _ ‹_›).elim
    · exact (apart _ ‹_›).elim
    · rfl

theorem WritesMembers.met {member : Value → Plan}
    (writes : h.WritesMembers own context hoist nested member) (e : Entry)
    (complete : e.key.string?.isSome → (member e.value).trace.Complete) :
    h.Met own context hoist nested e
      (if e.key.string?.isSome then (member e.value).trace else []) := by
  cases named : e.key.string? with
  | none => exact .skipped (Or.inl named)
  | some key =>
      rw [Option.isSome_some, if_pos rfl]
      cases value : e.value.data with
      | closure id =>
          have ends := complete (by rw [named, Option.isSome_some])
          exact .closure key id _ named value (writes.closure e.value id value ends)
      | classObject cls =>
          rw [writes.classObject e.value cls value]
          exact .classObject key cls named value
      | _ =>
          have apart : (∀ id, e.value.data ≠ .closure id) ∧ ∀ cls, e.value.data ≠ .classObject cls :=
            ⟨fun id => by simp [value], fun cls => by simp [value]⟩
          rw [writes.other e.value apart.1 apart.2]
          exact .skipped (Or.inr apart)

/-- Members and then their table, with inert steps around and between them. -/
theorem WritesMembers.walks {member : Value → Plan}
    (writes : h.WritesMembers own context hoist nested member) (members : Option MapId)
    (head middle tail : Trace) (terminator : String)
    (complete : Trace.Complete (head ++ (h.membersPlan members member).trace ++ middle ++
      (h.memberTablePlan context members terminator).trace ++ tail))
    (inert : (head ++ middle ++ tail).all Step.isInert) :
    h.Walks own context hoist nested members (head ++ (h.membersPlan members member).trace ++
      middle ++ (h.memberTablePlan context members terminator).trace ++ tail) := by
  simp only [Trace.complete_append] at complete
  obtain ⟨⟨⟨⟨-, walked⟩, -⟩, printed⟩, -⟩ := complete
  simp only [List.all_append, Bool.and_eq_true] at inert
  obtain ⟨⟨inert_head, inert_middle⟩, inert_tail⟩ := inert
  cases members with
  | none =>
      simp [Walks, membersPlan, memberTablePlan, Plan.nothing, Plan.text, inert_head,
        inert_middle, inert_tail, Step.text, Step.isInert]
  | some table =>
      simp only [membersPlan] at walked ⊢
      cases present : h.table? table with
      | none =>
          rw [present] at walked
          exact (walked .dangling List.mem_cons_self).elim
      | some t =>
          rw [present] at walked
          simp only [memberTablePlan, Plan.trace_andThen] at printed ⊢
          rw [Trace.complete_append] at printed
          have table_trace := trace_constant_table context table t present printed.1
          have table_inert := (refers_constant (h := h) context none (.plain (.map table))).inert
          rw [table_trace] at table_inert ⊢
          rw [Plan.trace_andThen, trace_namedMembers, Trace.complete_append] at walked
          refine ⟨t, head ++ [.compact table], t.compact.entries.map fun e =>
            if e.key.string?.isSome then (member e.value).trace else [], middle,
            .text terminator :: tail, present, ?_, ?_, ?_⟩
          · rw [trace_namedMembers]
            simp [Plan.text]
          -- The walk and the table go along the same list of entries.
          · rw [List.forall₂_map_right_iff]
            refine List.forall₂_same.mpr fun e inside => writes.met e fun named => ?_
            have entry : (member e.value).trace ∈ t.compact.entries.map fun e =>
                if e.key.string?.isSome then (member e.value).trace else [] :=
              List.mem_map.mpr ⟨e, inside, if_pos named⟩
            intro why stops
            exact walked.2 why (List.mem_flatten.mpr ⟨_, entry, stops⟩)
          · simp [inert_head, inert_middle, inert_tail, table_inert, Step.text, Step.isInert]

/-- A class that is entered, and written to its end, is a walk over its members. -/
theorem walks_classPlan (nesting : Nat) (opened : List ClassId) (id : ClassId) (c : ClassObject)
    (fresh : id ∉ opened) (present : h.class? id = some c)
    (complete : (h.classPlan (nesting + 1) opened id).trace.Complete) :
    ∃ written, (h.classPlan (nesting + 1) opened id).trace =
        .openClass id :: written ++ [.closeClass id] ∧
      h.Walks (fun p => h.isWritten (some (classContext c.name)) p) (some (classContext c.name))
        (h.classPlan nesting (id :: opened)) (fun _ => []) c.members written := by
  obtain ⟨body, form, whole⟩ := h.trace_classPlan nesting opened id c fresh present
  refine ⟨_, whole, ?_⟩
  rw [whole, List.cons_append, Trace.complete_cons, Trace.complete_append] at complete
  have inner := complete.2.1
  cases form with
  | orphan super inherits absent =>
      exact (inner .dangling (List.mem_append_right _ List.mem_cons_self)).elim
  | body superName inherits =>
      rw [trace_classBodyPlan] at inner ⊢
      simp only [← List.append_assoc] at inner ⊢
      refine writesMembers_methodPlan.walks _ _ _ _ _ inner ?_
      simp [classHead, inert_externPlan, inert_classMiddle, Step.text, Step.isInert]

theorem walks_modulePlan (id : ModuleId) (m : ModuleObject) (present : h.module? id = some m)
    (complete : (h.modulePlan id).trace.Complete) :
    h.Walks (fun p => h.isWritten none p) none h.outermostClass
      (fun cls => (h.outermostClass cls).trace) m.members (h.modulePlan id).trace := by
  rw [trace_modulePlan id m present] at complete ⊢
  exact writesMembers_moduleMemberPlan.walks m.members [] _ _ "\n" complete rfl

end Heap

end StaticImage
