import StaticImage.Proofs.Image.ClosureSymbols

/-!
Classes come before the functions that need them. When a function begins, each class among its own
constants has been declared from the first line to the last, or is being written around it. A class that
is skipped is one of those around; the plan of any other one, where nothing stops it, ends with the
declaration of that class, whatever else it goes into on the way.
-/

namespace StaticImage

/-- A dump that comes to a step has written the text of all steps before it, and goes on from there. -/
theorem Trace.taken_split (weak : Bool) (trace : Trace) (p : Progress) (front : Trace) (step : Step)
    (rest : Trace) (unbroken : p.error = none)
    (taken : trace.taken weak p = front ++ step :: rest) :
    ∃ behind, trace = front ++ step :: behind ∧
      (front.foldl (Progress.take weak) p).error = none ∧
      (front.foldl (Progress.take weak) p).written =
        p.written ++ (String.ofList (front.spelling weak)).toUTF8 ∧
      Trace.taken weak (step :: behind) (front.foldl (Progress.take weak) p) = step :: rest := by
  induction front generalizing trace p with
  | nil =>
      cases trace with
      | nil => cases taken
      | cons first more =>
          have same : first = step := by
            rw [Trace.taken, List.nil_append, List.cons.injEq] at taken
            exact taken.1
          subst same
          exact ⟨more, rfl, unbroken, by simp, taken⟩
  | cons first front ih =>
      cases trace with
      | nil => cases taken
      | cons other more =>
          rw [Trace.taken, List.cons_append, List.cons.injEq] at taken
          obtain ⟨rfl, onward⟩ := taken
          cases failed : (p.take weak other).error with
          | some why => simp [failed] at onward
          | none =>
              rw [failed, Option.isSome_none, if_neg Bool.false_ne_true] at onward
              obtain ⟨behind, rfl, still, written, further⟩ := ih more _ failed onward
              refine ⟨behind, rfl, still, ?_, further⟩
              rw [List.foldl_cons, written, (p.take_complete weak other failed).2, spelling_cons,
                String.ofList_append]
              simp [ByteArray.append_assoc]

namespace Heap

/-- The field for the members of a class: its compacted table entry by entry, if it has one. -/
inductive MemberField (h : Heap) (context : Option String) : Option MapId → Trace → Prop where
  | none : MemberField h context none [.text "    NULL,\n"]
  | some (table : MapId) (t : Table) (present : h.table? table = some t) :
      MemberField h context (some table)
        (h.tableSteps context table t.compact.entries ++ [.text ",\n"])

/-- The declaration of the class was written, from `be_local_class` to its closing line. -/
def Declares (h : Heap) (front : Trace) (cls : ClassId) : Prop :=
  ∃ c superName members early late, h.class? cls = some c ∧
    c.super.map h.className? = superName.map some ∧
    h.MemberField (some (classContext c.name)) c.members members ∧
    front = early ++
      ([banner "class" c.name] ++ externLine superName ++
        [.write (.localClass c.name), .text ("\n    " ++ toString c.nvar.toNat ++ ",\n")] ++
        superField superName ++ members ++
        [.text "    ", .write (.className c.name), .text "\n);\n"]) ++ late

def Provides (h : Heap) (front : Trace) (cls : ClassId) : Prop :=
  cls ∈ front.opened ∨ h.Declares front cls

def Hoisted (h : Heap) (front : Trace) (step : Step) (rest : Trace) : Prop :=
  match step with
  | .function id => front.Complete → ∃ p behind, h.prototypeOf? id = some p ∧
      rest = banner "function" p.name :: behind ∧ ∀ cls ∈ hoistedClasses p, h.Provides front cls
  | _ => True

/-- While these classes are being written, the plan of a class provides it, unless it stops. -/
def Supplies (h : Heap) (opened : List ClassId) (hoist : ClassId → Plan) : Prop :=
  ∀ cls (before : Trace), before.opened = opened →
    Trace.Framed h.Hoisted before (hoist cls).trace ∧
      ((hoist cls).trace.Complete → h.Provides (before ++ (hoist cls).trace) cls)

variable {h : Heap} {before : Trace}

theorem Declares.mono {front : Trace} {cls : ClassId} (declares : h.Declares front cls)
    (more : Trace) : h.Declares (front ++ more) cls := by
  obtain ⟨c, superName, members, early, late, present, inherits, field, rfl⟩ := declares
  refine ⟨c, superName, members, early, late ++ more, present, inherits, field, ?_⟩
  simp only [List.append_assoc]

theorem Provides.mono {front more : Trace} {cls : ClassId} (provides : h.Provides front cls)
    (back : (front ++ more).opened = front.opened) : h.Provides (front ++ more) cls := by
  rcases provides with around | declares
  · exact Or.inl (back ▸ around)
  · exact Or.inr (declares.mono more)

instance lasting_hoisted : Trace.Lasting h.Hoisted where
  later front step rest more hoisted := by
    unfold Hoisted at hoisted ⊢
    split
    · intro complete
      obtain ⟨p, behind, present, rfl, provides⟩ := hoisted complete
      exact ⟨p, behind ++ more, present, List.cons_append, provides⟩
    · trivial
  inert front step rest quiet := by
    unfold Hoisted
    split <;> trivial
  leaving front id rest := trivial

theorem Supplies.each {hoist : ClassId → Plan} (supplies : h.Supplies before.opened hoist)
    (classes : List ClassId) :
    Trace.Framed h.Hoisted before (classes.flatMap fun cls => (hoist cls).trace) ∧
      (Trace.Complete (classes.flatMap fun cls => (hoist cls).trace) → ∀ cls ∈ classes,
        h.Provides (before ++ classes.flatMap fun cls => (hoist cls).trace) cls) := by
  induction classes generalizing before with
  | nil => exact ⟨.nothing, fun _ => nofun⟩
  | cons first rest ih =>
      obtain ⟨here, provided⟩ := supplies first before rfl
      rw [← here.back] at supplies
      obtain ⟨onward, others⟩ := ih supplies
      rw [List.flatMap_cons]
      refine ⟨here.append onward, fun complete => ?_⟩
      rw [Trace.complete_append] at complete
      rw [← List.append_assoc]
      exact List.forall_mem_cons.mpr
        ⟨(provided complete.1).mono onward.back, others complete.2⟩

theorem hoists_functionPlan (context : Option String) (id : ClosureId) (proto : ProtoId)
    (p : Prototype) (owner : Option String) (present : h.prototypeOf? id = some p)
    (provided : before.Complete → ∀ cls ∈ hoistedClasses p, h.Provides before cls) :
    Trace.Framed h.Hoisted before (h.functionPlan context id proto p owner).trace := by
  rw [trace_functionPlan, List.append_assoc, List.append_assoc, List.singleton_append]
  have header : Trace.Framed h.Hoisted (before ++ [.function id]) (functionHeader p owner) :=
    .inert (inert_functionHeader p owner)
  refine .cons rfl (fun complete => ⟨p, _, present, rfl, provided complete⟩) (header.append ?_)
  exact .cons rfl trivial (.inert (inert_functionRest proto))

theorem hoists_closurePlan (hoist : ClassId → Plan) (context : Option String) (id : ClosureId)
    (supplies : h.Supplies before.opened hoist) :
    Trace.Framed h.Hoisted before (h.closurePlan hoist context id).trace := by
  have form := h.closureForm hoist context id
  generalize h.closurePlan hoist context id = plan at form ⊢
  cases form with
  | borrowed c p owner name present there owned called elsewhere =>
      exact .cons rfl trivial (.cons rfl trivial (.inert rfl))
  | written c p owner present there owned home =>
      rw [Plan.trace_andThen, Plan.trace_andThen, Plan.trace_each]
      have warning : Trace.Framed h.Hoisted before
          (if c.captured.isEmpty then Plan.nothing
            else Plan.text "--> Unsupported upvals in closure <---").trace := by
        split <;> exact .inert rfl
      rw [← warning.back] at supplies
      obtain ⟨classes, provided⟩ := supplies.each (hoistedClasses p)
      refine (warning.append classes).append (hoists_functionPlan context id c.proto p owner ?_ ?_)
      · simp [prototypeOf?, present, there]
      · intro complete
        rw [← List.append_assoc, Trace.complete_append] at complete
        rw [← List.append_assoc]
        exact provided complete.2
  | _ => exact .inert rfl

theorem held_of_membersPlan (members : Option MapId) (member : Value → Plan)
    (complete : (h.membersPlan members member).trace.Complete) (table : MapId)
    (there : table ∈ members) : (h.table? table).isSome := by
  cases there
  cases present : h.table? table with
  | some t => rfl
  | none =>
      simp only [membersPlan, present] at complete
      exact (complete .dangling List.mem_cons_self).elim

theorem memberField_memberTablePlan (context : Option String) (members : Option MapId)
    (held : ∀ table ∈ members, (h.table? table).isSome)
    (complete : (h.memberTablePlan context members ",\n").trace.Complete) :
    h.MemberField context members (h.memberTablePlan context members ",\n").trace := by
  cases members with
  | none => exact .none
  | some table =>
      obtain ⟨t, present⟩ := Option.isSome_iff_exists.mp (held table rfl)
      simp only [memberTablePlan, Plan.trace_andThen, Trace.complete_append] at complete ⊢
      rw [trace_constant_table context table t present complete.1]
      exact .some table t present

theorem declares_classPlan (nesting : Nat) (opened : List ClassId) (id : ClassId)
    (fresh : id ∉ opened) (complete : (h.classPlan nesting opened id).trace.Complete) :
    h.Declares (before ++ (h.classPlan nesting opened id).trace) id := by
  cases nesting with
  | zero => exact (complete .endless List.mem_cons_self).elim
  | succ nesting =>
      cases present : h.class? id with
      | none =>
          simp only [classPlan, if_neg fresh, present] at complete
          exact (complete .dangling List.mem_cons_self).elim
      | some c =>
          obtain ⟨body, form, whole⟩ := h.trace_classPlan nesting opened id c fresh present
          rw [whole] at complete ⊢
          simp only [Trace.complete_append, Trace.complete_cons, List.cons_append] at complete
          obtain ⟨-, ⟨⟨-, walked⟩, closing⟩, -⟩ := complete
          cases form with
          | orphan super inherits absent => exact (closing .dangling List.mem_cons_self).elim
          | body superName inherits =>
              rw [trace_classBodyPlan] at closing ⊢
              simp only [Trace.complete_append] at closing
              have field := memberField_memberTablePlan _ c.members
                (held_of_membersPlan c.members _ walked) closing.1.2
              generalize (h.membersPlan c.members _).trace = methods
              refine ⟨c, superName, _, before ++ .openClass id :: (classHead c ++ methods),
                [.closeClass id], present, inherits, field, ?_⟩
              simp only [classMiddle, List.cons_append, List.append_assoc, List.nil_append]

theorem supplies_classPlan (nesting : Nat) (opened : List ClassId) :
    h.Supplies opened (h.classPlan nesting opened) := by
  -- Methods go into classes one level further in, with this class among those around.
  induction nesting generalizing opened with
  | zero => exact fun id before same => ⟨.inert rfl, fun complete =>
      (complete .endless List.mem_cons_self).elim⟩
  | succ nesting ih =>
      intro id before same
      by_cases around : id ∈ opened
      · rw [classPlan, if_pos around]
        refine ⟨.nothing, fun _ => Or.inl ?_⟩
        rwa [Plan.nothing, Plan.trace_steps, List.append_nil, same]
      · refine ⟨?_, fun complete => Or.inr (declares_classPlan _ opened id around complete)⟩
        cases present : h.class? id with
        | none =>
            simp only [classPlan, if_neg around, present]
            exact .inert rfl
        | some c =>
            obtain ⟨body, form, whole⟩ := h.trace_classPlan nesting opened id c around present
            rw [whole]
            have start : Trace.Framed h.Hoisted (before ++ [.openClass id]) (classHead c) :=
              .inert rfl
            refine .enclosed trivial ((start.append ?_).append (.inert (inert_body c body form)))
            refine framed_membersPlan _ _ fun t there v member further back => ?_
            have inside : further.opened = id :: opened := by
              rw [back, start.back, before.opened_openClass, same]
            unfold methodPlan
            cases v.closure? with
            | none => exact .nothing
            | some method =>
                refine hoists_closurePlan _ _ method ?_
                rw [inside]
                exact ih (id :: opened)

theorem supplies_outermostClass : h.Supplies [] h.outermostClass :=
  supplies_classPlan h.classNesting []

theorem hoists_modulePlan (id : ModuleId) : Trace.Framed h.Hoisted [] (h.modulePlan id).trace := by
  cases present : h.module? id with
  | none =>
      simp only [modulePlan, present]
      exact .inert rfl
  | some m =>
      have members : Trace.Framed h.Hoisted [] (h.membersPlan m.members h.moduleMemberPlan).trace := by
        refine framed_membersPlan _ _ fun t there v member further idle => ?_
        unfold moduleMemberPlan
        cases v.data with
        | closure closure =>
            refine hoists_closurePlan _ none closure ?_
            rw [idle]
            exact supplies_outermostClass
        | classObject cls => exact (supplies_outermostClass cls further idle).1
        | _ => exact .nothing
      rw [trace_modulePlan id m present]
      exact ((members.append (.inert rfl)).append
        (.inert (inert_memberTablePlan none m.members "\n"))).append (.inert rfl)

theorem hoists_rootPlan (root : Value) (context : Option String) :
    Trace.Framed h.Hoisted [] (h.rootPlan root context).trace := by
  unfold rootPlan
  cases root.data with
  | closure id => exact hoists_closurePlan _ context id supplies_outermostClass
  | classObject id => exact (supplies_outermostClass id [] rfl).1
  | moduleObject id => exact hoists_modulePlan id
  | _ => exact .inert rfl

theorem hoistedClasses_of_mem (p : Prototype) (index : Nat) (v : Value) (cls : ClassId)
    (present : p.consts[index]? = some v) (data : v.data = .classObject cls)
    (hoisted : ¬ (index = 0 ∧ p.isStaticMethod = true)) : cls ∈ hoistedClasses p := by
  refine List.mem_filterMap.mpr ⟨(v, index), List.mem_zipIdx_iff_getElem?.mpr present, ?_⟩
  simp only [Bool.and_eq_true, decide_eq_true_eq, if_neg hoisted, Value.class?, data]

/-- Whatever a dump goes into and however it ends, where it writes the banner of a function it has
written all steps so far, and each class among the constants of the function, but for the first constant
of a static method, is among the classes being written or was declared. -/
theorem classes_come_before_functions (h : Heap) (root : Value) (options : DumpOptions)
    (room : Option Nat) (front : Trace) (id : ClosureId) (rest : Trace)
    (split : h.stepsOf (.dump root options room) = front ++ .function id :: rest) :
    (h.dump root options room).1 = ((h.stepsOf (.dump root options room)).foldl
        (Progress.take options.weak) (.start room)).outcome ∧
      (front.foldl (Progress.take options.weak) (.start room)).written =
        (String.ofList (front.spelling options.weak)).toUTF8 ∧
      ∃ p behind, h.prototypeOf? id = some p ∧ rest = banner "function" p.name :: behind ∧
        ∀ index v cls, p.consts[index]? = some v → v.data = .classObject cls →
          ¬ (index = 0 ∧ p.isStaticMethod = true) →
            cls ∈ front.opened ∨ h.Declares front cls := by
  have taken : (h.rootPlan root options.context).trace.taken options.weak (.start room) =
      front ++ .function id :: rest := split
  have complete := Trace.complete_of_taken options.weak _ _ front _ rest taken
  obtain ⟨behind, whole, unbroken, written, onward⟩ :=
    Trace.taken_split options.weak _ (.start room) front _ rest rfl taken
  obtain ⟨p, more, present, rfl, provides⟩ :=
    (hoists_rootPlan root options.context).each front (.function id) behind whole complete
  -- The step that announces a function never fails, so the banner is the next one.
  have announced : ((front.foldl (Progress.take options.weak) (.start room)).take options.weak
      (.function id)).error = none := unbroken
  rw [Trace.taken_onward options.weak _ _ _ announced, Trace.taken, List.cons.injEq] at onward
  refine ⟨call_eq_stepsOf h (.dump root options room), ?_, p, _, present, onward.2.symm, ?_⟩
  · rw [written]
    simp [Progress.start]
  · exact fun index v cls there data hoisted =>
      provides cls (hoistedClasses_of_mem p index v cls there data hoisted)

/-- Two classes each of which is a constant of a method of the other. The method of the first is static;
it has a third class as its first constant, and its own class as well. -/
def intertwined : Heap where
  protos := #[
    ⟨"f", "", 1, 0, 4, [], [], some ⟨0⟩,
      [.plain (.classObject ⟨2⟩), .plain (.classObject ⟨0⟩), .plain (.classObject ⟨1⟩)], []⟩,
    ⟨"g", "", 1, 0, 0, [], [], some ⟨1⟩, [.plain (.classObject ⟨0⟩)], []⟩]
  closures := #[⟨⟨0⟩, []⟩, ⟨⟨1⟩, []⟩]
  classes := #[⟨"A", 0, none, some ⟨0⟩⟩, ⟨"B", 0, none, some ⟨1⟩⟩, ⟨"C", 0, none, none⟩]
  modules := #[]
  instances := #[]
  maps := #[Table.afterAll [.insert (.plain (.string "f")) (.plain (.closure ⟨0⟩))],
    Table.afterAll [.insert (.plain (.string "g")) (.plain (.closure ⟨1⟩))]]
  lists := #[]
  builtins := defaultBuiltins

/-- The second class is declared before the method of the first begins, the third one is not. -/
theorem intertwined_classes_come_first :
    let steps := intertwined.stepsOf (.dump (.plain (.classObject ⟨0⟩)) ⟨false, none⟩ none)
    let front : Trace := steps.takeWhile (· ≠ .function ⟨0⟩)
    steps = front ++ .function ⟨0⟩ :: steps.drop (front.length + 1) ∧
      front.opened = [⟨0⟩] ∧ intertwined.Declares front ⟨1⟩ ∧
      front.count (.write (.localClass "B")) = 1 ∧ .write (.localClass "C") ∉ steps := by
  intro steps front
  have split : steps = front ++ .function ⟨0⟩ :: steps.drop (front.length + 1) := by decide +kernel
  have opened : front.opened = [⟨0⟩] := by decide +kernel
  obtain ⟨-, -, p, behind, present, -, provided⟩ :=
    classes_come_before_functions intertwined _ ⟨false, none⟩ none front ⟨0⟩ _ split
  cases present
  have second := provided 2 _ ⟨1⟩ rfl rfl (by decide)
  rw [opened] at second
  exact ⟨split, opened, second.resolve_left (by decide), by decide +kernel, by decide +kernel⟩

end Heap

end StaticImage
