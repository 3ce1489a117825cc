import StaticImage.Proofs.Image.Introducing
import StaticImage.Proofs.Image.WritingDeclarations
import StaticImage.Proofs.Image.FunctionFields

namespace StaticImage

namespace Heap

variable {h : Heap} {root : Value} {before : Trace}

theorem classPlan_enters (nesting : Nat) (opened : List ClassId) (cls : ClassId)
    (complete : (h.classPlan nesting opened cls).trace.Complete) :
    cls ∈ opened ∨ .openClass cls ∈ (h.classPlan nesting opened cls).trace := by
  cases nesting with
  | zero => exact (complete .endless List.mem_cons_self).elim
  | succ nesting =>
      have form := h.classForm nesting opened cls
      generalize h.classPlan (nesting + 1) opened cls = plan at form complete ⊢
      cases form with
      | again around => exact Or.inl around
      | missing fresh absent => exact (complete .dangling List.mem_cons_self).elim
      | written c body fresh present form => exact Or.inr List.mem_cons_self

theorem introduces_entry (id : ClassId) (c : ClassObject) (settled : h.Settled before)
    (present : h.class? id = some c) :
    h.Introduces root before
      (.openClass id :: (Plan.text "\n" >> externPlan c.name).trace) := by
  constructor
  · intro front step rest split
    have member : step ∈ .openClass id :: (Plan.text "\n" >> externPlan c.name).trace := by
      simp only [split, List.mem_append, List.mem_cons, true_or, or_true]
    unfold Introduced
    split
    · simp [externPlan, Plan.text, Step.text] at member
    · trivial
  · intro complete cls name member called
    rw [Trace.complete_append] at complete
    rcases List.mem_append.mp member with begun | later
    · exact List.mem_append_left _ (settled complete.1 cls name begun called)
    · have same : cls = id := by simpa [externPlan, Plan.text, Step.text] using later
      have called_so : c.name = name := by simpa [same, className?, present] using called
      simp [externPlan, called_so]

theorem introduces_functionPlan (context : Option String) (id : ClosureId) (c : Closure)
    (p : Prototype) (owner : Option String) (settled : h.Settled before)
    (present : h.closureAt? id = some c) (there : h.proto? c.proto = some p)
    (owned : p.owner.map h.className? = owner.map some)
    (hoisted : before.Complete → ∀ cls ∈ hoistedClasses p, .openClass cls ∈ before) :
    h.Introduces root before (h.functionPlan context id c.proto p owner).trace := by
  refine .andThen (.silent settled rfl) fun settled => .andThen ?_ fun settled =>
    .andThen (.silent settled rfl) fun settled => .andThen ?_ fun settled => .silent settled rfl
  · cases owner with
    | none => exact .silent settled rfl
    | some name => exact .silent settled rfl
  · refine .referring settled (refers_function _ 2 c.proto) ?_
    intro complete cls name called named fresh
    -- The class around the function was introduced above; one among its constants was entered
    -- before the function began, so a class that was not is named further inside.
    by_cases foreign : p.owner = some cls
    · have stated : owner = some name := by
        rw [foreign, Option.map_some, called] at owned
        simpa using owned.symm
      exact Or.inl (by simp [stated, externPlan])
    · refine Or.inr (.function id c p (by simp) present there named foreign fun among => fresh ?_)
      simp only [Trace.complete_append] at complete
      simp only [List.mem_append]
      exact Or.inl (Or.inl (Or.inl (hoisted complete.1.1.1 cls among)))

theorem introduces_closurePlan (hoist : ClassId → Plan) (context : Option String) (id : ClosureId)
    (settled : h.Settled before)
    (hoisted : ∀ cls further, before <+: further → h.Settled further →
      h.Introduces root further (hoist cls).trace)
    (enters : ∀ cls, (hoist cls).trace.Complete →
      .openClass cls ∈ before ∨ .openClass cls ∈ (hoist cls).trace) :
    h.Introduces root before (h.closurePlan hoist context id).trace := by
  have form := h.closureForm hoist context id
  generalize h.closurePlan hoist context id = plan at form ⊢
  cases form with
  | written c p owner present there owned home =>
      refine .andThen (.andThen ?_ fun settled => ?_) fun settled =>
        introduces_functionPlan context id c p owner settled present there owned ?_
      · split <;> exact .silent settled rfl
      · rw [Plan.trace_each]
        exact .flatMap _ _ settled fun cls _ further beyond =>
          hoisted cls further ((List.prefix_append before _).trans beyond)
      · intro complete cls among
        simp only [Plan.trace_andThen, Plan.trace_each, Trace.complete_append,
          Trace.complete_flatMap] at complete
        simp only [Plan.trace_andThen, Plan.trace_each, List.mem_append, List.mem_flatMap]
        rcases enters cls (complete.2.2 cls among) with begun | begun
        · exact Or.inl begun
        · exact Or.inr (Or.inr ⟨cls, among, begun⟩)
  | _ => exact .silent settled rfl

theorem introduces_membersPlan (members : Option MapId) (member : Value → Plan)
    (settled : h.Settled before)
    (each : ∀ v further, before <+: further → h.Settled further →
      h.Introduces root further (member v).trace) :
    h.Introduces root before (h.membersPlan members member).trace := by
  cases members with
  | none => exact .silent settled rfl
  | some id =>
      simp only [membersPlan]
      cases h.table? id with
      | none => exact .silent settled rfl
      | some t =>
          refine .andThen (.silent settled rfl) fun settled => ?_
          rw [Plan.trace_each]
          exact .flatMap _ _ settled fun v _ further beyond =>
            each v further ((List.prefix_append before _).trans beyond)

theorem introduces_memberTablePlan (context : Option String) (members : Option MapId)
    (terminator : String) (settled : h.Settled before)
    (account : ∀ table, members = some table → before.Complete → ∀ cls name,
      h.className? cls = some name → h.LeadsTo (.plain (.map table)) cls →
      .openClass cls ∉ before →
        .write (.externClass name) ∈ before ∨ h.Overlooks root before cls) :
    h.Introduces root before (h.memberTablePlan context members terminator).trace := by
  cases members with
  | none => exact .silent settled rfl
  | some table =>
      refine .andThen (.referring settled (refers_constant context none _) ?_) fun settled =>
        .silent settled rfl
      exact account table rfl

theorem introduces_classBodyPlan (id : ClassId) (c : ClassObject) (superName : Option String)
    (settled : h.Settled before) (begun : .openClass id ∈ before) (present : h.class? id = some c)
    (inherits : c.super.map h.className? = superName.map some) :
    h.Introduces root before (h.classBodyPlan c superName).trace := by
  refine .andThen (.silent settled rfl) fun settled => .andThen ?_ fun settled =>
    .andThen (.silent settled rfl) fun settled => .andThen ?_ fun settled =>
      .andThen (introduces_memberTablePlan _ c.members _ settled ?_) fun settled =>
        .silent settled rfl
  · cases superName with
    | none => exact .silent settled rfl
    | some name => exact .silent settled rfl
  · cases superName with
    | none => exact .silent settled rfl
    | some name =>
        obtain ⟨super, _, called⟩ := Option.map_eq_some_iff.mp inherits
        have symbol : h.RefersOnly (· = super) [.write (.classSymbol name)] := .symbol called rfl
        have refers : h.RefersOnly (· = super) (superPlan (some name)).trace :=
          .append (.silent [_] rfl) (.append symbol (.silent [_] rfl))
        refine .referring settled refers ?_
        rintro _ cls other called_so rfl _
        obtain rfl : name = other := by simpa [called] using called_so
        exact Or.inl (by simp [externPlan])
  · intro table members complete cls name called leads fresh
    by_cases stranger : c.super = some cls
    · have stated : superName = some name := by
        rw [stranger, Option.map_some, called] at inherits
        simpa using inherits.symm
      exact Or.inl (by simp [stated, externPlan])
    · exact Or.inr (.classMember id c table (by simp [begun]) present members leads stranger)

theorem introduces_inheriting (id : ClassId) (c : ClassObject) (body : Plan)
    (settled : h.Settled before) (begun : .openClass id ∈ before) (present : h.class? id = some c)
    (form : h.BodyForm c body) : h.Introduces root before body.trace := by
  cases form with
  | orphan super inherits absent => exact .silent settled rfl
  | body superName inherits =>
      exact introduces_classBodyPlan id c superName settled begun present inherits

theorem introduces_classPlan (nesting : Nat) (opened : List ClassId) (id : ClassId)
    (settled : h.Settled before) (around : ∀ cls ∈ opened, .openClass cls ∈ before) :
    h.Introduces root before (h.classPlan nesting opened id).trace := by
  induction nesting generalizing opened id before with
  | zero => exact .silent settled rfl
  | succ nesting ih =>
      have form := h.classForm nesting opened id
      generalize h.classPlan (nesting + 1) opened id = plan at form ⊢
      cases form with
      | again around => exact .silent settled rfl
      | missing fresh absent => exact .silent settled rfl
      | written c body fresh present form =>
          -- Methods and body stand behind the entry of the class, and so do all classes around it.
          have entered (further : Trace) (beyond : before ++ .openClass id ::
              (Plan.text "\n" >> externPlan c.name).trace <+: further) :
              ∀ cls ∈ id :: opened, .openClass cls ∈ further := by
            intro cls member
            apply beyond.subset
            rcases List.mem_cons.mp member with rfl | outer
            · simp
            · exact List.mem_append_left _ (around cls outer)
          rw [Plan.trace_insideClass, Plan.trace_andThen, Plan.trace_andThen, ← List.append_assoc,
            ← Plan.trace_andThen, ← List.cons_append, List.append_assoc]
          refine .append (introduces_entry id c settled present) fun settled =>
            .append (.andThen ?_ fun settled => ?_) fun settled => .silent settled rfl
          · refine introduces_membersPlan c.members _ settled fun v further beyond settled => ?_
            have known := entered further beyond
            cases v.closure? with
            | none => exact .silent settled rfl
            | some closure =>
                refine introduces_closurePlan _ _ closure settled ?_ ?_
                · intro cls onward past settled
                  exact ih (id :: opened) cls settled fun other member =>
                    past.subset (known other member)
                · intro cls complete
                  exact (classPlan_enters nesting (id :: opened) cls complete).imp_left
                    (known cls)
          · refine introduces_inheriting id c body settled ?_ present form
            exact entered _ (List.prefix_append _ _) id List.mem_cons_self

theorem introduces_outermostClass (id : ClassId) (settled : h.Settled before) :
    h.Introduces root before (h.outermostClass id).trace :=
  introduces_classPlan h.classNesting [] id settled (by simp)

theorem outermostClass_enters (cls : ClassId) (complete : (h.outermostClass cls).trace.Complete) :
    .openClass cls ∈ (h.outermostClass cls).trace :=
  (classPlan_enters h.classNesting [] cls complete).resolve_left (by simp)

theorem introduces_modulePlan (id : ModuleId) (dumped : root.data = .moduleObject id)
    (settled : h.Settled before) : h.Introduces root before (h.modulePlan id).trace := by
  unfold modulePlan
  cases present : h.module? id with
  | none => exact .silent settled rfl
  | some m =>
      refine .andThen (introduces_membersPlan m.members _ settled fun v further _ settled => ?_)
        fun settled => .andThen (.silent settled rfl) fun settled =>
          .andThen (introduces_memberTablePlan none m.members _ settled ?_) fun settled =>
            .silent settled rfl
      · obtain ⟨data, isStatic⟩ := v
        cases data with
        | closure closure =>
            exact introduces_closurePlan _ none closure settled
              (fun cls further _ settled => introduces_outermostClass cls settled)
              fun cls complete => Or.inr (outermostClass_enters cls complete)
        | classObject cls => exact introduces_outermostClass cls settled
        | _ => exact .silent settled rfl
      · intro table members complete cls name called leads fresh
        refine Or.inr (.moduleMember id m table dumped present members leads ?_)
        intro t there v member same
        apply fresh
        simp only [members, membersPlan, there, Trace.complete_append, Plan.trace_andThen,
          Plan.trace_each, Trace.complete_flatMap] at complete
        have entered := complete.1.2.2 v member
        simp only [same] at entered
        simp only [members, membersPlan, there, Plan.trace_andThen, Plan.trace_each,
          List.mem_append, List.mem_flatMap]
        refine Or.inl (Or.inr (Or.inr ⟨v, member, ?_⟩))
        simp only [same]
        exact outermostClass_enters cls entered

theorem introduces_rootPlan (h : Heap) (root : Value) (context : Option String) :
    h.Introduces root [] (h.rootPlan root context).trace := by
  have settled : h.Settled [] := fun _ _ _ member => nomatch member
  unfold rootPlan
  split
  · exact introduces_closurePlan _ context _ settled
      (fun cls further _ settled => introduces_outermostClass cls settled)
      fun cls complete => Or.inr (outermostClass_enters cls complete)
  · exact introduces_outermostClass _ settled
  · exact introduces_modulePlan _ ‹_› settled
  · exact .silent settled rfl

/-- What a dump writes is the text of its steps if it comes to its end; and wherever it refers to a
class, it has introduced the class before, or has not come to the class so far and overlooks it. -/
theorem symbols_are_introduced_or_overlooked (h : Heap) (root : Value) (options : DumpOptions)
    (room : Option Nat) :
    let dumped := (h.dump root options room).1
    let steps := (h.rootPlan root options.context).taken options.weak room
    (dumped.error = none →
      dumped.bytes = (String.ofList (steps.spelling options.weak)).toUTF8.data.toList) ∧
    ∀ (before : Trace) (name : String) (after : Trace),
      steps = before ++ .write (.classSymbol name) :: after →
        .write (.externClass name) ∈ before ∨
          ∃ cls, h.className? cls = some name ∧ .openClass cls ∉ before ∧
            h.Overlooks root before cls := by
  intro dumped steps
  constructor
  · intro success
    have all : steps = (h.rootPlan root options.context).trace :=
      Plan.taken_of_complete options.weak room _ success
    rw [all]
    exact (Plan.run_complete options.weak room _ success).2
  · intro before name after split
    obtain ⟨rest, whole⟩ : steps <+: (h.rootPlan root options.context).trace :=
      Trace.taken_prefix options.weak _ _
    have complete : before.Complete :=
      Trace.complete_of_taken options.weak _ _ before _ after split
    rw [split, List.append_assoc, List.cons_append] at whole
    have introduced := (introduces_rootPlan h root options.context).each before _ _ whole.symm
    rw [List.nil_append] at introduced
    exact introduced complete

def sheltering : Heap where
  protos := #[⟨"f", "", 1, 0, 0, [], [⟨1⟩], none, [], []⟩,
    ⟨"g", "", 1, 0, 0, [], [], none, [.plain (.classObject ⟨0⟩)], []⟩]
  closures := #[⟨⟨0⟩, []⟩]
  classes := #[⟨"K", 0, none, none⟩]
  modules := #[]
  instances := #[]
  maps := #[]
  lists := #[]
  builtins := defaultBuiltins

/-- The text refers to the class of the nested function, and nothing in it introduces that class. -/
theorem sheltered_class_is_not_introduced :
    let plan := sheltering.rootPlan (.plain (.closure ⟨0⟩)) none
    let dumped := (sheltering.dump (.plain (.closure ⟨0⟩)) ⟨false, none⟩ none).1
    let steps := plan.taken false none
    (sheltering.classes.toList.map ClassObject.name).Nodup ∧
      (∀ c ∈ sheltering.classes.toList, PlainName c.name) ∧ dumped.error = none ∧
      dumped.bytes = (String.ofList (steps.spelling false)).toUTF8.data.toList ∧
      .write (.classSymbol "K") ∈ steps ∧ .write (.externClass "K") ∉ steps := by
  intro plan dumped steps
  have success : dumped.error = none := by decide +kernel
  refine ⟨by decide, by decide, success, ?_, by decide +kernel, by decide +kernel⟩
  have all : steps = plan.trace := Plan.taken_of_complete false none plan success
  rw [all]
  exact (Plan.run_complete false none plan success).2

end Heap

end StaticImage
