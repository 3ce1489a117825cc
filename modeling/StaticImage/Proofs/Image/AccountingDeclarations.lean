import StaticImage.Proofs.Image.Accounting

namespace StaticImage

namespace Heap

section

variable (h : Heap)

def methodPlan (hoist : ClassId → Plan) (context : Option String) (v : Value) : Plan :=
  match v.closure? with
  | none => .nothing
  | some closure => h.closurePlan hoist context closure

def moduleMemberPlan (v : Value) : Plan :=
  match v.data with
  | .closure closure => h.closurePlan h.outermostClass none closure
  | .classObject cls => h.outermostClass cls
  | _ => .nothing

def classHead (c : ClassObject) : Trace :=
  .text "\n" :: (externPlan c.name).trace

theorem trace_classPlan (nesting : Nat) (opened : List ClassId) (id : ClassId) (c : ClassObject)
    (fresh : id ∉ opened) (present : h.class? id = some c) :
    ∃ body, h.BodyForm c body ∧ (h.classPlan (nesting + 1) opened id).trace =
      .openClass id :: (classHead c ++ (h.membersPlan c.members (h.methodPlan
        (h.classPlan nesting (id :: opened)) (some (classContext c.name)))).trace ++ body.trace) ++
          [.closeClass id] := by
  have form := h.classForm nesting opened id
  generalize h.classPlan (nesting + 1) opened id = plan at form ⊢
  cases form with
  | again around => exact (fresh around).elim
  | missing _ absent => cases present.symm.trans absent
  | written c' body _ there form =>
      cases present.symm.trans there
      refine ⟨body, form, ?_⟩
      simp only [Plan.trace_insideClass, Plan.trace_andThen, classHead, List.cons_append,
        List.append_assoc]
      rfl

end

variable {h : Heap} {root : Value} {context : Option String} {before : Trace}

theorem RefersOnly.inert {named : ClassId → Prop} {trace : Trace}
    (refers : h.RefersOnly named trace) : trace.all Step.isInert := by
  apply List.all_eq_true.mpr
  intro step member
  have here := refers step member
  unfold Step.isInert
  split <;> first | rfl | exact here.elim

theorem inert_externPlan (name : String) : (externPlan name).trace.all Step.isInert := rfl

def externLine : Option String → Trace
  | none => []
  | some name => [.write (.externClass name), .text "\n"]

def functionHeader (p : Prototype) (owner : Option String) : Trace :=
  banner "function" p.name :: externLine owner

theorem inert_functionHeader (p : Prototype) (owner : Option String) :
    (functionHeader p owner).all Step.isInert := by
  cases owner <;> rfl

def functionRest (h : Heap) (proto : ProtoId) : Trace :=
  .text "   /* name */\n" :: ((h.function proto).plan h.builtins.length 2).trace ++
    [.text "\n);\n/*******************************************************************/\n\n"]

theorem inert_functionRest (proto : ProtoId) : (h.functionRest proto).all Step.isInert := by
  have tree := (refers_function (h := h) h.builtins.length 2 proto).inert
  simp [functionRest, tree, Step.text, Step.isInert]

theorem trace_functionPlan (name : Option String) (id : ClosureId) (proto : ProtoId)
    (p : Prototype) (owner : Option String) :
    (h.functionPlan name id proto p owner).trace =
      [.function id] ++ functionHeader p owner ++
        [.write (.localClosure (functionSymbol name p.name))] ++ h.functionRest proto := by
  simp only [functionPlan, Plan.trace_andThen, Plan.trace_steps, functionHeader, functionRest,
    Plan.text, List.append_assoc, List.cons_append, List.nil_append]
  cases owner <;> rfl

theorem accounts_functionPlan (id : ClosureId) (proto : ProtoId) (p : Prototype)
    (owner : Option String) (belongs : h.Belongs root context before.opened id p) :
    h.Accounts root context before
      (h.functionPlan (h.contextIn root context before.opened) id proto p owner).trace := by
  rw [trace_functionPlan]
  have begins : h.Accounts root context before [.function id] :=
    .step (.function id) rfl fun rest => ⟨p, belongs⟩
  have header : h.Accounts root context (before ++ [.function id]) (functionHeader p owner) :=
    .inert (inert_functionHeader p owner)
  refine ((begins.append header).append
    (.step (.write (.localClosure _)) rfl fun rest => ?_)).append
      (.inert (inert_functionRest proto))
  have same : (before ++ ([Step.function id] ++ functionHeader p owner)).opened = before.opened :=
    (begins.append header).back
  refine ⟨id, p, ?_, ?_, ?_⟩
  · rw [← List.append_assoc, Trace.announced?_inert _ _ (inert_functionHeader p owner),
      Trace.announced?_function]
  · rwa [same]
  · rw [same]

theorem accounts_closurePlan (hoist : ClassId → Plan) (id : ClosureId)
    (met : id ∈ h.metIn root before.opened)
    (hoists : ∀ cls, ∀ further : Trace, further.opened = before.opened →
      h.Accounts root context further (hoist cls).trace) :
    h.Accounts root context before
      (h.closurePlan hoist (h.contextIn root context before.opened) id).trace := by
  have form := h.closureForm hoist (h.contextIn root context before.opened) id
  generalize h.closurePlan hoist (h.contextIn root context before.opened) id = plan at form ⊢
  cases form with
  | borrowed c p owner name present there owned called elsewhere =>
      exact ((Accounts.step (.text _) rfl fun _ => trivial).append
        (.step (.write (.externClosure _)) rfl fun _ => trivial)).append
          (.step (.text "\n") rfl fun _ => trivial)
  | written c p owner present there owned home =>
      have written := isWritten_home _ p owner owned home
      have belongs : h.Belongs root context before.opened id p :=
        ⟨met, by simp [prototypeOf?, present, there], written⟩
      have warning : h.Accounts root context before
          (if c.captured.isEmpty then Plan.nothing
            else Plan.text "--> Unsupported upvals in closure <---").trace := by
        split
        · exact .nothing
        · exact .inert rfl
      have hoisted : h.Accounts root context before (Plan.trace ((if c.captured.isEmpty then
          Plan.nothing else Plan.text "--> Unsupported upvals in closure <---") >>
            Plan.each hoist (hoistedClasses p))) := by
        refine warning.append ?_
        rw [Plan.trace_each]
        exact .flatMap _ _ fun cls _ further same => hoists cls further (same.trans warning.back)
      refine hoisted.append ?_
      rw [← hoisted.back]
      exact accounts_functionPlan id c.proto p owner (hoisted.back ▸ belongs)
  | _ => exact .inert rfl

theorem framed_membersPlan {fits : Trace → Step → Trace → Prop} [Trace.Lasting fits]
    (members : Option MapId) (member : Value → Plan)
    (each : ∀ t, members.bind h.table? = some t → ∀ v ∈ namedMembers t, ∀ further : Trace,
      further.opened = before.opened → Trace.Framed fits further (member v).trace) :
    Trace.Framed fits before (h.membersPlan members member).trace := by
  cases members with
  | none => exact .nothing
  | some table =>
      rw [Option.bind_some] at each
      simp only [membersPlan]
      cases present : h.table? table with
      | none => exact .inert rfl
      | some t =>
          have compacting : Trace.Framed fits before [.compact table] := .inert rfl
          refine compacting.append ?_
          rw [Plan.trace_each]
          exact .flatMap _ _ fun v inside further same =>
            each t present v inside further (same.trans compacting.back)

theorem accounts_membersPlan (members : Option MapId) (member : Value → Plan)
    (each : ∀ t, members.bind h.table? = some t → ∀ v ∈ namedMembers t, ∀ further : Trace,
      further.opened = before.opened → h.Accounts root context further (member v).trace) :
    h.Accounts root context before (h.membersPlan members member).trace :=
  .of_framed (framed_membersPlan members member fun t present v inside further same =>
    (each t present v inside further same).framed)

theorem mem_memberClosures {members : Option MapId} {t : Table} {v : Value} {id : ClosureId}
    (present : members.bind h.table? = some t) (inside : v ∈ namedMembers t)
    (closure : v.closure? = some id) : id ∈ h.memberClosures members := by
  rw [memberClosures, present]
  exact List.mem_filterMap.mpr ⟨v, inside, closure⟩

theorem inert_memberTablePlan (name : Option String) (members : Option MapId)
    (terminator : String) : (h.memberTablePlan name members terminator).trace.all Step.isInert := by
  cases members with
  | none => rfl
  | some table =>
      have constant := (refers_constant (h := h) name none (.plain (.map table))).inert
      simp only [memberTablePlan, Plan.trace_andThen, List.all_append, constant]
      rfl

def superField : Option String → Trace
  | none => [.text "    NULL,\n"]
  | some name => [.text "    &", .write (.classSymbol name), .text ",\n"]

def classMiddle (c : ClassObject) (superName : Option String) : Trace :=
  banner "class" c.name :: externLine superName ++
    [.write (.localClass c.name), .text ("\n    " ++ toString c.nvar.toNat ++ ",\n")] ++
      superField superName

theorem inert_classMiddle (c : ClassObject) (superName : Option String) :
    (classMiddle c superName).all Step.isInert := by
  cases superName <;> rfl

theorem trace_classBodyPlan (c : ClassObject) (superName : Option String) :
    (h.classBodyPlan c superName).trace = classMiddle c superName ++
      (h.memberTablePlan (some (classContext c.name)) c.members ",\n").trace ++
        [.text "    ", .write (.className c.name), .text "\n);\n"] := by
  simp only [classBodyPlan, Plan.trace_andThen, Plan.trace_steps, classMiddle,
    List.append_assoc, List.cons_append, List.nil_append]
  cases superName <;> rfl

theorem inert_body (c : ClassObject) (body : Plan) (form : h.BodyForm c body) :
    body.trace.all Step.isInert := by
  cases form with
  | orphan super inherits absent => rfl
  | body superName inherits =>
      rw [trace_classBodyPlan, List.all_append, List.all_append, inert_classMiddle,
        inert_memberTablePlan]
      rfl

theorem accounts_classPlan (nesting : Nat) (id : ClassId) :
    h.Accounts root context before (h.classPlan nesting before.opened id).trace := by
  induction nesting generalizing before id with
  | zero => exact .inert rfl
  | succ nesting ih =>
      by_cases around : id ∈ before.opened
      · rw [classPlan, if_pos around]
        exact .nothing
      · cases present : h.class? id with
        | none =>
            simp only [classPlan, if_neg around, present]
            exact .inert rfl
        | some c =>
            obtain ⟨body, form, whole⟩ := h.trace_classPlan nesting before.opened id c around present
            rw [whole]
            refine .enclosed nesting around whole ?_
            have start : h.Accounts root context (before ++ [.openClass id]) (classHead c) :=
              .inert rfl
            -- Between the head and the body of a class only its methods have steps to account for.
            refine (start.append ?_).append (.inert (inert_body c body form))
            refine accounts_membersPlan _ _ fun t there v member further back => ?_
            have opened : further.opened = id :: before.opened := by
              rw [back, start.back, before.opened_openClass]
            have inside : h.contextIn root context further.opened = some (classContext c.name) := by
              simp [opened, contextIn, className?, present]
            unfold methodPlan
            cases closure : v.closure? with
            | none => exact .nothing
            | some method =>
                simp only [← inside, ← opened]
                refine accounts_closurePlan _ method ?_ fun cls beyond same => ?_
                · rw [opened, metIn, methods, present, Option.bind_some]
                  exact mem_memberClosures there member closure
                · rw [← same]
                  exact ih cls

theorem accounts_outermostClass (idle : before.opened = []) (id : ClassId) :
    h.Accounts root context before (h.outermostClass id).trace := by
  have here : h.Accounts root context before (h.classPlan h.classNesting before.opened id).trace :=
    accounts_classPlan h.classNesting id
  rwa [idle] at here

def moduleMiddle (name : String) : Trace :=
  [banner "module" name, .text ("be_local_module(" ++ name ++ ",\n    \"" ++ name ++ "\",\n")]

def moduleEnd (name : String) : Trace :=
  [.text (");\nBE_EXPORT_VARIABLE be_define_const_native_module(" ++ name ++ ");\n/" ++ bannerEdge ++
    "/\n")]

theorem trace_modulePlan (id : ModuleId) (m : ModuleObject) (present : h.module? id = some m) :
    (h.modulePlan id).trace = (h.membersPlan m.members h.moduleMemberPlan).trace ++
      moduleMiddle (m.name.getD "") ++ (h.memberTablePlan none m.members "\n").trace ++
        moduleEnd (m.name.getD "") := by
  simp only [modulePlan, present, Plan.trace_andThen, Plan.trace_steps, moduleMiddle, moduleEnd,
    List.append_assoc]
  rfl

theorem accounts_modulePlan (id : ModuleId) (data : root.data = .moduleObject id) :
    h.Accounts root context [] (h.modulePlan id).trace := by
  cases present : h.module? id with
  | none =>
      simp only [modulePlan, present]
      exact .inert rfl
  | some m =>
      have members : h.Accounts root context []
          (h.membersPlan m.members h.moduleMemberPlan).trace := by
        refine accounts_membersPlan _ _ fun t there v member further idle => ?_
        have none_open : further.opened = [] := idle
        have unnamed : h.contextIn root context further.opened = none := by
          simp only [none_open, contextIn, data]
        unfold moduleMemberPlan
        cases value : v.data with
        | closure closure =>
            simp only
            rw [← unnamed]
            refine accounts_closurePlan _ closure ?_ fun cls beyond same =>
              accounts_outermostClass (same.trans none_open) cls
            simp only [none_open, metIn, data, present, Option.bind_some]
            exact mem_memberClosures there member (by simp only [Value.closure?, value])
        | classObject cls => exact accounts_outermostClass none_open cls
        | _ => exact .nothing
      rw [trace_modulePlan id m present]
      refine ((members.append (.inert rfl)).append (.inert ?_)).append (.inert rfl)
      exact inert_memberTablePlan none m.members "\n"

theorem accounts_rootPlan : h.Accounts root context [] (h.rootPlan root context).trace := by
  cases data : root.data with
  | closure id =>
      have named : h.contextIn root context [] = context := by simp only [contextIn, data]
      have met : id ∈ h.metIn root [] := by simp [metIn, data]
      have accounts : h.Accounts root context []
          (h.closurePlan h.outermostClass (h.contextIn root context []) id).trace :=
        accounts_closurePlan h.outermostClass id met fun cls further idle =>
          accounts_outermostClass idle cls
      rw [named] at accounts
      simpa only [rootPlan, data] using accounts
  | classObject id =>
      simp only [rootPlan, data]
      exact accounts_outermostClass rfl id
  | moduleObject id =>
      simp only [rootPlan, data]
      exact accounts_modulePlan id data
  | _ =>
      simp only [rootPlan, data]
      exact .inert rfl

end Heap

end StaticImage
