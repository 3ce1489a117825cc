import StaticImage.Image.Dump
import StaticImage.Proofs.Image.FunctionTree

namespace StaticImage

/-- A method of a class is at home only under the name that is in force inside its class. -/
def FunctionTree.AtHome (context : Option String) : FunctionTree → Prop
  | .node header _ _ => ∀ name ∈ header.owner, context = some (classContext name)

namespace Heap

def HoldsClosure (h : Heap) (f : FunctionTree) (id : ClosureId) : Prop :=
  ∃ proto, h.closureAt? id = some ⟨proto, []⟩ ∧ h.HoldsFunction f proto

theorem Holds.class?_eq_none (h : Heap) (d : Data) (v : Value) (held : h.Holds d v) :
    v.class? = none := by
  cases held <;> rfl

theorem class?_eq_none_of_mem (h : Heap) (ds : List Data) (vs : List Value)
    (held : List.Forall₂ h.Holds ds vs) (v : Value) (member : v ∈ vs) : v.class? = none := by
  induction held with
  | nil => cases member
  | cons head tail ih =>
      rcases List.mem_cons.mp member with rfl | inside
      · exact head.class?_eq_none
      · exact ih inside

theorem hoistedClasses_eq_nil (h : Heap) (ds : List Data) (p : Prototype)
    (held : List.Forall₂ h.Holds ds p.consts) : hoistedClasses p = [] := by
  rw [hoistedClasses, List.filterMap_eq_nil_iff]
  rintro ⟨v, k⟩ member
  have inside : v ∈ p.consts := List.fst_mem_of_mem_zipIdx member
  simp only [h.class?_eq_none_of_mem ds p.consts held v inside, ite_self]

theorem trace_closurePlan (h : Heap) (hoist : ClassId → Plan) (context : Option String)
    (header : FunctionHeader) (consts : List Data) (nested : List FunctionTree) (id : ClosureId)
    (proto : ProtoId) (present : h.closureAt? id = some ⟨proto, []⟩)
    (held : h.HoldsFunction (.node header consts nested) proto)
    (home : (FunctionTree.node header consts nested).AtHome context) :
    ∃ p, p.name = header.name ∧ (h.closurePlan hoist context id).trace =
      (h.functionPlan context id proto p header.owner).trace := by
  cases held with
  | node _ p owner _ _ there owned data inside =>
      have none_before : hoistedClasses p = [] := h.hoistedClasses_eq_nil consts p data
      refine ⟨p, rfl, ?_⟩
      simp only [closurePlan, present, Option.bind_some, there, Option.map_some, none_before]
      cases owner with
      | none =>
          have alone : p.owner = none := Option.map_eq_none_iff.mp owned
          rw [alone]
          rfl
      | some name =>
          obtain ⟨c, owner, named⟩ := Option.map_eq_some_iff.mp owned
          have around : context = some (classContext name) := home name rfl
          rw [owner]
          simp only [named, if_pos around]
          rfl

end Heap

theorem banner_tells (weak : Bool) (kind name other : String) (plain : PlainName name)
    (plain' : PlainName other) :
    Tells ((banner kind name).spelling weak) ((banner kind other).spelling weak)
      (name = other) := by
  have spelled (name : String) : (banner kind name).spelling weak =
      ("\n/" ++ bannerEdge ++ "\n** Solidified " ++ kind ++ ": ").toList ++
        (name.toList ++ ("\n" ++ (bannerEdge ++ "/\n")).toList) := by
    rw [banner, Step.spelling_text]
    simp only [String.toList_append, List.append_assoc]
  have ends : ("\n" ++ (bannerEdge ++ "/\n")).toList.head? = some '\n' := by
    rw [String.toList_append]
    rfl
  rw [spelled, spelled]
  exact (plain.tells plain' _ ends (by decide)).after _

@[simp]
theorem Step.spelling_function (weak : Bool) (id : ClosureId) :
    (Step.function id).spelling weak = [] := rfl

@[simp]
theorem Step.spelling_externClass (weak : Bool) (name : String) :
    (Step.write (.externClass name)).spelling weak =
      ("extern const bclass be_class_" ++ name ++ ";").toList := rfl

@[simp]
theorem Step.spelling_localClosure (weak : Bool) (symbol : String) :
    (Step.write (.localClosure symbol)).spelling weak =
      ("be_local_closure(" ++ symbol ++ ",").toList := rfl

theorem externPlan_tells (weak : Bool) (name other : String) (plain : PlainName name)
    (plain' : PlainName other) :
    PlansTell weak (externPlan name) (externPlan other) (name = other) := by
  apply PlansTell.steps
  simp only [Trace.spelling_cons, Trace.spelling_nil, Step.spelling_externClass,
    Step.spelling_text, String.toList_append, List.append_assoc]
  have names := plain.tells plain' (";".toList ++ "\n".toList) rfl (by decide)
  simpa only [List.append_nil] using names.after "extern const bclass be_class_".toList

def localSymbol (context : Option String) (name : String) : String :=
  match context with
  | none => Identifier.ofText name
  | some context => context ++ "_" ++ Identifier.ofText name

def localLine (context : Option String) (name : String) : Plan :=
  .steps [.write (.localClosure (localSymbol context name)), .text "   /* name */\n"]

theorem localLine_tells (weak : Bool) (context : Option String) (name other : String) :
    PlansTell weak (localLine context name) (localLine context other) (name = other) := by
  have names := Identifier.tells_ofText name other (",".toList ++ "   /* name */\n".toList) rfl
    (by decide)
  apply PlansTell.steps
  simp only [Trace.spelling_cons, Trace.spelling_nil, Step.spelling_localClosure,
    Step.spelling_text, String.toList_append, List.append_assoc, List.append_nil]
  cases context with
  | none => exact names.after _
  | some context =>
      simp only [localSymbol, String.toList_append, List.append_assoc]
      exact ((names.after _).after _).after _

def classLine : Option String → Plan
  | none => .nothing
  | some name => externPlan name

def functionEnd : Plan :=
  .text "\n);\n/*******************************************************************/\n\n"

theorem functionPlan_eq (h : Heap) (context : Option String) (id : ClosureId) (proto : ProtoId)
    (p : Prototype) (owner : Option String) :
    h.functionPlan context id proto p owner =
      Plan.steps [.function id, banner "function" p.name] >> classLine owner >>
        localLine context p.name >> (h.function proto).plan h.builtins.length 2 >> functionEnd := by
  cases context <;> cases owner <;> rfl

theorem spelling_localLine (weak : Bool) (context : Option String) (name : String) (next : Plan) :
    Trace.spelling weak (Plan.nothing >> localLine context name >> next).trace =
      "be_local_closure(".toList ++ ((localSymbol context name).toList ++ (",".toList ++
        ("   /* name */\n".toList ++ Trace.spelling weak next.trace))) := by
  simp only [Plan.nothing, localLine, Plan.trace_andThen, Plan.trace_steps, List.nil_append,
    Trace.spelling_append, Trace.spelling_cons, Trace.spelling_nil, Step.spelling_localClosure,
    Step.spelling_text, String.toList_append, List.append_assoc]

theorem spelling_externPlan (weak : Bool) (name : String) (next : Plan) :
    Trace.spelling weak (externPlan name >> next).trace =
      "extern const bclass be_class_".toList ++ (name.toList ++ (";".toList ++
        ("\n".toList ++ Trace.spelling weak next.trace))) := by
  simp only [externPlan, Plan.trace_andThen, Plan.trace_steps, Trace.spelling_append,
    Trace.spelling_cons, Trace.spelling_nil, Step.spelling_externClass, Step.spelling_text,
    String.toList_append, List.append_assoc, List.nil_append]

/-- A function with a line for its class is told from one without, and the rest is told as it is
told alone. -/
theorem declared_tells (weak : Bool) (context : Option String) (name name' : String)
    (owner owner' : Option String) (rest rest' : Plan) (fact : Prop)
    (plain : ∀ name ∈ owner, PlainName name) (plain' : ∀ name ∈ owner', PlainName name)
    (rests : PlansTell weak rest rest' fact) :
    PlansTell weak (classLine owner >> localLine context name >> rest)
      (classLine owner' >> localLine context name' >> rest') fact := by
  have lines := (localLine_tells weak context name name').andThen fun _ => rests
  cases owner with
  | none =>
      cases owner' with
      | none => exact (lines.after .nothing).mono And.right
      | some around' =>
          exact PlansTell.clash (spelling_localLine weak context name rest)
            (spelling_externPlan weak around' _) (by decide) (by decide)
  | some around =>
      cases owner' with
      | none =>
          exact PlansTell.clash (spelling_externPlan weak around _)
            (spelling_localLine weak context name' rest') (by decide) (by decide)
      | some around' =>
          have names := externPlan_tells weak around around' (plain around rfl)
            (plain' around' rfl)
          exact (names.andThen fun _ => lines).mono fun both => both.2.2

theorem functionPlan_tells (g h : Heap) (weak : Bool) (context : Option String)
    (id id' : ClosureId) (proto proto' : ProtoId) (p q : Prototype) (owner owner' : Option String)
    (fact : Prop) (named : PlainName p.name) (named' : PlainName q.name)
    (plain : ∀ name ∈ owner, PlainName name) (plain' : ∀ name ∈ owner', PlainName name)
    (functions : PlansTell weak ((g.function proto).plan g.builtins.length 2)
      ((h.function proto').plan h.builtins.length 2) fact) :
    PlansTell weak (g.functionPlan context id proto p owner)
      (h.functionPlan context id' proto' q owner') fact := by
  have banners : PlansTell weak (.steps [.function id, banner "function" p.name])
      (.steps [.function id', banner "function" q.name]) (p.name = q.name) := by
    apply PlansTell.steps
    simp only [Trace.spelling_cons, Trace.spelling_nil, Step.spelling_function, List.nil_append,
      List.append_nil]
    exact banner_tells weak "function" p.name q.name named named'
  have declared := declared_tells weak context p.name q.name owner owner' _ _ fact plain plain'
    (functions.before functionEnd)
  rw [functionPlan_eq, functionPlan_eq]
  exact (banners.andThen fun _ => declared).mono And.right

namespace Heap

/-- Two dumps without an error that wrote the same bytes were of functions with the same tree:
the same header, code and constants, and the same nested functions in the same order. -/
theorem text_determines_function (g h : Heap) (f f' : FunctionTree) (id id' : ClosureId)
    (isStatic isStatic' : Bool) (options : DumpOptions) (room room' : Option Nat)
    (held : g.HoldsClosure f id) (held' : h.HoldsClosure f' id') (plain : f.PlainNames)
    (plain' : f'.PlainNames) (home : f.AtHome options.context) (home' : f'.AtHome options.context)
    (success : (g.dump ⟨.closure id, isStatic⟩ options room).1.error = none)
    (success' : (h.dump ⟨.closure id', isStatic'⟩ options room').1.error = none)
    (same : (g.dump ⟨.closure id, isStatic⟩ options room).1.bytes =
      (h.dump ⟨.closure id', isStatic'⟩ options room').1.bytes) : f = f' := by
  obtain ⟨proto, present, function⟩ := held
  obtain ⟨proto', present', function'⟩ := held'
  obtain ⟨complete, bytes⟩ := Plan.run_complete options.weak room
    (g.closurePlan g.outermostClass options.context id) success
  obtain ⟨complete', bytes'⟩ := Plan.run_complete options.weak room'
    (h.closurePlan h.outermostClass options.context id') success'
  have texts := bytes.symm.trans (same.trans bytes')
  obtain ⟨header, consts, nested⟩ := f
  obtain ⟨header', consts', nested'⟩ := f'
  have functions := FunctionImage.tells g h options.weak g.builtins.length h.builtins.length 2
    (g.protos.size + 1) (h.protos.size + 1) [] [] _ _ proto proto' function function' plain plain'
  obtain ⟨p, named, trace⟩ := g.trace_closurePlan g.outermostClass options.context header consts
    nested id proto present function home
  obtain ⟨q, named', trace'⟩ := h.trace_closurePlan h.outermostClass options.context header'
    consts' nested' id' proto' present' function' home'
  obtain ⟨_, _, _, name, owner, _⟩ := plain
  obtain ⟨_, _, _, name', owner', _⟩ := plain'
  have told := PlansTell.of_traces trace trace' (functionPlan_tells g h options.weak
    options.context id id' proto proto' p q header.owner header'.owner _ (named ▸ name)
    (named' ▸ name') owner owner' functions)
  apply (told complete complete').of_eq
  apply String.ofList_injective
  apply String.toByteArray_inj.mp
  apply ByteArray.ext
  exact Array.toList_inj.mp texts

def sampleTree : FunctionTree :=
  .node ⟨"outer", 1, 0, 0, [], none, [.abc .ret 0 0 0]⟩
    [.int 7, .list [.bool true], .map [⟨.number 1, chainEnd, .int 10⟩]]
    [.node ⟨"inner", 1, 0, 0, [], none, []⟩ [] []]

def sampleOuter (source : String) : Prototype :=
  ⟨"outer", source, 1, 0, 0, [], [⟨1⟩], none,
    [.plain (.int 7), .plain (.list ⟨0⟩), .plain (.map ⟨0⟩)], [.abc .ret 0 0 0]⟩

def sampleInner (source : String) : Prototype :=
  ⟨"inner", source, 1, 0, 0, [], [], none, [], []⟩

def sampleTable : Table :=
  (Table.sized 2).place (.plain (.int 1)) (.plain (.int 10))

def sample (source : String) : Heap :=
  { empty with
    protos := #[sampleOuter source, sampleInner source]
    closures := #[⟨⟨0⟩, []⟩]
    maps := #[sampleTable]
    lists := #[[.plain (.bool true)]] }

theorem sample_holds (source : String) : (sample source).HoldsClosure sampleTree ⟨0⟩ := by
  have inner : (sample source).HoldsFunction (.node ⟨"inner", 1, 0, 0, [], none, []⟩ [] []) ⟨1⟩ :=
    .node ⟨1⟩ (sampleInner source) none [] [] rfl rfl .nil .nil
  have items : (sample source).Holds (.list [.bool true]) (.plain (.list ⟨0⟩)) :=
    .list _ ⟨0⟩ [.plain (.bool true)] false rfl (.cons (.bool true false) .nil)
  have entries : sampleTable.compact.entries =
      [⟨.plain (.int 1), .plain (.int 10), chainEnd⟩] := by decide
  have table : (sample source).Holds (.map [⟨.number 1, chainEnd, .int 10⟩])
      (.plain (.map ⟨0⟩)) := by
    refine .map _ ⟨0⟩ sampleTable false rfl ?_
    rw [entries]
    exact .cons (.intro (.number 1) (.int 10) ⟨.plain (.int 1), .plain (.int 10), chainEnd⟩ rfl
      (.int 10 false)) .nil
  exact ⟨⟨0⟩, rfl, .node ⟨0⟩ (sampleOuter source) none
    [.int 7, .list [.bool true], .map [⟨.number 1, chainEnd, .int 10⟩]] _ rfl rfl
    (.cons (.int 7 false) (.cons items (.cons table .nil))) (.cons inner .nil)⟩

theorem sample_text_determines_function :
    ((sample "first").dump ⟨.closure ⟨0⟩, false⟩ ⟨false, none⟩ none).1.error = none ∧
      ((sample "first").dump ⟨.closure ⟨0⟩, false⟩ ⟨false, none⟩ none).1.bytes =
        ((sample "second").dump ⟨.closure ⟨0⟩, true⟩ ⟨false, none⟩ none).1.bytes ∧
      sampleTree = sampleTree := by
  have plain : sampleTree.PlainNames := by
    refine .node _ _ _ (by decide) nofun fun f member => ?_
    rw [List.mem_singleton.mp member]
    exact .node _ _ _ (by decide) nofun nofun
  have success : ((sample "first").dump ⟨.closure ⟨0⟩, false⟩ ⟨false, none⟩ none).1.error = none :=
    Plan.run_unbounded false ((sample "first").closurePlan _ none ⟨0⟩) (by decide)
  have success' : ((sample "second").dump ⟨.closure ⟨0⟩, true⟩ ⟨false, none⟩ none).1.error = none :=
    Plan.run_unbounded false ((sample "second").closurePlan _ none ⟨0⟩) (by decide)
  have same : ((sample "first").dump ⟨.closure ⟨0⟩, false⟩ ⟨false, none⟩ none).1.bytes =
      ((sample "second").dump ⟨.closure ⟨0⟩, true⟩ ⟨false, none⟩ none).1.bytes := by
    have plans : (sample "first").closurePlan (sample "first").outermostClass none ⟨0⟩ =
      (sample "second").closurePlan (sample "second").outermostClass none ⟨0⟩ := rfl
    exact congrArg (fun plan => (Plan.run false none plan).bytes) plans
  exact ⟨success, same, text_determines_function (sample "first") (sample "second")
    sampleTree sampleTree ⟨0⟩ ⟨0⟩ false true ⟨false, none⟩ none none (sample_holds "first")
    (sample_holds "second") plain plain nofun nofun success success' same⟩

end Heap

end StaticImage
