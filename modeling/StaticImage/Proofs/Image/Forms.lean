import StaticImage.Proofs.Image.FunctionTree

namespace StaticImage

namespace Heap

variable (h : Heap)

/-- What a prototype unfolds into while those in `opened` are being unfolded around it. -/
inductive ProtoForm (nesting : Nat) (opened : List ProtoId) (id : ProtoId) :
    FunctionImage MapId → Prop where
  | again (around : id ∈ opened) : ProtoForm nesting opened id (.refused .endless)
  | missing (absent : h.proto? id = none) : ProtoForm nesting opened id (.refused .dangling)
  | ownerless (p : Prototype) (owner : ClassId) (present : h.proto? id = some p)
      (owned : p.owner = some owner) (absent : h.className? owner = none) :
      ProtoForm nesting opened id (.refused .dangling)
  | node (p : Prototype) (owner : Option String) (fresh : id ∉ opened)
      (present : h.proto? id = some p) (owned : p.owner.map h.className? = owner.map some) :
      ProtoForm nesting opened id (.node (p.header owner).name (p.header owner).nstack
        (p.header owner).argc (p.header owner).varg (p.header owner).upvalues
        (p.header owner).owner
        (p.protos.map fun inner _ => h.unfoldProto nesting (id :: opened) inner)
        (p.consts.map h.constant) (p.header owner).code)

theorem protoForm (nesting : Nat) (opened : List ProtoId) (id : ProtoId) :
    h.ProtoForm nesting opened id (h.unfoldProto (nesting + 1) opened id) := by
  simp only [unfoldProto]
  split
  · exact .again ‹_›
  · cases present : h.proto? id with
    | none => exact .missing present
    | some p =>
        cases owned : p.owner with
        | none =>
            simp only [owned, Option.map_none]
            exact .node p none ‹_› present (by rw [owned]; rfl)
        | some owner =>
            cases called : h.className? owner with
            | none =>
                simp only [owned, Option.map_some, called]
                exact .ownerless p owner present owned called
            | some name =>
                simp only [owned, Option.map_some, called]
                exact .node p (some name) ‹_› present (by simp [owned, called])

inductive ClosureForm (hoist : ClassId → Plan) (context : Option String) (id : ClosureId) :
    Plan → Prop where
  | missing (absent : h.closureAt? id = none) :
      ClosureForm hoist context id (.stop .dangling)
  | bare (c : Closure) (present : h.closureAt? id = some c) (absent : h.proto? c.proto = none) :
      ClosureForm hoist context id (.stop .dangling)
  | ownerless (c : Closure) (p : Prototype) (owner : ClassId) (present : h.closureAt? id = some c)
      (there : h.proto? c.proto = some p) (owned : p.owner = some owner)
      (absent : h.className? owner = none) : ClosureForm hoist context id (.stop .dangling)
  | borrowed (c : Closure) (p : Prototype) (owner : ClassId) (name : String)
      (present : h.closureAt? id = some c) (there : h.proto? c.proto = some p)
      (owned : p.owner = some owner) (called : h.className? owner = some name)
      (elsewhere : context ≠ some (classContext name)) :
      ClosureForm hoist context id (borrowedPlan p.name name)
  | written (c : Closure) (p : Prototype) (owner : Option String)
      (present : h.closureAt? id = some c) (there : h.proto? c.proto = some p)
      (owned : p.owner.map h.className? = owner.map some)
      (home : ∀ name, owner = some name → context = some (classContext name)) :
      ClosureForm hoist context id
        (((if c.captured.isEmpty then Plan.nothing
            else Plan.text "--> Unsupported upvals in closure <---") >>
          Plan.each hoist (hoistedClasses p)) >> h.functionPlan context id c.proto p owner)

theorem closureForm (hoist : ClassId → Plan) (context : Option String) (id : ClosureId) :
    h.ClosureForm hoist context id (h.closurePlan hoist context id) := by
  unfold closurePlan
  cases present : h.closureAt? id with
  | none => exact .missing present
  | some c =>
      cases there : h.proto? c.proto with
      | none =>
          simp only [Option.bind_some, there]
          exact .bare c present there
      | some p =>
          cases owned : p.owner with
          | none =>
              simp only [Option.bind_some, there, Option.map_some, owned]
              exact .written c p none present there (by rw [owned]; rfl) fun name => nofun
          | some owner =>
              cases called : h.className? owner with
              | none =>
                  simp only [Option.bind_some, there, Option.map_some, owned, called]
                  exact .ownerless c p owner present there owned called
              | some name =>
                  simp only [Option.bind_some, there, Option.map_some, owned, called]
                  split
                  · rename_i home
                    refine .written c p (some name) present there (by simp [owned, called]) ?_
                    intro other same
                    cases same
                    exact home
                  · exact .borrowed c p owner name present there owned called ‹_›

inductive BodyForm (c : ClassObject) : Plan → Prop where
  | orphan (super : ClassId) (inherits : c.super = some super)
      (absent : h.className? super = none) : BodyForm c (.stop .dangling)
  | body (superName : Option String) (inherits : c.super.map h.className? = superName.map some) :
      BodyForm c (h.classBodyPlan c superName)

inductive ClassForm (nesting : Nat) (opened : List ClassId) (id : ClassId) : Plan → Prop where
  | again (around : id ∈ opened) : ClassForm nesting opened id .nothing
  | missing (fresh : id ∉ opened) (absent : h.class? id = none) :
      ClassForm nesting opened id (.stop .dangling)
  | written (c : ClassObject) (body : Plan) (fresh : id ∉ opened)
      (present : h.class? id = some c) (form : h.BodyForm c body) :
      ClassForm nesting opened id
        (.insideClass id
          (Plan.text "\n" >> externPlan c.name >>
            h.membersPlan c.members (fun v =>
              match v.closure? with
              | none => Plan.nothing
              | some closure =>
                h.closurePlan (h.classPlan nesting (id :: opened)) (some (classContext c.name))
                  closure) >>
            body))

theorem classForm (nesting : Nat) (opened : List ClassId) (id : ClassId) :
    h.ClassForm nesting opened id (h.classPlan (nesting + 1) opened id) := by
  simp only [classPlan]
  split
  · exact .again ‹_›
  · cases present : h.class? id with
    | none => exact .missing ‹_› present
    | some c =>
        refine .written c _ ‹_› present ?_
        cases inherits : c.super with
        | none => exact .body none (by rw [inherits]; rfl)
        | some super =>
            cases called : h.className? super with
            | none =>
                simp only [called]
                exact .orphan super inherits called
            | some name =>
                simp only [called]
                exact .body (some name) (by simp [inherits, called])

end Heap

end StaticImage
