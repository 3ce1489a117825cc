import StaticImage.Proofs.Image.WritingValues
import StaticImage.Proofs.Image.Forms

namespace StaticImage

open Relation (ReflTransGen)

/-- Steps that enter and leave no class and refer to none, begin no function, and neither define nor
borrow a symbol. -/
def Step.isSilent : Step → Bool
  | .openClass _ => false
  | .closeClass _ => false
  | .function _ => false
  | .write (.classSymbol _) => false
  | .write (.localClass _) => false
  | .write (.localClosure _) => false
  | .write (.externClosure _) => false
  | _ => true

namespace Heap

/-- The value is the class, or leads to it through lists, maps and instances. -/
def LeadsTo (h : Heap) (v : Value) (cls : ClassId) : Prop :=
  ∃ o, v.object? = some o ∧ ReflTransGen h.Contains o (.classObject cls)

/-- The prototype or one nested in it was compiled in the class, or has a constant that leads to
it. -/
def Names (h : Heap) (id : ProtoId) (cls : ClassId) : Prop :=
  ∃ inner p, ReflTransGen h.Nests id inner ∧ h.proto? inner = some p ∧
    (p.owner = some cls ∨ ∃ v ∈ p.consts, h.LeadsTo v cls)

def Refers (h : Heap) (named : ClassId → Prop) : Step → Prop
  | .openClass _ => False
  | .closeClass _ => False
  | .function _ => False
  | .write (.localClass _) => False
  | .write (.localClosure _) => False
  | .write (.externClosure _) => False
  | .write (.classSymbol name) => ∃ cls, h.className? cls = some name ∧ named cls
  | _ => True

def RefersOnly (h : Heap) (named : ClassId → Prop) (trace : Trace) : Prop :=
  ∀ step ∈ trace, h.Refers named step

variable {h : Heap} {named : ClassId → Prop}

namespace RefersOnly

theorem append {first second : Trace} (left : h.RefersOnly named first)
    (right : h.RefersOnly named second) : h.RefersOnly named (first ++ second) := by
  intro step member
  rcases List.mem_append.mp member with member | member
  · exact left step member
  · exact right step member

theorem silent (known : Trace) (silent : known.all Step.isSilent) : h.RefersOnly named known := by
  intro step member
  have quiet := List.all_eq_true.mp silent step member
  unfold Refers
  split <;> trivial

theorem symbol {name : String} {cls : ClassId} (called : h.className? cls = some name)
    (allowed : named cls) : h.RefersOnly named [.write (.classSymbol name)] := by
  intro step member
  rw [List.mem_singleton.mp member]
  exact ⟨cls, called, allowed⟩

theorem andThen {first second : Plan} (left : h.RefersOnly named first.trace)
    (right : h.RefersOnly named second.trace) : h.RefersOnly named (first >> second).trace :=
  append left right

theorem text (s : String) : h.RefersOnly named (Plan.text s).trace :=
  silent _ rfl

theorem flatMap {α : Type} (trace : α → Trace) (items : List α)
    (each : ∀ item ∈ items, h.RefersOnly named (trace item)) :
    h.RefersOnly named (items.flatMap trace) := by
  intro step member
  obtain ⟨item, inside, here⟩ := List.mem_flatMap.mp member
  exact each item inside step here

theorem each {α : Type} (plan : α → Plan) (items : List α)
    (each : ∀ item ∈ items, h.RefersOnly named (plan item).trace) :
    h.RefersOnly named (Plan.each plan items).trace := by
  rw [Plan.trace_each]
  exact flatMap _ items each

theorem mono {trace : Trace} {other : ClassId → Prop} (refers : h.RefersOnly named trace)
    (weaker : ∀ cls, named cls → other cls) : h.RefersOnly other trace := by
  intro step member
  have here := refers step member
  unfold Refers at here ⊢
  split
  · exact here
  · exact here
  · exact here
  · exact here
  · exact here
  · exact here
  · obtain ⟨cls, called, allowed⟩ := here
    exact ⟨cls, called, weaker cls allowed⟩
  · trivial

end RefersOnly

section constants

variable (context key : Option String)

theorem refers_constantKey (key : Datum) (link : Int) :
    h.RefersOnly named (key.constantKey.plan link).trace := by
  cases key with
  | string text => exact .silent _ rfl
  | int n => exact .silent _ rfl
  | _ => exact .silent _ rfl

theorem refers_closureConstant (isStatic : Bool) (id : ClosureId) :
    h.RefersOnly named ((h.closureConstant isStatic id).plan context key).trace := by
  unfold closureConstant
  split
  · exact .silent _ rfl
  · split
    · exact .silent _ rfl
    · split
      · exact .silent _ rfl
      · exact .silent _ rfl

theorem refers_instanceContent (i : InstanceObject) (c : Constant MapId)
    (content : h.instanceContent i = .inl c) : h.RefersOnly named (c.plan context key).trace := by
  unfold instanceContent at content
  split at content
  · cases content
    exact .silent _ rfl
  · split at content
    · cases content
      exact .silent _ rfl
    · cases content
      exact .silent _ rfl
    · split at content
      · cases content
        exact .silent _ rfl
      · cases content
        exact .silent _ rfl
    · cases content
    · cases content
      exact .silent _ rfl
    · cases content
    · cases content
      exact .silent _ rfl

theorem LeadsTo.inside {o : ObjectId} {v item : Value} {cls : ClassId} (here : v.object? = some o)
    (aggregate : o.isAggregate) (held : item ∈ h.values o) (leads : h.LeadsTo item cls) :
    h.LeadsTo v cls := by
  obtain ⟨part, refers, path⟩ := leads
  exact ⟨o, here, .head ⟨aggregate, item, held, refers⟩ path⟩

theorem refers_unfold (nesting : Nat) (opened : List MapId) (v : Value) :
    h.RefersOnly (h.LeadsTo v) ((h.unfold nesting opened v).plan context key).trace := by
  induction nesting generalizing opened v key with
  | zero => exact .silent _ rfl
  | succ nesting ih =>
      obtain ⟨data, isStatic⟩ := v
      cases data with
      | closure id => exact refers_closureConstant context key isStatic id
      | classObject id =>
          simp only [unfold]
          cases called : h.className? id with
          | none => exact .silent _ rfl
          | some name =>
              have leads : h.LeadsTo ⟨.classObject id, isStatic⟩ id := ⟨_, rfl, .refl⟩
              exact .append (.silent [_] rfl) (.append (.symbol called leads) (.silent [_] rfl))
      | instanceObject id =>
          simp only [unfold]
          cases present : h.instance? id with
          | none => exact .silent _ rfl
          | some i =>
              rw [Option.map_some]
              cases content : h.instanceContent i with
              | inl c => exact refers_instanceContent context key i c content
              | inr wrapped =>
                  obtain ⟨kind, inner⟩ := wrapped
                  have held : inner ∈ h.values (.instanceObject id) := by
                    simpa [values, present] using h.instanceContent_inr i kind inner content
                  rw [Constant.trace_wrapped]
                  have here := (ih key opened inner).mono fun cls leads =>
                    LeadsTo.inside (v := ⟨.instanceObject id, isStatic⟩) rfl rfl held leads
                  exact .append (.append (.silent [_] rfl) here) (.silent _ rfl)
      | list id =>
          simp only [unfold]
          cases present : h.list? id with
          | none => exact .silent _ rfl
          | some items =>
              rw [Constant.trace_list, Constant.trace_itemsPlan, List.flatMap_map]
              refine .append (.append (.silent [_] rfl) (.flatMap _ _ ?_)) (.silent _ rfl)
              intro item member
              have held : item ∈ h.values (.list id) := by simpa [values, present] using member
              have here := (ih (some "") opened item).mono fun cls leads =>
                LeadsTo.inside (v := ⟨.list id, isStatic⟩) rfl rfl held leads
              exact .append (.append (.silent [_] rfl) here) (.silent _ rfl)
      | map id =>
          simp only [unfold]
          split
          · exact .silent _ rfl
          · cases present : h.table? id with
            | none => exact .silent _ rfl
            | some t =>
                rw [Constant.trace_map, Constant.trace_bindingsPlan, List.flatMap_map]
                refine .append (.append (.silent _ rfl) (.flatMap _ _ ?_)) (.silent _ rfl)
                intro e member
                have held : e.value ∈ h.values (.map id) := by
                  simpa [values, present] using mem_parts_of_compact t e member
                have here := (ih e.key.data.constantKey.name? (id :: opened) e.value).mono
                  fun cls leads =>
                    LeadsTo.inside (v := ⟨.map id, isStatic⟩) rfl rfl held leads
                exact .append (.append (refers_constantKey e.key.data e.link) here) (.silent _ rfl)
      | _ => exact .silent _ rfl

theorem refers_constant (v : Value) :
    h.RefersOnly (h.LeadsTo v) ((h.constant v).plan context key).trace :=
  refers_unfold context key h.nesting [] v

end constants

section functions

open FunctionImage

theorem refers_upvalues (pad : String) (upvalues : List Upvalue) :
    h.RefersOnly named (upvaluesPlan pad upvalues).trace := by
  refine .silent _ ?_
  rw [upvaluesPlan, Plan.trace_steps, List.all_cons, Bool.and_eq_true]
  refine ⟨rfl, ?_⟩
  split
  · rfl
  · simp [Step.isSilent, Step.text, List.all_map]

theorem refers_owner (pad : String) (owner : Option String)
    (owned : ∀ name ∈ owner, ∃ cls, h.className? cls = some name ∧ named cls) :
    h.RefersOnly named (ownerPlan pad owner).trace := by
  cases owner with
  | none => exact .silent _ rfl
  | some name =>
      obtain ⟨cls, called, allowed⟩ := owned name rfl
      exact .append (.silent [_] rfl) (.append (.symbol called allowed) (.silent [_] rfl))

theorem refers_consts (pad : String) (consts : List Value)
    (leads : ∀ v ∈ consts, ∀ cls, h.LeadsTo v cls → named cls) :
    h.RefersOnly named (constsPlan pad (consts.map h.constant)).trace := by
  refine .andThen (.silent _ rfl) ?_
  split
  · exact .silent _ rfl
  · refine .andThen (.text _) (.andThen (.each _ _ ?_) (.text _))
    rintro ⟨c, k⟩ member
    obtain ⟨v, inside, rfl⟩ := List.mem_map.mp (List.fst_mem_of_mem_zipIdx member)
    have here := (refers_constant none none v).mono (leads v inside)
    exact .andThen (.text _) (.andThen here (.text _))

theorem refers_code (builtins : Nat) (name pad : String) (code : List Instruction) :
    h.RefersOnly named (codePlan builtins name pad code).trace := by
  refine .andThen (.text _) (.andThen (.each _ _ ?_) (.text _))
  rintro ⟨i, pc⟩ member
  refine .append (.silent _ rfl) ?_
  split
  · exact .silent _ rfl
  · split
    · exact .silent _ rfl
    · exact .silent _ rfl

theorem refers_nested (builtins : Nat) (pad : String) (column : Nat) (owner : Option String)
    (nested : List (Unit → FunctionImage MapId))
    (owned : ∀ name ∈ owner, ∃ cls, h.className? cls = some name ∧ named cls)
    (each : ∀ f ∈ nested, h.RefersOnly named (plan builtins (column + 4) (f ())).trace) :
    h.RefersOnly named (nestedField builtins pad column owner nested).trace := by
  unfold nestedField
  split
  · exact refers_owner pad owner owned
  · refine .andThen (.text _) (.andThen ?_ (.andThen (refers_owner pad owner owned) (.text _)))
    rw [trace_nestedPlan]
    exact .each _ nested fun f member => .andThen (each f member) (.text _)

theorem refers_unfoldProto (builtins nesting column : Nat) (opened : List ProtoId) (id : ProtoId) :
    h.RefersOnly (h.Names id) (plan builtins column (h.unfoldProto nesting opened id)).trace := by
  induction nesting generalizing column opened id with
  | zero => exact .silent _ rfl
  | succ nesting ih =>
      have form := h.protoForm nesting opened id
      generalize h.unfoldProto (nesting + 1) opened id = f at form ⊢
      cases form with
      | again around => exact .silent _ rfl
      | missing absent => exact .silent _ rfl
      | ownerless p owner present owned absent => exact .silent _ rfl
      | node p owner fresh present owned =>
          rw [plan_node]
          refine .andThen (.silent _ rfl) (.andThen (refers_upvalues _ _)
            (.andThen (.silent _ rfl) (.andThen (refers_nested _ _ _ _ _ ?_ ?_)
              (.andThen (refers_consts _ _ ?_) (.andThen (.silent _ rfl)
                (.andThen (refers_code _ _ _ _) (.text _)))))))
          -- The slot of the class, the functions nested in this one, and its own constants.
          · intro name same
            obtain rfl : owner = some name := same
            obtain ⟨cls, here, called⟩ := Option.map_eq_some_iff.mp owned
            exact ⟨cls, called, id, p, .refl, present, Or.inl here⟩
          · intro f member
            obtain ⟨inner, inside, rfl⟩ := List.mem_map.mp member
            refine (ih (column + 4) (id :: opened) inner).mono fun cls names => ?_
            obtain ⟨innermost, q, path, there, fact⟩ := names
            exact ⟨innermost, q, .head ⟨p, present, inside⟩ path, there, fact⟩
          · intro v inside cls leads
            exact ⟨id, p, .refl, present, Or.inr ⟨v, inside, leads⟩⟩

theorem refers_function (builtins column : Nat) (id : ProtoId) :
    h.RefersOnly (h.Names id) (plan builtins column (h.function id)).trace :=
  refers_unfoldProto builtins _ column [] id

end functions

end Heap

end StaticImage
