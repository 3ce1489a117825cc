import StaticImage.Image.Dump
import StaticImage.Proofs.Image.Forms
import StaticImage.Proofs.Image.Taken

/-!
Plans leave what they enter. A map or class is entered only together with the plan inside it, so it is
left again also where that plan fails, and the maps and classes that are being written are the same
behind a plan as before it.
-/

namespace StaticImage

def Step.isMark : Step → Bool
  | .openMap _ | .closeMap _ | .openClass _ | .closeClass _ => true
  | _ => false

def Step.leaves : Step → Bool
  | .closeMap _ | .closeClass _ => true
  | _ => false

namespace Underway

def after (u : Underway) (trace : Trace) : Underway :=
  trace.foldl take u

theorem after_append (u : Underway) (first second : Trace) :
    u.after (first ++ second) = (u.after first).after second :=
  List.foldl_append

structure Distinct (u : Underway) : Prop where
  classes : u.classes.Nodup
  maps : u.maps.Nodup

theorem Distinct.leave {u : Underway} (distinct : u.Distinct) {out : Trace}
    (leaving : out.all Step.leaves) : (u.after out).Distinct := by
  induction out generalizing u with
  | nil => exact distinct
  | cons step rest ih =>
      rw [List.all_cons, Bool.and_eq_true] at leaving
      refine ih ?_ leaving.2
      cases step with
      | closeMap id => exact ⟨distinct.classes, distinct.maps.tail⟩
      | closeClass id => exact ⟨distinct.classes.tail, distinct.maps⟩
      | _ => cases leaving.1

end Underway

namespace Progress

variable (weak : Bool) (p : Progress)

@[simp]
theorem underway_send (bytes : ByteArray) : (p.send bytes).underway = p.underway := by
  unfold send
  split
  · rfl
  · split <;> rfl

@[simp]
theorem underway_take (step : Step) : (p.take weak step).underway = p.underway.take step := by
  cases step with
  | write piece => exact p.underway_send _
  | _ => rfl

theorem underway_foldl (trace : Trace) :
    (trace.foldl (Progress.take weak) p).underway = p.underway.after trace := by
  induction trace generalizing p with
  | nil => rfl
  | cons step rest ih =>
      rw [List.foldl_cons, ih, underway_take]
      rfl

end Progress

theorem Trace.taken_append (weak : Bool) (first second : Trace) (p : Progress)
    (unbroken : p.error = none) :
    taken weak (first ++ second) p = taken weak first p ++
      if (first.follow weak p).error.isSome then [] else taken weak second (first.follow weak p) := by
  induction first generalizing p with
  | nil => simp [taken, follow, unbroken]
  | cons step rest ih =>
      cases failed : (p.take weak step).error with
      | some why =>
          have stopped : (p.take weak step).error.isSome := by simp [failed]
          rw [List.cons_append, taken_failed weak step _ p stopped, taken_failed weak step _ p stopped,
            follow_failed weak step rest p stopped, if_pos stopped, List.append_nil]
      | none =>
          rw [List.cons_append, taken_onward weak step _ p failed, taken_onward weak step _ p failed,
            follow_onward weak step rest p failed, ih _ failed, List.cons_append]

namespace Plan

/-- The steps of a run, with those that leave maps and classes on the way out of a failure. -/
def performed (weak : Bool) : Plan → Progress → Trace
  | steps known, p => known.taken weak p
  | append first next, p =>
    let q := first.follow weak p
    first.performed weak p ++ if q.error.isSome then [] else (next ()).performed weak q
  | insideMap id inner, p =>
    .openMap id :: inner.performed weak (p.take weak (.openMap id)) ++ [.closeMap id]
  | insideClass id inner, p =>
    .openClass id :: inner.performed weak (p.take weak (.openClass id)) ++ [.closeClass id]

variable (weak : Bool) (plan : Plan) (p : Progress)

theorem follow_eq_foldl_performed :
    plan.follow weak p = (plan.performed weak p).foldl (Progress.take weak) p := by
  induction plan generalizing p with
  | steps known => exact Trace.follow_eq_foldl_taken weak known p
  | append first next first_ih next_ih =>
      rw [performed, List.foldl_append, ← first_ih, follow]
      split
      · rfl
      · exact next_ih () _
  | insideMap id inner ih =>
      rw [follow, ih, performed, List.foldl_append]
      rfl
  | insideClass id inner ih =>
      rw [follow, ih, performed, List.foldl_append]
      rfl

theorem performed_enclosed (entry exit : Step) (inner : Plan) {p : Progress}
    (marks : exit.leaves) (entered : (p.take weak entry).error = none)
    (inside : ∃ out, inner.performed weak (p.take weak entry) =
        inner.trace.taken weak (p.take weak entry) ++ out ∧ out.all Step.leaves ∧
      ((inner.trace.follow weak (p.take weak entry)).error = none → out = [])) :
    ∃ out, entry :: inner.performed weak (p.take weak entry) ++ [exit] =
        Trace.taken weak (entry :: inner.trace ++ [exit]) p ++ out ∧ out.all Step.leaves ∧
      ((Trace.follow weak (entry :: inner.trace ++ [exit]) p).error = none → out = []) := by
  obtain ⟨out, whole, leaving, complete⟩ := inside
  simp only [List.cons_append]
  rw [Trace.taken_onward weak entry _ p entered, Trace.follow_onward weak entry _ p entered,
    Trace.taken_append weak _ _ _ entered, Trace.follow_append weak _ _ _ entered, whole]
  cases failed : (inner.trace.follow weak (p.take weak entry)).error with
  | some why => exact ⟨out ++ [exit], by simp, by simp [leaving, marks], by simp [failed]⟩
  | none =>
      rw [complete failed]
      refine ⟨[], ?_, rfl, fun _ => rfl⟩
      simp [Trace.taken]

/-- A run performs the steps that are taken of its trace, and then only leaves what it is inside of. -/
theorem performed_eq_taken (unbroken : p.error = none) :
    ∃ out, plan.performed weak p = plan.trace.taken weak p ++ out ∧ out.all Step.leaves ∧
      ((plan.trace.follow weak p).error = none → out = []) := by
  induction plan generalizing p with
  | steps known => exact ⟨[], (List.append_nil _).symm, rfl, fun _ => rfl⟩
  | append first next first_ih next_ih =>
      obtain ⟨out, whole, leaving, complete⟩ := first_ih p unbroken
      obtain ⟨same, onward⟩ := first.follow_trace weak p unbroken
      have errors : (first.follow weak p).error = (first.trace.follow weak p).error :=
        congrArg DumpOutcome.error same
      rw [performed, trace, Trace.taken_append weak _ _ p unbroken,
        Trace.follow_append weak _ _ p unbroken, whole, errors]
      cases failed : (first.trace.follow weak p).error with
      | some why => exact ⟨out, by simp, leaving, by simp [failed]⟩
      | none =>
          obtain ⟨rest, later, leaving, ends⟩ := next_ih () _ failed
          refine ⟨rest, ?_, leaving, ?_⟩
          · simp [complete failed, onward failed, later]
          · simpa [failed] using ends
  | insideMap id inner ih =>
      exact performed_enclosed weak (.openMap id) (.closeMap id) inner rfl unbroken (ih _ unbroken)
  | insideClass id inner ih =>
      exact performed_enclosed weak (.openClass id) (.closeClass id) inner rfl unbroken
        (ih _ unbroken)

/-- Nothing is entered or left but by the plans inside it. -/
def Bracketed : Plan → Prop
  | steps known => known.all fun step => !step.isMark
  | append first next => first.Bracketed ∧ (next ()).Bracketed
  | insideMap _ inner => inner.Bracketed
  | insideClass _ inner => inner.Bracketed

theorem Bracketed.restores {plan : Plan} (bracketed : plan.Bracketed) :
    (plan.follow weak p).underway = p.underway := by
  induction plan generalizing p with
  | steps known =>
      rw [follow]
      induction known generalizing p with
      | nil => rfl
      | cons step rest ih =>
          rw [Bracketed, List.all_cons, Bool.and_eq_true] at bracketed
          have kept : (p.take weak step).underway = p.underway := by
            rw [Progress.underway_take]
            cases step <;> first | rfl | cases bracketed.1
          rw [Trace.follow]
          split
          · exact kept
          · exact (ih _ bracketed.2).trans kept
  | append first next first_ih next_ih =>
      have kept := first_ih p bracketed.1
      rw [follow]
      split
      · exact kept
      · exact (next_ih () _ bracketed.2).trans kept
  | insideMap id inner ih =>
      rw [follow, Progress.underway_take, ih _ bracketed]
      rfl
  | insideClass id inner ih =>
      rw [follow, Progress.underway_take, ih _ bracketed]
      rfl

theorem bracketed_each {α : Type} (plan : α → Plan) (items : List α)
    (each : ∀ item ∈ items, (plan item).Bracketed) : (Plan.each plan items).Bracketed := by
  induction items with
  | nil => rfl
  | cons item rest ih =>
      exact ⟨each item List.mem_cons_self,
        ih fun other member => each other (List.mem_cons_of_mem item member)⟩

end Plan

namespace Constant

theorem bracketed_key (link : Int) (key : ConstantKey) : (key.plan link).Bracketed := by
  cases key <;> rfl

variable (context : Option String)

mutual

theorem bracketed_plan (key : Option String) (c : Constant MapId) :
    (plan context key c).Bracketed :=
  match c with
  | .nil | .bool _ | .int _ | .slot _ | .real _ | .string _ | .closure _ _ _ | .classNamed _
  | .nativePointer | .nativeFunction _ | .bytes _ | .refused _ => rfl
  | .wrapped _ inner => ⟨rfl, bracketed_plan key inner, rfl⟩
  | .list items => ⟨rfl, bracketed_itemsPlan items, rfl⟩
  | .map _ bindings => ⟨rfl, rfl, bracketed_bindingsPlan bindings, rfl⟩

theorem bracketed_itemsPlan (items : List (Unit → Constant MapId)) :
    (itemsPlan context items).Bracketed :=
  match items with
  | [] => rfl
  | item :: items =>
    ⟨rfl, bracketed_plan (some "") (item ()), rfl, bracketed_itemsPlan items⟩

theorem bracketed_bindingsPlan (bindings : List (Binding (Unit → Constant MapId))) :
    (bindingsPlan context bindings).Bracketed :=
  match bindings with
  | [] => rfl
  | ⟨key, link, value⟩ :: bindings =>
    ⟨bracketed_key link key, bracketed_plan key.name? (value ()), rfl,
      bracketed_bindingsPlan bindings⟩

end

end Constant

namespace FunctionImage

variable (builtins : Nat) (pad : String)

theorem bracketed_upvaluesPlan (upvalues : List Upvalue) :
    (upvaluesPlan pad upvalues).Bracketed := by
  unfold upvaluesPlan
  split <;> simp [Plan.Bracketed, fieldLine, nullLine, Step.text, Step.isMark]

theorem bracketed_ownerPlan (owner : Option String) : (ownerPlan pad owner).Bracketed := by
  cases owner <;> rfl

theorem bracketed_constsPlan (consts : List (Constant MapId)) :
    (constsPlan pad consts).Bracketed := by
  refine ⟨rfl, ?_⟩
  split
  · rfl
  · refine ⟨rfl, Plan.bracketed_each _ _ fun entry _ => ?_, rfl⟩
    exact ⟨rfl, entry.1.bracketed_plan none none, rfl⟩

theorem bracketed_codeWordPlan (name : String) (i : Instruction) (pc : Nat) :
    (codeWordPlan builtins name pad i pc).Bracketed := by
  unfold codeWordPlan
  split
  · rfl
  · split <;> rfl

theorem bracketed_codePlan (name : String) (code : List Instruction) :
    (codePlan builtins name pad code).Bracketed :=
  ⟨rfl, Plan.bracketed_each _ _ fun entry _ =>
    bracketed_codeWordPlan builtins pad name entry.1 entry.2, rfl⟩

mutual

theorem bracketed_plan (column : Nat) (f : FunctionImage MapId) :
    (plan builtins column f).Bracketed :=
  match f with
  | .refused _ => rfl
  | .node name nstack argc varg upvalues owner nested consts code => by
      refine ⟨rfl, bracketed_upvaluesPlan _ upvalues, rfl, ?_, bracketed_constsPlan _ consts, rfl,
        bracketed_codePlan builtins _ name code, rfl⟩
      split
      · exact bracketed_ownerPlan _ owner
      · exact ⟨rfl, bracketed_nestedPlan (column + 4) nested, bracketed_ownerPlan _ owner, rfl⟩

theorem bracketed_nestedPlan (column : Nat) (nested : List (Unit → FunctionImage MapId)) :
    (nestedPlan builtins column nested).Bracketed :=
  match nested with
  | [] => rfl
  | f :: fs => ⟨bracketed_plan column (f ()), rfl, bracketed_nestedPlan column fs⟩

end

end FunctionImage

namespace Heap

variable (h : Heap)

theorem bracketed_functionPlan (context : Option String) (id : ClosureId) (proto : ProtoId)
    (p : Prototype) (owner : Option String) :
    (h.functionPlan context id proto p owner).Bracketed := by
  refine ⟨rfl, ?_, rfl, FunctionImage.bracketed_plan _ _ _, rfl⟩
  cases owner <;> rfl

theorem bracketed_closurePlan (hoist : ClassId → Plan) (context : Option String) (id : ClosureId)
    (hoists : ∀ cls, (hoist cls).Bracketed) : (h.closurePlan hoist context id).Bracketed := by
  have form := h.closureForm hoist context id
  generalize h.closurePlan hoist context id = plan at form ⊢
  cases form with
  | written c p owner present there owned home =>
      refine ⟨⟨?_, Plan.bracketed_each _ _ fun cls _ => hoists cls⟩,
        h.bracketed_functionPlan context id c.proto p owner⟩
      split <;> rfl
  | _ => rfl

theorem bracketed_membersPlan (members : Option MapId) (member : Value → Plan)
    (each : ∀ v, (member v).Bracketed) : (h.membersPlan members member).Bracketed := by
  unfold membersPlan
  split
  · rfl
  · split
    · rfl
    · exact ⟨rfl, Plan.bracketed_each _ _ fun v _ => each v⟩

theorem bracketed_memberTablePlan (context : Option String) (members : Option MapId)
    (terminator : String) : (h.memberTablePlan context members terminator).Bracketed := by
  cases members with
  | none => rfl
  | some id => exact ⟨Constant.bracketed_plan _ _ _, rfl⟩

theorem bracketed_classBodyPlan (c : ClassObject) (superName : Option String) :
    (h.classBodyPlan c superName).Bracketed := by
  cases superName <;> exact ⟨rfl, rfl, rfl, rfl, h.bracketed_memberTablePlan _ _ _, rfl⟩

theorem bracketed_classPlan (nesting : Nat) (opened : List ClassId) (id : ClassId) :
    (h.classPlan nesting opened id).Bracketed := by
  induction nesting generalizing opened id with
  | zero => rfl
  | succ nesting ih =>
      unfold classPlan
      split
      · rfl
      · split
        · rfl
        · refine ⟨rfl, rfl, h.bracketed_membersPlan _ _ fun v => ?_, ?_⟩
          · split
            · rfl
            · exact h.bracketed_closurePlan _ _ _ (ih _)
          · split
            · exact h.bracketed_classBodyPlan _ _
            · split
              · rfl
              · exact h.bracketed_classBodyPlan _ _

theorem bracketed_modulePlan (id : ModuleId) : (h.modulePlan id).Bracketed := by
  unfold modulePlan
  split
  · rfl
  · refine ⟨h.bracketed_membersPlan _ _ fun v => ?_, rfl, h.bracketed_memberTablePlan _ _ _, rfl⟩
    split
    · exact h.bracketed_closurePlan _ _ _ (h.bracketed_classPlan _ _)
    · exact h.bracketed_classPlan _ _ _
    · rfl

theorem bracketed_rootPlan (root : Value) (context : Option String) :
    (h.rootPlan root context).Bracketed := by
  unfold rootPlan
  split
  · exact h.bracketed_closurePlan _ _ _ (h.bracketed_classPlan _ _)
  · exact h.bracketed_classPlan _ _ _
  · exact h.bracketed_modulePlan _
  · rfl

end Heap

end StaticImage
