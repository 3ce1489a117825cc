import StaticImage.Proofs.Image.Definitions
import StaticImage.Proofs.Image.Introducing
import StaticImage.Proofs.Image.Underway

/-!
Where the steps of a dump stand. The innermost class that is being written decides which functions a
dump comes across and under which name; with no class around it the root does. A function begins only
where it is come across and belongs, and where a class is entered its whole plan follows.
-/

namespace StaticImage

open Underway (idle)

/-- Steps that enter and leave no class, begin no function, and neither define nor borrow one. -/
def Step.isInert : Step → Bool
  | .openClass _ => false
  | .closeClass _ => false
  | .function _ => false
  | .write (.localClosure _) => false
  | .write (.externClosure _) => false
  | _ => true

def Step.crosses : Step → Bool
  | .openClass _ => true
  | .closeClass _ => true
  | _ => false

def Step.function? : Step → Option ClosureId
  | .function id => some id
  | _ => none

namespace Trace

/-- The classes that are being written behind the steps, innermost first. -/
def opened (trace : Trace) : List ClassId :=
  (idle.after trace).classes

def announced? (trace : Trace) : Option ClosureId :=
  (trace.filterMap Step.function?).getLast?

theorem opened_step (front : Trace) (step : Step) (inside : step.crosses = false) :
    (front ++ [step]).opened = front.opened := by
  rw [opened, Underway.after_append]
  cases step with
  | openClass id => cases inside
  | closeClass id => cases inside
  | _ => rfl

theorem opened_openClass (front : Trace) (id : ClassId) :
    (front ++ [Step.openClass id]).opened = id :: front.opened := by
  rw [opened, Underway.after_append]
  rfl

theorem opened_closeClass (front : Trace) (id : ClassId) :
    (front ++ [Step.closeClass id]).opened = front.opened.tail := by
  rw [opened, Underway.after_append]
  rfl

theorem announced?_append (front more : Trace) (none : more.filterMap Step.function? = []) :
    (front ++ more).announced? = front.announced? := by
  rw [announced?, List.filterMap_append, none, List.append_nil, announced?]

theorem announced?_inert (front inert : Trace) (quiet : inert.all Step.isInert) :
    (front ++ inert).announced? = front.announced? := by
  refine announced?_append front inert (List.filterMap_eq_nil_iff.mpr fun step member => ?_)
  have here := List.all_eq_true.mp quiet step member
  cases step with
  | function id => cases here
  | _ => rfl

theorem announced?_function (front : Trace) (id : ClosureId) :
    (front ++ [Step.function id]).announced? = some id := by
  simp [announced?, List.filterMap_append, Step.function?]

/-- Behind what stands before, every step is as it should be, and as many classes are left as are
entered. -/
structure Framed (fits : Trace → Step → Trace → Prop) (before trace : Trace) : Prop where
  back : (before ++ trace).opened = before.opened
  each : Throughout fits before trace

/-- What comes later takes nothing from a step, and nothing is asked of the steps that enter no class
and begin no function. -/
class Lasting (fits : Trace → Step → Trace → Prop) : Prop where
  later : ∀ front step rest more, fits front step rest → fits front step (rest ++ more)
  inert : ∀ front step rest, step.isInert → fits front step rest
  leaving : ∀ front id rest, fits front (.closeClass id) rest

namespace Framed

variable {fits : Trace → Step → Trace → Prop} {before : Trace}

theorem nothing : Framed fits before [] :=
  ⟨by rw [List.append_nil], fun front step rest split => by simp at split⟩

theorem cons {step : Step} {rest : Trace} (inside : step.crosses = false)
    (here : fits before step rest) (onward : Framed fits (before ++ [step]) rest) :
    Framed fits before (step :: rest) := by
  refine ⟨?_, .cons here onward.each⟩
  rw [← before.opened_step step inside, ← onward.back, List.append_assoc, List.singleton_append]

variable [Lasting fits]

theorem append {first second : Trace} (left : Framed fits before first)
    (right : Framed fits (before ++ first) second) : Framed fits before (first ++ second) := by
  refine ⟨?_, left.each.append (fun _ _ _ here => Lasting.later _ _ _ second here) right.each⟩
  rw [← List.append_assoc, right.back, left.back]

theorem inert {trace : Trace} (quiet : trace.all Step.isInert) : Framed fits before trace := by
  induction trace generalizing before with
  | nil => exact nothing
  | cons first rest ih =>
      rw [List.all_cons, Bool.and_eq_true] at quiet
      refine cons ?_ (Lasting.inert _ _ _ quiet.1) (ih quiet.2)
      cases first <;> first | rfl | exact Bool.noConfusion quiet.1

theorem flatMap {α : Type} (trace : α → Trace) (items : List α)
    (each : ∀ item ∈ items, ∀ further : Trace, further.opened = before.opened →
      Framed fits further (trace item)) : Framed fits before (items.flatMap trace) := by
  induction items generalizing before with
  | nil => exact nothing
  | cons item rest ih =>
      rw [List.flatMap_cons]
      have here := each item List.mem_cons_self before rfl
      refine here.append (ih fun other member further same => ?_)
      exact each other (List.mem_cons_of_mem item member) further (same.trans here.back)

theorem enclosed {inner : Trace} {id : ClassId}
    (entered : fits before (.openClass id) (inner ++ [.closeClass id]))
    (inside : Framed fits (before ++ [.openClass id]) inner) :
    Framed fits before (.openClass id :: inner ++ [.closeClass id]) := by
  have left : (before ++ (Step.openClass id :: inner ++ [Step.closeClass id])).opened =
      before.opened := by
    have split : before ++ (Step.openClass id :: inner ++ [Step.closeClass id]) =
        before ++ [.openClass id] ++ inner ++ [.closeClass id] := by simp
    rw [split, opened_closeClass, inside.back, before.opened_openClass, List.tail_cons]
  have behind : Framed fits (before ++ [.openClass id] ++ inner ++ [.closeClass id]) [] := nothing
  exact ⟨left, .cons entered (inside.each.append (fun _ _ _ here => Lasting.later _ _ _ _ here)
    (.cons (Lasting.leaving _ id []) behind.each))⟩

end Framed

end Trace

namespace Heap

section

variable (h : Heap)

def prototypeOf? (h : Heap) (id : ClosureId) : Option Prototype :=
  (h.closureAt? id).bind fun c => h.proto? c.proto

def memberClosures (members : Option MapId) : List ClosureId :=
  match members.bind h.table? with
  | none => []
  | some t => (namedMembers t).filterMap Value.closure?

def methods (cls : ClassId) : List ClosureId :=
  h.memberClosures ((h.class? cls).bind ClassObject.members)

variable (root : Value) (context : Option String)

def metIn : List ClassId → List ClosureId
  | [] =>
    match root.data with
    | .closure id => [id]
    | .moduleObject id => h.memberClosures ((h.module? id).bind ModuleObject.members)
    | _ => []
  | cls :: _ => h.methods cls

def contextIn : List ClassId → Option String
  | [] =>
    match root.data with
    | .closure _ => context
    | _ => none
  | cls :: _ => (h.className? cls).map classContext

structure Belongs (opened : List ClassId) (id : ClosureId) (p : Prototype) : Prop where
  met : id ∈ h.metIn root opened
  present : h.prototypeOf? id = some p
  written : h.isWritten (h.contextIn root context opened) p = true

/-- A class is entered with its whole plan, and none that is being written; a function begins, and is
defined, where it belongs. -/
def Accounted (front : Trace) (step : Step) (rest : Trace) : Prop :=
  match step with
  | .openClass id => id ∉ front.opened ∧ ∃ nesting behind,
      .openClass id :: rest = (h.classPlan (nesting + 1) front.opened id).trace ++ behind
  | .function id => ∃ p, h.Belongs root context front.opened id p
  | .write (.localClosure symbol) => ∃ id p, front.announced? = some id ∧
      h.Belongs root context front.opened id p ∧
      symbol = functionSymbol (h.contextIn root context front.opened) p.name
  | _ => True

structure Accounts (before trace : Trace) : Prop where
  back : (before ++ trace).opened = before.opened
  each : Trace.Throughout (h.Accounted root context) before trace

end

variable {h : Heap} {root : Value} {context : Option String} {before : Trace}

instance lasting_accounted : Trace.Lasting (h.Accounted root context) where
  later front step rest more accounted := by
    unfold Accounted at accounted ⊢
    split
    · obtain ⟨fresh, nesting, behind, whole⟩ := accounted
      exact ⟨fresh, nesting, behind ++ more, by rw [← List.cons_append, whole, List.append_assoc]⟩
    · exact accounted
    · exact accounted
    · trivial
  inert front step rest quiet := by
    unfold Accounted
    split <;> trivial
  leaving front id rest := trivial

namespace Accounts

theorem framed {trace : Trace} (accounts : h.Accounts root context before trace) :
    Trace.Framed (h.Accounted root context) before trace :=
  ⟨accounts.back, accounts.each⟩

theorem of_framed {trace : Trace} (framed : Trace.Framed (h.Accounted root context) before trace) :
    h.Accounts root context before trace :=
  ⟨framed.back, framed.each⟩

theorem append {first second : Trace} (left : h.Accounts root context before first)
    (right : h.Accounts root context (before ++ first) second) :
    h.Accounts root context before (first ++ second) :=
  of_framed (left.framed.append right.framed)

theorem nothing : h.Accounts root context before [] :=
  of_framed .nothing

theorem step (step : Step) (inside : step.crosses = false)
    (accounted : ∀ rest, h.Accounted root context before step rest) :
    h.Accounts root context before [step] :=
  of_framed (.cons inside (accounted []) .nothing)

theorem inert {trace : Trace} (quiet : trace.all Step.isInert) :
    h.Accounts root context before trace :=
  of_framed (.inert quiet)

theorem flatMap {α : Type} (trace : α → Trace) (items : List α)
    (each : ∀ item ∈ items, ∀ further : Trace, further.opened = before.opened →
      h.Accounts root context further (trace item)) :
    h.Accounts root context before (items.flatMap trace) :=
  of_framed (.flatMap trace items fun item member further same =>
    (each item member further same).framed)

theorem enclosed {inner : Trace} {id : ClassId} (nesting : Nat) (fresh : id ∉ before.opened)
    (whole : (h.classPlan (nesting + 1) before.opened id).trace =
      .openClass id :: inner ++ [.closeClass id])
    (inside : h.Accounts root context (before ++ [.openClass id]) inner) :
    h.Accounts root context before (.openClass id :: inner ++ [.closeClass id]) :=
  of_framed (.enclosed ⟨fresh, nesting, [], by rw [whole]; simp⟩ inside.framed)

end Accounts

end Heap

end StaticImage
