import StaticImage.Proofs.Image.ClassNames
import StaticImage.Proofs.Image.Taken

/-!
Class symbols and the lines that introduce them. A class is introduced when it is entered, when a
function that was compiled in it begins, and where a class inherits from it; so a symbol without such
a line in front is that of a class not entered so far, which stands where no dump goes: in a function
nested in another, inside a list, a map or an instance, in the first constant of a static method, or
among the members of a class.
-/

namespace StaticImage

def Step.isQuiet : Step → Bool
  | .openClass _ => false
  | .write (.classSymbol _) => false
  | _ => true

namespace Trace

def Throughout (fits : Trace → Step → Trace → Prop) (before trace : Trace) : Prop :=
  ∀ front step rest, trace = front ++ step :: rest → fits (before ++ front) step rest

theorem Throughout.cons {fits : Trace → Step → Trace → Prop} {before rest : Trace} {step : Step}
    (here : fits before step rest) (onward : Throughout fits (before ++ [step]) rest) :
    Throughout fits before (step :: rest) := by
  intro front other behind split
  cases front with
  | nil =>
      obtain ⟨rfl, rfl⟩ := List.cons_eq_cons.mp split
      rwa [List.append_nil]
  | cons first front =>
      obtain ⟨rfl, tail⟩ := List.cons_eq_cons.mp split
      have there := onward front other behind tail
      rwa [List.append_assoc] at there

/-- What comes after the first part must not take from it what its steps need. -/
theorem Throughout.append {fits : Trace → Step → Trace → Prop} {before first second : Trace}
    (kept : ∀ front step rest, fits front step rest → fits front step (rest ++ second))
    (left : Throughout fits before first) (right : Throughout fits (before ++ first) second) :
    Throughout fits before (first ++ second) := by
  induction first generalizing before with
  | nil => rwa [List.append_nil] at right
  | cons step rest ih =>
      refine .cons ?_ (ih (fun front other behind split => ?_) ?_)
      · have here := left [] step rest rfl
        rw [List.append_nil] at here
        exact kept before step rest here
      · have there := left (step :: front) other behind (by rw [split, List.cons_append])
        rwa [List.append_assoc]
      · rwa [List.append_assoc]

def Each (fits : Trace → Step → Prop) (before trace : Trace) : Prop :=
  ∀ front step rest, trace = front ++ step :: rest → fits (before ++ front) step

variable {fits : Trace → Step → Prop} {before : Trace}

theorem Each.append {first second : Trace} (left : Each fits before first)
    (right : Each fits (before ++ first) second) : Each fits before (first ++ second) := by
  have both : Throughout (fun front step _ => fits front step) before (first ++ second) :=
    .append (fun _ _ _ here => here) left right
  exact both

theorem complete_of_taken (weak : Bool) (trace : Trace) (p : Progress) (before : Trace)
    (step : Step) (after : Trace) (taken : trace.taken weak p = before ++ step :: after) :
    before.Complete := by
  induction before generalizing trace p with
  | nil => exact complete_nil
  | cons first before ih =>
      cases trace with
      | nil => cases taken
      | cons other rest =>
          rw [Trace.taken, List.cons_append, List.cons.injEq] at taken
          obtain ⟨rfl, onward⟩ := taken
          cases failed : (p.take weak other).error with
          | some why => simp [failed] at onward
          | none =>
              rw [failed, Option.isSome_none, if_neg Bool.false_ne_true] at onward
              exact (complete_cons other before).mpr
                ⟨(p.take_complete weak other failed).1, ih rest _ onward⟩

end Trace

namespace Heap

/-- Where a dump may refer to a class that it does not go to. -/
inductive Overlooks (h : Heap) (root : Value) (before : Trace) (cls : ClassId) : Prop where
  /-- A function that is being written names the class, but is neither compiled in it nor has it among
  the constants that are written first. -/
  | function (id : ClosureId) (c : Closure) (p : Prototype) (begun : .function id ∈ before)
      (present : h.closureAt? id = some c) (there : h.proto? c.proto = some p)
      (named : h.Names c.proto cls) (foreign : p.owner ≠ some cls)
      (unhoisted : cls ∉ hoistedClasses p)
  /-- The members of a class that is being written lead to the class, from which it does not
  inherit. -/
  | classMember (id : ClassId) (c : ClassObject) (table : MapId) (begun : .openClass id ∈ before)
      (present : h.class? id = some c) (members : c.members = some table)
      (leads : h.LeadsTo (.plain (.map table)) cls) (stranger : c.super ≠ some cls)
  /-- The members of the module lead to the class, which is none of its named members. -/
  | moduleMember (id : ModuleId) (m : ModuleObject) (table : MapId)
      (dumped : root.data = .moduleObject id) (present : h.module? id = some m)
      (members : m.members = some table) (leads : h.LeadsTo (.plain (.map table)) cls)
      (inner : ∀ t, h.table? table = some t → ∀ v ∈ namedMembers t, v.data ≠ .classObject cls)

/-- A class symbol stands behind the line that introduces it, unless the class is overlooked. -/
def Introduced (h : Heap) (root : Value) (before : Trace) : Step → Prop
  | .write (.classSymbol name) =>
    before.Complete → .write (.externClass name) ∈ before ∨
      ∃ cls, h.className? cls = some name ∧ .openClass cls ∉ before ∧ h.Overlooks root before cls
  | _ => True

def Settled (h : Heap) (before : Trace) : Prop :=
  before.Complete → ∀ cls name, .openClass cls ∈ before → h.className? cls = some name →
    .write (.externClass name) ∈ before

structure Introduces (h : Heap) (root : Value) (before trace : Trace) : Prop where
  each : Trace.Each (h.Introduced root) before trace
  settled : h.Settled (before ++ trace)

variable {h : Heap} {root : Value} {before : Trace}

theorem Overlooks.mono {cls : ClassId} (overlooks : h.Overlooks root before cls) (more : Trace) :
    h.Overlooks root (before ++ more) cls := by
  cases overlooks with
  | function id c p begun present there named foreign unhoisted =>
      exact .function id c p (List.mem_append_left more begun) present there named foreign unhoisted
  | classMember id c table begun present members leads stranger =>
      exact .classMember id c table (List.mem_append_left more begun) present members leads stranger
  | moduleMember id m table dumped present members leads inner =>
      exact .moduleMember id m table dumped present members leads inner

namespace Introduces

theorem append {first second : Trace} (left : h.Introduces root before first)
    (right : h.Settled (before ++ first) → h.Introduces root (before ++ first) second) :
    h.Introduces root before (first ++ second) := by
  have onward := right left.settled
  refine ⟨left.each.append onward.each, ?_⟩
  rw [← List.append_assoc]
  exact onward.settled

theorem andThen {first second : Plan} (left : h.Introduces root before first.trace)
    (right : h.Settled (before ++ first.trace) →
      h.Introduces root (before ++ first.trace) second.trace) :
    h.Introduces root before (first >> second).trace :=
  left.append right

/-- Steps that enter no class refer to classes that were entered, and so introduced, before; any other
class has to be accounted for. -/
theorem referring {named : ClassId → Prop} {trace : Trace} (settled : h.Settled before)
    (refers : h.RefersOnly named trace)
    (account : before.Complete → ∀ cls name, h.className? cls = some name → named cls →
      .openClass cls ∉ before →
        .write (.externClass name) ∈ before ∨ h.Overlooks root before cls) :
    h.Introduces root before trace := by
  have entered (cls : ClassId) : .openClass cls ∉ trace := fun member => refers _ member
  constructor
  · intro front step rest split
    unfold Introduced
    split
    · rename_i name
      intro complete
      rw [Trace.complete_append] at complete
      obtain ⟨cls, called, allowed⟩ := refers (.write (.classSymbol name)) (by simp [split])
      have fresh : .openClass cls ∉ front := fun member => entered cls (by simp [split, member])
      by_cases begun : .openClass cls ∈ before
      · exact Or.inl (List.mem_append_left front (settled complete.1 cls name begun called))
      · rcases account complete.1 cls name called allowed begun with stated | overlooks
        · exact Or.inl (List.mem_append_left front stated)
        · exact Or.inr ⟨cls, called, by simp [begun, fresh], overlooks.mono front⟩
    · trivial
  · intro complete cls name member called
    rw [Trace.complete_append] at complete
    rcases List.mem_append.mp member with begun | later
    · exact List.mem_append_left trace (settled complete.1 cls name begun called)
    · exact (entered cls later).elim

theorem silent {trace : Trace} (settled : h.Settled before) (quiet : trace.all Step.isQuiet) :
    h.Introduces root before trace := by
  rw [List.all_eq_true] at quiet
  constructor
  · intro front step rest split
    have here : step.isQuiet := quiet step (by simp [split])
    unfold Introduced
    split
    · exact Bool.noConfusion here
    · trivial
  · intro complete cls name member called
    rw [Trace.complete_append] at complete
    rcases List.mem_append.mp member with begun | later
    · exact List.mem_append_left trace (settled complete.1 cls name begun called)
    · exact Bool.noConfusion (quiet _ later)

theorem flatMap {α : Type} (trace : α → Trace) (items : List α) (settled : h.Settled before)
    (each : ∀ item ∈ items, ∀ further, before <+: further → h.Settled further →
      h.Introduces root further (trace item)) :
    h.Introduces root before (items.flatMap trace) := by
  induction items generalizing before with
  | nil => exact silent settled rfl
  | cons item rest ih =>
      rw [List.flatMap_cons]
      refine (each item List.mem_cons_self before List.prefix_rfl settled).append fun settled => ?_
      exact ih settled fun other member further beyond =>
        each other (List.mem_cons_of_mem item member) further
          ((List.prefix_append before (trace item)).trans beyond)

end Introduces

end Heap

end StaticImage
