import StaticImage.Proofs.Image.Calls
import StaticImage.Proofs.Image.Leaving
import StaticImage.Proofs.Image.WritingDeclarations

/-!
What is being written at each moment of a dump. Classes and maps are entered and left like brackets,
never one that was entered and not left; so a dump comes to an end whatever refers to whatever, and
however it ends nothing stays entered.
-/

namespace StaticImage

namespace Underway

structure Level (u : Underway) (trace : Trace) : Prop where
  back : u.after trace = u
  during : ∀ front rest : Trace, trace = front ++ rest → (u.after front).Distinct

namespace Level

variable {u : Underway}

theorem nothing (distinct : u.Distinct) : u.Level [] := by
  refine ⟨rfl, fun front rest split => ?_⟩
  obtain ⟨rfl, _⟩ := List.append_eq_nil_iff.mp split.symm
  exact distinct

theorem step (distinct : u.Distinct) (step : Step) (same : u.take step = u) : u.Level [step] := by
  refine ⟨same, fun front rest split => ?_⟩
  have there : u.after front = u := by
    rcases List.append_eq_singleton_iff.mp split.symm with ⟨rfl, _⟩ | ⟨rfl, _⟩
    · rfl
    · exact same
  rw [there]
  exact distinct

theorem append {first second : Trace} (left : u.Level first) (right : u.Level second) :
    u.Level (first ++ second) := by
  refine ⟨by rw [after_append, left.back, right.back], fun front rest split => ?_⟩
  rcases List.append_eq_append_iff.mp split with ⟨more, rfl, tail⟩ | ⟨tail, whole, _⟩
  · rw [after_append, left.back]
    exact right.during more rest tail
  · exact left.during front tail whole

theorem between {entry exit : Step} {inner : Trace} (distinct : u.Distinct)
    (inside : (u.take entry).Level inner) (leaves : (u.take entry).take exit = u) :
    u.Level (entry :: inner ++ [exit]) := by
  have whole : u.after (entry :: inner ++ [exit]) = u := by
    rw [after_append]
    have reached : u.after (entry :: inner) = u.take entry := inside.back
    rw [reached]
    exact leaves
  refine ⟨whole, fun front rest split => ?_⟩
  rcases List.append_eq_append_iff.mp split with ⟨more, rfl, tail⟩ | ⟨tail, start, _⟩
  · rcases List.append_eq_singleton_iff.mp tail.symm with ⟨rfl, _⟩ | ⟨rfl, _⟩
    · rw [List.append_nil]
      exact inside.during inner [] (List.append_nil inner).symm
    · rw [whole]
      exact distinct
  · cases front with
    | nil => exact distinct
    | cons first others =>
        obtain ⟨rfl, others_tail⟩ := List.cons_eq_cons.mp start
        exact inside.during others tail others_tail

end Level

end Underway

namespace Heap

open Underway

/-- What is written while classes and maps are being written around it leaves these as they are. -/
theorem Writes.level {h : Heap} {root : Value} {classes : List ClassId} {maps : List MapId}
    {trace : Trace} (writes : h.Writes root classes maps trace) (u : Underway)
    (distinct : u.Distinct) (same_classes : u.classes = classes) (same_maps : u.maps = maps) :
    u.Level trace := by
  induction writes generalizing u with
  | nothing classes maps => exact .nothing distinct
  | both classes maps first second left right left_ih right_ih =>
      exact (left_ih u distinct same_classes same_maps).append
        (right_ih u distinct same_classes same_maps)
  | step classes maps step plain =>
      refine .step distinct step ?_
      cases step <;> first | rfl | cases plain
  | word classes maps id p i pc present here allowed => exact .step distinct _ rfl
  | foreign classes maps id p i pc slot present here access beyond =>
      exact ((Level.step distinct (.write (.codeWord i pc)) rfl).append
        (.step distinct (.write (.foreignGlobal slot)) rfl)).append
          (.step distinct (.stop (.global slot p.name)) rfl)
  | fault classes maps why blamed => exact .step distinct _ rfl
  | insideMap classes maps id inner fresh inside ih =>
      subst same_classes same_maps
      have entered : (u.take (.openMap id)).Distinct :=
        ⟨distinct.classes, List.nodup_cons.mpr ⟨fresh, distinct.maps⟩⟩
      exact .between distinct (ih (u.take (.openMap id)) entered rfl rfl) rfl
  | insideClass classes maps id inner fresh inside ih =>
      subst same_classes same_maps
      have entered : (u.take (.openClass id)).Distinct :=
        ⟨List.nodup_cons.mpr ⟨fresh, distinct.classes⟩, distinct.maps⟩
      exact .between distinct (ih (u.take (.openClass id)) entered rfl rfl) rfl

end Heap

namespace Call

def value : Call → Value
  | dump root _ _ => root
  | express v _ _ => v

def weak : Call → Bool
  | dump _ options _ => options.weak
  | express _ options _ => options.weak

def room : Call → Option Nat
  | dump _ _ room => room
  | express _ _ _ => none

end Call

namespace Heap

open Underway (idle)

def planOf (h : Heap) : Call → Plan
  | .dump root options _ => h.rootPlan root options.context
  | .express v options key => (h.constant v).plan options.context key

def stepsOf (h : Heap) (c : Call) : Trace :=
  (h.planOf c).taken c.weak c.room

theorem call_run (h : Heap) (c : Call) : (h.call c).1 = (h.planOf c).run c.weak c.room := by
  cases c <;> rfl

theorem call_eq_stepsOf (h : Heap) (c : Call) :
    (h.call c).1 = ((h.stepsOf c).foldl (Progress.take c.weak) (.start c.room)).outcome := by
  rw [call_run, Plan.run_eq_outcome, Trace.follow_eq_foldl_taken]
  rfl

theorem writes_planOf (h : Heap) (c : Call) : h.Writes c.value [] [] (h.planOf c).trace := by
  cases c with
  | dump root options room => exact writes_rootPlan h root options.context
  | express v options key =>
      exact writes_constant options.context key v fun sound o refers => sound.2 o refers

theorem Writes.blamed {h : Heap} {root : Value} {classes : List ClassId} {maps : List MapId}
    {trace : Trace} (writes : h.Writes root classes maps trace) (why : DumpError)
    (stops : Step.stop why ∈ trace) :
    h.Fault root why ∨ ∃ slot name, why = .global slot name := by
  induction writes with
  | nothing classes maps => cases stops
  | both classes maps first second left right left_ih right_ih =>
      rcases List.mem_append.mp stops with early | late
      · exact left_ih early
      · exact right_ih late
  | step classes maps step plain =>
      cases List.mem_singleton.mp stops
      cases plain
  | word classes maps id p i pc present here allowed =>
      cases List.mem_singleton.mp stops
  | foreign classes maps id p i pc slot present here access beyond =>
      simp only [List.mem_cons, reduceCtorEq, Step.stop.injEq, List.not_mem_nil, or_false,
        false_or] at stops
      exact Or.inr ⟨slot, p.name, stops⟩
  | fault classes maps reason blamed =>
      cases List.mem_singleton.mp stops
      exact Or.inl blamed
  | insideMap classes maps id inner fresh inside ih =>
      simp only [List.cons_append, List.mem_cons, List.mem_append, reduceCtorEq, List.not_mem_nil,
        or_false, false_or] at stops
      exact ih stops
  | insideClass classes maps id inner fresh inside ih =>
      simp only [List.cons_append, List.mem_cons, List.mem_append, reduceCtorEq, List.not_mem_nil,
        or_false, false_or] at stops
      exact ih stops

/-- An error of a call is a fault of the heap, a global that is no builtin, or a full sink. -/
theorem call_blamed (h : Heap) (c : Call) (why : DumpError)
    (failed : (h.call c).1.error = some why) :
    h.Fault c.value why ∨ (∃ slot name, why = .global slot name) ∨ why = .sink "full" := by
  by_cases full : why = .sink "full"
  · exact Or.inr (Or.inr full)
  · rw [call_run] at failed
    have stops := (h.planOf c).stop_mem_trace c.weak c.room why failed full
    rcases (writes_planOf h c).blamed why stops with blamed | global
    · exact Or.inl blamed
    · exact Or.inr (Or.inl global)

def finished (h : Heap) (c : Call) : Progress :=
  (h.planOf c).follow c.weak (.start c.room)

/-- The steps of a call, with those that leave classes and maps on the way out of an error. -/
def performedBy (h : Heap) (c : Call) : Trace :=
  (h.planOf c).performed c.weak (.start c.room)

theorem bracketed_planOf (h : Heap) (c : Call) : (h.planOf c).Bracketed := by
  cases c with
  | dump root options room => exact h.bracketed_rootPlan root options.context
  | express v options key => exact Constant.bracketed_plan options.context key (h.constant v)

theorem performedBy_distinct (h : Heap) (c : Call) (moment : Trace)
    (so_far : moment <+: h.performedBy c) : (idle.after moment).Distinct := by
  have level : idle.Level (h.planOf c).trace :=
    (writes_planOf h c).level idle ⟨List.nodup_nil, List.nodup_nil⟩ rfl rfl
  obtain ⟨out, whole, leaving, _⟩ := (h.planOf c).performed_eq_taken c.weak (.start c.room) rfl
  obtain ⟨rest, trace⟩ := Trace.taken_prefix c.weak (h.planOf c).trace (.start c.room)
  obtain ⟨later, split⟩ := so_far
  rw [performedBy, whole] at split
  rcases List.append_eq_append_iff.mp split with ⟨more, taken, _⟩ | ⟨more, rfl, left⟩
  · refine level.during moment (more ++ rest) ?_
    rw [← trace, taken, List.append_assoc]
  -- Behind the step that failed things are only left.
  · rw [Underway.after_append]
    refine (level.during _ rest trace.symm).leave ?_
    rw [left, List.all_append, Bool.and_eq_true] at leaving
    exact leaving.1

/-- If no prototype is nested in itself, and lists and instances hold what is older than they are, a
call comes to its end: it is not cut short, and what it looks for is there. It is the steps that it
performs; at no moment of them is a class or a map being written twice, and at its end, with an error or
without, nothing is being written any more. Each class in it, whatever is being written when it is gone
into, leaves just that behind, also where it fails. -/
theorem calls_end_and_leave (h : Heap) (age : ObjectId → Nat) (c : Call)
    (proper : h.NestsProperly) (older : h.HoldsOlder age) :
    (h.call c).1 = (h.finished c).outcome ∧
      h.finished c = (h.performedBy c).foldl (Progress.take c.weak) (.start c.room) ∧
      (h.call c).1.error ≠ some .endless ∧
      (h.Sound c.value → (h.call c).1.error ≠ some .dangling) ∧
      (∀ moment, moment <+: h.performedBy c →
        (moment.foldl (Progress.take c.weak) (.start c.room)).underway.Distinct) ∧
      (h.finished c).underway = idle ∧
      ∀ nesting opened id weak p,
        ((h.classPlan nesting opened id).follow weak p).underway = p.underway := by
  refine ⟨call_run h c, (h.planOf c).follow_eq_foldl_performed c.weak (.start c.room), ?_, ?_, ?_,
    (h.bracketed_planOf c).restores c.weak (.start c.room), ?_⟩
  · intro failed
    rcases call_blamed h c .endless failed with blamed | ⟨slot, name, other⟩ | other
    · cases blamed with
      | endlessValue o cycle => exact not_transGen_self age older o cycle
      | endlessProto id cycle => exact proper id cycle
    · cases other
    · cases other
  · intro sound failed
    rcases call_blamed h c .dangling failed with blamed | ⟨slot, name, other⟩ | other
    · cases blamed with
      | dangling missing => exact missing sound
    · cases other
    · cases other
  · intro moment so_far
    rw [Progress.underway_foldl]
    exact h.performedBy_distinct c moment so_far
  · intro nesting opened id weak p
    exact (h.bracketed_classPlan nesting opened id).restores weak p

/-- Two classes each of which is a constant of a method of the other, the first also of its own; a
nested function; and a list in the members of the second that holds these members. -/
def entangled : Heap where
  protos := #[
    ⟨"f", "", 1, 0, 0, [], [⟨1⟩], some ⟨0⟩,
      [.plain (.classObject ⟨0⟩), .plain (.classObject ⟨1⟩)], []⟩,
    ⟨"f_0", "", 1, 0, 0, [], [], none, [], []⟩,
    ⟨"g", "", 1, 0, 0, [], [], some ⟨1⟩, [.plain (.classObject ⟨0⟩)], []⟩]
  closures := #[⟨⟨0⟩, []⟩, ⟨⟨2⟩, []⟩]
  classes := #[⟨"A", 0, none, some ⟨0⟩⟩, ⟨"B", 0, none, some ⟨1⟩⟩]
  modules := #[]
  instances := #[]
  maps := #[Table.afterAll [.insert (.plain (.string "f")) (.plain (.closure ⟨0⟩))],
    Table.afterAll [.insert (.plain (.string "g")) (.plain (.closure ⟨1⟩)),
      .insert (.plain (.string "all")) (.plain (.list ⟨0⟩))]]
  lists := #[[.plain (.map ⟨1⟩)]]
  builtins := defaultBuiltins

def listsLast : ObjectId → Nat
  | .list _ => 1
  | _ => 0

theorem entangled_nestsProperly : entangled.NestsProperly := by
  refine not_transGen_self (fun id => 1 - id.index) ?_
  rintro ⟨outer⟩ inner ⟨p, present, inside⟩
  rcases outer with _ | _ | _ | outer
  · cases present
    cases List.mem_singleton.mp inside
    decide
  · cases present
    cases inside
  · cases present
    cases inside
  · cases present

theorem entangled_holdsOlder : entangled.HoldsOlder listsLast := by
  rintro holder part ⟨fixed, v, held, refers⟩
  cases holder with
  | list id =>
      rcases id with ⟨_ | index⟩
      · cases List.mem_singleton.mp held
        cases refers
        decide
      · cases held
  | instanceObject id => cases held
  | _ => cases fixed

/-- A dump that fails while both classes are being written, and leaves them both. -/
theorem entangled_call_leaves :
    let c := Call.dump (.plain (.classObject ⟨0⟩)) ⟨false, none⟩ none
    entangled.NestsProperly ∧ entangled.HoldsOlder listsLast ∧
      (entangled.call c).1.error = some .cyclicMap ∧
      (idle.after (entangled.stepsOf c)).classes = [⟨1⟩, ⟨0⟩] ∧
      entangled.performedBy c =
        entangled.stepsOf c ++ [.closeMap ⟨1⟩, .closeClass ⟨1⟩, .closeClass ⟨0⟩] ∧
      (entangled.call c).1.error ≠ some .endless ∧
      (∀ moment, moment <+: entangled.performedBy c →
        (moment.foldl (Progress.take c.weak) (.start c.room)).underway.Distinct) ∧
      (entangled.finished c).underway = idle := by
  intro c
  obtain ⟨-, -, ends, -, distinct, left, -⟩ :=
    calls_end_and_leave entangled listsLast c entangled_nestsProperly entangled_holdsOlder
  exact ⟨entangled_nestsProperly, entangled_holdsOlder, by decide +kernel, by decide +kernel,
    by decide +kernel, ends, distinct, left⟩

end Heap

end StaticImage
