import StaticImage.Proofs.Image.MemberWalks

/-!
The two places where the symbol of a closure is put together. Its function is defined under the name in
force where it is met, and a value that refers to it goes by the class that it was compiled in; where a
function is written at all, these come to the same.
-/

namespace StaticImage

namespace Heap

variable {h : Heap}

theorem accounted_stepsOf (h : Heap) (root : Value) (options : DumpOptions) (room : Option Nat)
    (front : Trace) (step : Step) (rest : Trace)
    (split : h.stepsOf (.dump root options room) = front ++ step :: rest) :
    ∃ more, h.Accounted root options.context front step (rest ++ more) := by
  obtain ⟨more, whole⟩ := Trace.taken_prefix options.weak
    (h.rootPlan root options.context).trace (.start room)
  have taken : (h.rootPlan root options.context).trace.taken options.weak (.start room) =
      front ++ step :: rest := split
  refine ⟨more, ?_⟩
  have accounts : h.Accounts root options.context [] (h.rootPlan root options.context).trace :=
    accounts_rootPlan
  have here := accounts.each front step (rest ++ more) (by rw [← whole, taken]; simp)
  simpa using here

/-- A function that is written is defined under the symbol that its references have. -/
theorem plan_closureConstant (context key : Option String) (isStatic : Bool) (id : ClosureId)
    (p : Prototype) (present : h.prototypeOf? id = some p)
    (written : h.isWritten context p = true) :
    ((h.closureConstant isStatic id).plan context key).trace =
      [.write (.closureReference isStatic (functionSymbol context p.name))] := by
  have found : ((h.closureAt? id).bind fun c => h.proto? c.proto) = some p := present
  unfold closureConstant
  rw [found]
  unfold isWritten at written
  cases owned : p.owner with
  | none =>
      simp only [owned]
      cases context <;> rfl
  | some owner =>
      rw [owned] at written
      simp only [Option.any_eq_true, decide_eq_true_eq] at written
      obtain ⟨name, called, rfl⟩ := written
      simp only [owned, called]
      rfl

theorem express_closure (weak : Bool) (context key : Option String) (isStatic : Bool)
    (id : ClosureId) (p : Prototype) (present : h.prototypeOf? id = some p)
    (written : h.isWritten context p = true) :
    let outcome := (h.express ⟨.closure id, isStatic⟩ ⟨weak, context⟩ key).1
    outcome.error = none ∧ outcome.bytes = ((Piece.closureReference isStatic
      (functionSymbol context p.name)).render weak).toUTF8.data.toList := by
  refine express_write ?_
  rw [← plan_closureConstant context key isStatic id p present written]
  have positive : 0 < h.nesting := Nat.mul_pos (Nat.succ_pos _) (Nat.succ_pos _)
  obtain ⟨inner, deep⟩ := Nat.exists_eq_succ_of_ne_zero positive.ne'
  rw [constant, deep]
  rfl

theorem stepsOf_dump (h : Heap) (root : Value) (options : DumpOptions) (room : Option Nat)
    (success : (h.dump root options room).1.error = none) :
    h.stepsOf (.dump root options room) = (h.rootPlan root options.context).trace :=
  Plan.taken_of_complete options.weak room _ success

theorem bytes_dump (h : Heap) (root : Value) (options : DumpOptions) (room : Option Nat)
    (success : (h.dump root options room).1.error = none) :
    (h.dump root options room).1.bytes = (String.ofList
      ((h.stepsOf (.dump root options room)).spelling options.weak)).toUTF8.data.toList := by
  rw [stepsOf_dump h root options room success]
  exact (Plan.run_complete options.weak room _ success).2

/-- Where a dump that comes to its end enters a class, it walks over the members of that class and
prints their table before it leaves the class again. -/
theorem walks_entered (h : Heap) (root : Value) (options : DumpOptions) (room : Option Nat)
    (success : (h.dump root options room).1.error = none) (front : Trace) (cls : ClassId)
    (rest : Trace) (split : h.stepsOf (.dump root options room) = front ++ .openClass cls :: rest) :
    ∃ c nesting written behind, h.class? cls = some c ∧
      rest = written ++ .closeClass cls :: behind ∧
      h.Walks (fun p => h.isWritten (some (classContext c.name)) p) (some (classContext c.name))
        (h.classPlan nesting (cls :: front.opened)) (fun _ => []) c.members written := by
  rw [stepsOf_dump h root options room success] at split
  have complete := (Plan.run_complete options.weak room _ success).1
  have accounts : h.Accounts root options.context [] (h.rootPlan root options.context).trace :=
    accounts_rootPlan
  obtain ⟨fresh, nesting, behind, whole⟩ := accounts.each front (.openClass cls) rest split
  rw [List.nil_append] at fresh whole
  rw [split, whole, Trace.complete_append, Trace.complete_append] at complete
  cases present : h.class? cls with
  | none =>
      simp only [classPlan, if_neg fresh, present] at whole
      cases whole
  | some c =>
      obtain ⟨written, trace, walks⟩ :=
        walks_classPlan nesting front.opened cls c fresh present complete.2.1
      refine ⟨c, nesting, written, behind, rfl, ?_, walks⟩
      rw [trace] at whole
      simpa using whole

theorem walks_dumped (h : Heap) (root : Value) (options : DumpOptions) (room : Option Nat)
    (success : (h.dump root options room).1.error = none) (id : ModuleId) (m : ModuleObject)
    (data : root.data = .moduleObject id) (present : h.module? id = some m) :
    h.Walks (fun p => h.isWritten none p) none h.outermostClass
      (fun cls => (h.outermostClass cls).trace) m.members
      (h.stepsOf (.dump root options room)) := by
  have complete := (Plan.run_complete options.weak room _ success).1
  rw [stepsOf_dump h root options room success]
  simp only [rootPlan, data] at complete ⊢
  exact walks_modulePlan id m present complete

/-- A dump defines each function under the symbol that a reference to the closure announced before it
has under the same name in force, or under none. In a dump that comes to its end the walk over the
members of a class or module writes the closures under string keys, in full or as borrowed ones, that
stand in the table printed after it, one for one and in the same order. -/
theorem closures_agree (h : Heap) (root : Value) (options : DumpOptions) (room : Option Nat) :
    let steps := h.stepsOf (.dump root options room)
    (∀ (front : Trace) symbol rest, steps = front ++ .write (.localClosure symbol) :: rest →
      ∃ id, front.announced? = some id ∧ ∀ isStatic weak key,
        let context := h.contextIn root options.context front.opened
        let outcome := (h.express ⟨.closure id, isStatic⟩ ⟨weak, context⟩ key).1
        outcome.error = none ∧ outcome.bytes =
          ((Piece.closureReference isStatic symbol).render weak).toUTF8.data.toList) ∧
    ((h.dump root options room).1.error = none →
      (h.dump root options room).1.bytes =
          (String.ofList (steps.spelling options.weak)).toUTF8.data.toList ∧
      (∀ (front : Trace) cls rest, steps = front ++ .openClass cls :: rest →
        ∃ c nesting written behind, h.class? cls = some c ∧
          rest = written ++ .closeClass cls :: behind ∧
          h.Walks (fun p => h.isWritten (some (classContext c.name)) p)
            (some (classContext c.name)) (h.classPlan nesting (cls :: front.opened)) (fun _ => [])
            c.members written) ∧
      ∀ id m, root.data = .moduleObject id → h.module? id = some m →
        h.Walks (fun p => h.isWritten none p) none h.outermostClass
          (fun cls => (h.outermostClass cls).trace) m.members steps) := by
  intro steps
  refine ⟨fun front symbol rest split => ?_, fun success => ⟨?_, ?_, ?_⟩⟩
  · obtain ⟨more, id, p, announced, belongs, rfl⟩ :=
      accounted_stepsOf h root options room front _ rest split
    exact ⟨id, announced, fun isStatic weak key =>
      express_closure weak _ key isStatic id p belongs.present belongs.written⟩
  · exact bytes_dump h root options room success
  · exact walks_entered h root options room success
  · exact walks_dumped h root options room success

/-- A class with a method of its own, a class that inherits from it, has the method too and another one
that needs the first class, and a module of both classes, the method and a function. A key was taken
out of the table of the first class. -/
def lending : Heap where
  protos := #[⟨"f", "", 1, 0, 0, [], [], some ⟨0⟩, [], []⟩,
    ⟨"g", "", 1, 0, 0, [], [], some ⟨1⟩, [.plain .nil, .plain (.classObject ⟨0⟩)], []⟩,
    ⟨"free", "", 1, 0, 0, [], [], none, [], []⟩]
  closures := #[⟨⟨0⟩, []⟩, ⟨⟨1⟩, []⟩, ⟨⟨2⟩, []⟩]
  classes := #[⟨"A", 0, none, some ⟨0⟩⟩, ⟨"B", 0, some ⟨0⟩, some ⟨1⟩⟩]
  modules := #[⟨some "m", some ⟨2⟩⟩]
  instances := #[]
  maps := #[Table.afterAll [.remove (.plain (.string "x")),
      .insert (.plain (.string "x")) (.plain (.int 1)),
      .insert (.plain (.string "f")) (.plain (.closure ⟨0⟩))],
    Table.afterAll [.insert (.plain (.string "g")) (.plain (.closure ⟨1⟩)),
      .insert (.plain (.string "f")) (.plain (.closure ⟨0⟩))],
    Table.afterAll [.insert (.plain (.string "f")) (.plain (.closure ⟨0⟩)),
      .insert (.plain (.string "free")) (.plain (.closure ⟨2⟩)),
      .insert (.plain (.string "B")) (.plain (.classObject ⟨1⟩)),
      .insert (.plain (.string "A")) (.plain (.classObject ⟨0⟩))]]
  lists := #[]
  builtins := defaultBuiltins

theorem lending_closures_agree :
    let root := Value.plain (.moduleObject ⟨0⟩)
    let steps := lending.stepsOf (.dump root ⟨false, none⟩ none)
    (lending.dump root ⟨false, none⟩ none).1.error = none ∧
      ((lending.table? ⟨0⟩).any fun t => t.slots.contains none) = true ∧
      .write (.localClosure "class_A_f") ∈ steps ∧ .write (.externClosure "class_A_f") ∈ steps ∧
      lending.Walks (fun p => lending.isWritten none p) none lending.outermostClass
        (fun cls => (lending.outermostClass cls).trace) (some ⟨2⟩) steps := by
  intro root steps
  have success : (lending.dump root ⟨false, none⟩ none).1.error = none := by decide +kernel
  obtain ⟨-, -, module⟩ := (closures_agree lending root ⟨false, none⟩ none).2 success
  exact ⟨success, by decide +kernel, by decide +kernel, by decide +kernel, module ⟨0⟩ _ rfl rfl⟩

end Heap

end StaticImage
