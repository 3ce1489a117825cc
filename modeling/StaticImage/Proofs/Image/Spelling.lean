import StaticImage.Image.Dump

namespace StaticImage

def Step.spelling (weak : Bool) : Step → List Char
  | .write piece => (piece.render weak).toList
  | _ => []

def Step.isStop : Step → Bool
  | .stop _ => true
  | _ => false

@[simp]
theorem Step.spelling_text (weak : Bool) (s : String) : (Step.text s).spelling weak = s.toList := rfl

@[simp]
theorem Step.spelling_compact (weak : Bool) (id : MapId) : (Step.compact id).spelling weak = [] :=
  rfl

@[simp]
theorem Step.spelling_openMap (weak : Bool) (id : MapId) : (Step.openMap id).spelling weak = [] :=
  rfl

@[simp]
theorem Step.spelling_closeMap (weak : Bool) (id : MapId) : (Step.closeMap id).spelling weak = [] :=
  rfl

@[simp]
theorem Step.spelling_key (weak : Bool) (name : String) (link : Int) :
    (Step.write (.key name link)).spelling weak = (Piece.keyText weak name link).toList := rfl

namespace Trace

def spelling (weak : Bool) (trace : Trace) : List Char :=
  trace.flatMap (Step.spelling weak)

def Complete (trace : Trace) : Prop :=
  ∀ why, Step.stop why ∉ trace

@[simp]
theorem spelling_nil (weak : Bool) : spelling weak [] = [] := rfl

@[simp]
theorem spelling_cons (weak : Bool) (step : Step) (rest : Trace) :
    spelling weak (step :: rest) = step.spelling weak ++ spelling weak rest := rfl

@[simp]
theorem spelling_append (weak : Bool) (first second : Trace) :
    spelling weak (first ++ second) = spelling weak first ++ spelling weak second :=
  List.flatMap_append

theorem spelling_flatMap {α : Type} (weak : Bool) (trace : α → Trace) (items : List α) :
    spelling weak (items.flatMap trace) = items.flatMap fun item => spelling weak (trace item) := by
  induction items with
  | nil => rfl
  | cons item rest ih => rw [List.flatMap_cons, spelling_append, ih, List.flatMap_cons]

@[simp]
theorem complete_nil : Complete [] := by
  intro why member
  cases member

@[simp]
theorem complete_cons (step : Step) (rest : Trace) :
    Complete (step :: rest) ↔ (∀ why, step ≠ .stop why) ∧ Complete rest := by
  simp only [Complete, List.mem_cons, not_or, forall_and, ne_comm]

@[simp]
theorem complete_append (first second : Trace) :
    Complete (first ++ second) ↔ Complete first ∧ Complete second := by
  simp only [Complete, List.mem_append, not_or, forall_and]

theorem complete_flatMap {α : Type} (trace : α → Trace) (items : List α) :
    Complete (items.flatMap trace) ↔ ∀ item ∈ items, Complete (trace item) := by
  induction items with
  | nil => simp
  | cons item rest ih => simp [ih]

instance decidableComplete (trace : Trace) : Decidable trace.Complete :=
  decidable_of_iff (∀ step ∈ trace, step.isStop = false) <| by
    constructor
    · intro onward why member
      exact Bool.noConfusion (onward _ member)
    · intro complete step member
      cases step with
      | stop why => exact (complete why member).elim
      | _ => rfl

end Trace

theorem Progress.send_complete (p : Progress) (bytes : ByteArray)
    (unbroken : (p.send bytes).error = none) : (p.send bytes).written = p.written ++ bytes := by
  unfold send at *
  split at unbroken
  · rfl
  · split at unbroken
    · rename_i fits
      simp only [if_pos fits]
    · cases unbroken

theorem Progress.take_complete (weak : Bool) (p : Progress) (step : Step)
    (unbroken : (p.take weak step).error = none) :
    (∀ why, step ≠ .stop why) ∧
      (p.take weak step).written =
        p.written ++ (String.ofList (step.spelling weak)).toUTF8 := by
  cases step with
  | write piece =>
      refine ⟨fun why => Step.noConfusion, ?_⟩
      have sent := send_complete p (piece.render weak).toUTF8 unbroken
      simpa [take, Step.spelling] using sent
  | stop why => cases unbroken
  | compact id => exact ⟨fun why => Step.noConfusion, by simp [take, Step.spelling]⟩
  | openMap id => exact ⟨fun why => Step.noConfusion, by simp [take, Step.spelling]⟩
  | closeMap id => exact ⟨fun why => Step.noConfusion, by simp [take, Step.spelling]⟩
  | openClass id => exact ⟨fun why => Step.noConfusion, by simp [take, Step.spelling]⟩
  | closeClass id => exact ⟨fun why => Step.noConfusion, by simp [take, Step.spelling]⟩
  | function id => exact ⟨fun why => Step.noConfusion, by simp [take, Step.spelling]⟩

theorem Trace.follow_complete (weak : Bool) (trace : Trace) (p : Progress)
    (unbroken : (trace.follow weak p).error = none) :
    trace.Complete ∧
      (trace.follow weak p).written =
        p.written ++ (String.ofList (trace.spelling weak)).toUTF8 := by
  induction trace generalizing p with
  | nil => exact ⟨complete_nil, by simp [Trace.follow]⟩
  | cons step rest ih =>
      by_cases failed : (p.take weak step).error.isSome
      · simp only [Trace.follow, failed, if_true] at unbroken
        rw [unbroken] at failed
        cases failed
      · have onward : Trace.follow weak (step :: rest) p = Trace.follow weak rest (p.take weak step) := by
          simp only [Trace.follow, failed]
          rfl
        rw [onward] at unbroken ⊢
        obtain ⟨head, written⟩ := p.take_complete weak step (by simpa using failed)
        obtain ⟨tail, text⟩ := ih (p.take weak step) unbroken
        refine ⟨(complete_cons step rest).mpr ⟨head, tail⟩, ?_⟩
        rw [text, written, spelling_cons, String.ofList_append]
        simp [ByteArray.append_assoc]

theorem Plan.run_complete (weak : Bool) (room : Option Nat) (plan : Plan)
    (unbroken : (plan.run weak room).error = none) :
    plan.trace.Complete ∧
      (plan.run weak room).bytes =
        (String.ofList (plan.trace.spelling weak)).toUTF8.data.toList := by
  rw [run_eq_outcome] at unbroken ⊢
  obtain ⟨complete, written⟩ := Trace.follow_complete weak plan.trace _ unbroken
  refine ⟨complete, ?_⟩
  rw [DumpOutcome.bytes, Progress.outcome, written]
  simp [Progress.start]

/-- Without an end of the sink a dump fails only where a step stops it. -/
theorem Trace.follow_unbounded (weak : Bool) (trace : Trace) (p : Progress)
    (endless : p.room = none) (unbroken : p.error = none) (complete : trace.Complete) :
    (trace.follow weak p).error = none := by
  induction trace generalizing p with
  | nil => exact unbroken
  | cons step rest ih =>
      obtain ⟨head, tail⟩ := (complete_cons step rest).mp complete
      obtain ⟨room, written, compacted, error, underway⟩ := p
      subst endless unbroken
      cases step with
      | stop why => exact (head why rfl).elim
      | write piece => exact ih _ rfl rfl tail
      | compact id => exact ih _ rfl rfl tail
      | openMap id => exact ih _ rfl rfl tail
      | closeMap id => exact ih _ rfl rfl tail
      | openClass id => exact ih _ rfl rfl tail
      | closeClass id => exact ih _ rfl rfl tail
      | function id => exact ih _ rfl rfl tail

theorem Plan.run_unbounded (weak : Bool) (plan : Plan) (complete : plan.trace.Complete) :
    (plan.run weak none).error = none := by
  rw [run_eq_outcome]
  exact Trace.follow_unbounded weak plan.trace _ rfl rfl complete

namespace Heap

variable {h : Heap} {v : Value} {options : DumpOptions} {key : Option String}

theorem express_write {piece : Piece}
    (single : ((h.constant v).plan options.context key).trace = [.write piece]) :
    (h.express v options key).1.error = none ∧
      (h.express v options key).1.bytes = (piece.render options.weak).toUTF8.data.toList := by
  have success : (h.express v options key).1.error = none := by
    refine Plan.run_unbounded options.weak _ ?_
    simp [single]
  have bytes := (Plan.run_complete options.weak none _ success).2
  rw [single, Trace.spelling_cons, Trace.spelling_nil, List.append_nil, Step.spelling,
    String.ofList_toList] at bytes
  exact ⟨success, bytes⟩

theorem express_text {text : String}
    (single : (h.constant v).plan options.context key = .text text) :
    (h.express v options key).1.error = none ∧
      (h.express v options key).1.bytes = text.toUTF8.data.toList :=
  express_write (congrArg Plan.trace single)

end Heap

end StaticImage
