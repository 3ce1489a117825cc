import StaticImage.Proofs.Image.Taken

namespace StaticImage

/-- The two spellings of a part of the text, without weak references and with them. -/
inductive Respelled : String → String → Prop where
  | same (s : String) : Respelled s s
  | string : Respelled "be_nested_str(" "be_nested_str_weak("
  | key : Respelled "be_const_key(" "be_const_key_weak("
  | functionName (id : String) : Respelled ("&be_const_str_" ++ id) ("be_str_weak(" ++ id ++ ")")
  | className (id : String) :
    Respelled ("(bstring*) &be_const_str_" ++ id) ("be_str_weak(" ++ id ++ ")")

def Piece.parts : Piece → List (String × String)
  | .string content =>
    if longString ≤ content.utf8ByteSize then
      [(stringText false content, stringText false content)]
    else
      [("be_nested_str(", "be_nested_str_weak("),
        (Identifier.ofText content ++ ")", Identifier.ofText content ++ ")")]
  | .key name link =>
    [("be_const_key(", "be_const_key_weak("),
      (Identifier.ofText name ++ ", " ++ toString link ++ ")",
        Identifier.ofText name ++ ", " ++ toString link ++ ")")]
  | .functionName content => [(nameText false content, nameText true content)]
  | .className content => [("(bstring*) " ++ nameText false content, nameText true content)]
  | piece => [(piece.render false, piece.render false)]

def Step.parts : Step → List (String × String)
  | .write piece => piece.parts
  | _ => []

namespace Piece

theorem parts_respelled (piece : Piece) :
    ∀ part ∈ piece.parts, Respelled part.1 part.2 := by
  cases piece with
  | string content =>
      rw [parts]
      split
      · simpa using Respelled.same _
      · simpa using ⟨Respelled.string, Respelled.same _⟩
  | key name link => simpa [parts] using ⟨Respelled.key, Respelled.same _⟩
  | functionName content => simpa [parts, nameText] using Respelled.functionName _
  | className content =>
      have spelled := Respelled.className (Identifier.ofText content)
      have apart : "(bstring*) &be_const_str_" = "(bstring*) " ++ "&be_const_str_" := rfl
      rw [apart, String.append_assoc] at spelled
      rw [parts, List.forall_mem_singleton, nameText, nameText, if_pos rfl, if_neg Bool.false_ne_true]
      exact spelled
  | _ => simpa [parts] using Respelled.same _

theorem join_one (a : String) : String.join [a] = a := by
  rw [← String.toList_inj]
  simp

theorem join_two (a b : String) : String.join [a, b] = a ++ b := by
  rw [← String.toList_inj]
  simp

theorem parts_long (content : String) (long : longString ≤ content.utf8ByteSize) :
    (string content).parts = [(stringText false content, stringText false content)] := by
  simp only [parts, if_pos long]

theorem parts_short (content : String) (short : ¬ longString ≤ content.utf8ByteSize) :
    (string content).parts = [("be_nested_str(", "be_nested_str_weak("),
      (Identifier.ofText content ++ ")", Identifier.ofText content ++ ")")] := by
  simp only [parts, if_neg short]

/-- From 255 bytes on there is one spelling of a string. -/
theorem stringText_long (weak : Bool) (content : String)
    (long : longString ≤ content.utf8ByteSize) :
    stringText weak content = "be_nested_str_long(" ++ Identifier.ofText content ++ ")" := by
  simp only [stringText, if_pos long]

theorem stringText_short (weak : Bool) (content : String)
    (short : ¬ longString ≤ content.utf8ByteSize) :
    stringText weak content =
      (if weak then "be_nested_str_weak(" else "be_nested_str(") ++
        (Identifier.ofText content ++ ")") := by
  simp only [stringText, if_neg short]
  cases weak
  · exact String.append_assoc
  · exact String.append_assoc

theorem join_parts (piece : Piece) :
    String.join (piece.parts.map Prod.fst) = piece.render false ∧
      String.join (piece.parts.map Prod.snd) = piece.render true := by
  cases piece with
  | string content =>
      change _ = stringText false content ∧ _ = stringText true content
      by_cases long : longString ≤ content.utf8ByteSize
      · have same := stringText_long true content long
        rw [← stringText_long false content long] at same
        simp only [parts_long content long, List.map_cons, List.map_nil, join_one, same, and_self]
      · simp only [parts_short content long, List.map_cons, List.map_nil, join_two,
          stringText_short _ content long, Bool.false_eq_true, if_true, if_false, and_self]
  | key name link =>
      change _ = keyText false name link ∧ _ = keyText true name link
      simp only [parts, keyText, List.map_cons, List.map_nil, join_two, Bool.false_eq_true,
        if_true, if_false, String.append_assoc, and_self]
  | functionName content =>
      change _ = nameText false content ∧ _ = nameText true content
      simp only [parts, List.map_cons, List.map_nil, join_one, and_self]
  | className content =>
      change _ = "(bstring*) " ++ nameText false content ∧ _ = "" ++ nameText true content
      simp only [parts, List.map_cons, List.map_nil, join_one, String.empty_append, and_self]
  | _ =>
      simp only [parts, List.map_cons, List.map_nil, join_one]
      exact ⟨trivial, rfl⟩

end Piece

theorem Step.parts_respelled (step : Step) : ∀ part ∈ step.parts, Respelled part.1 part.2 := by
  cases step with
  | write piece => exact piece.parts_respelled
  | _ =>
      intro part member
      cases member

theorem Step.join_parts (step : Step) :
    String.join (step.parts.map Prod.fst) = String.ofList (step.spelling false) ∧
      String.join (step.parts.map Prod.snd) = String.ofList (step.spelling true) := by
  cases step with
  | write piece =>
      have joined := piece.join_parts
      simpa only [parts, spelling, String.ofList_toList] using joined
  | _ => exact ⟨rfl, rfl⟩

theorem Trace.join_parts (trace : Trace) :
    String.join ((trace.flatMap Step.parts).map Prod.fst) = String.ofList (trace.spelling false) ∧
      String.join ((trace.flatMap Step.parts).map Prod.snd) =
        String.ofList (trace.spelling true) := by
  induction trace with
  | nil => exact ⟨rfl, rfl⟩
  | cons step rest ih =>
      obtain ⟨strong, weak⟩ := step.join_parts
      simp only [List.flatMap_cons, List.map_append, String.join_append, strong, weak, ih,
        spelling_cons, String.ofList_append, and_self]

namespace Progress

/-- Two dumps into sinks without an end that have come equally far, whatever they have written. -/
structure Abreast (p q : Progress) : Prop where
  left : p.room = none
  right : q.room = none
  compacted : p.compacted = q.compacted
  error : p.error = q.error

theorem Abreast.take {p q : Progress} (abreast : p.Abreast q) (weak strong : Bool) (step : Step) :
    (p.take weak step).Abreast (q.take strong step) := by
  obtain ⟨room, written, compacted, error⟩ := p
  obtain ⟨_, _, _, _⟩ := q
  obtain ⟨left, right, same, failed⟩ := abreast
  cases left
  cases right
  cases same
  cases failed
  cases step with
  | _ => exact ⟨rfl, rfl, rfl, rfl⟩

end Progress

namespace Trace

theorem taken_abreast (weak strong : Bool) (trace : Trace) (p q : Progress)
    (abreast : p.Abreast q) :
    trace.taken weak p = trace.taken strong q ∧
      (trace.follow weak p).Abreast (trace.follow strong q) := by
  induction trace generalizing p q with
  | nil => exact ⟨rfl, abreast⟩
  | cons step rest ih =>
      have first := abreast.take weak strong step
      obtain ⟨taken, last⟩ := ih _ _ first
      simp only [Trace.taken, follow, first.error, taken]
      refine ⟨trivial, ?_⟩
      split
      · exact first
      · exact last

theorem written_foldl (weak : Bool) (trace : Trace) (p : Progress) (endless : p.room = none) :
    (trace.foldl (Progress.take weak) p).written =
      p.written ++ (String.ofList (trace.spelling weak)).toUTF8 := by
  induction trace generalizing p with
  | nil => simp
  | cons step rest ih =>
      obtain ⟨room, written, compacted, error⟩ := p
      cases endless
      rw [List.foldl_cons, ih _ (by cases step <;> rfl), spelling_cons, String.ofList_append]
      cases step with
      | write piece => simp [Progress.take, Progress.send, Step.spelling, ByteArray.append_assoc]
      | _ => simp [Progress.take, Step.spelling]

end Trace

theorem Plan.bytes_unbounded (weak : Bool) (plan : Plan) :
    (plan.run weak none).bytes =
      (String.ofList ((plan.taken weak none).spelling weak)).toUTF8.data.toList := by
  rw [run_eq_outcome, Trace.follow_eq_foldl_taken]
  simp only [Progress.outcome, DumpOutcome.bytes, taken]
  rw [Trace.written_foldl weak _ _ rfl]
  simp [Progress.start]

/-- A dump with weak references takes the steps of a dump without them, ends as it does and leaves the
same heap. Both texts can be cut up step by step into parts that are the same or two spellings of one
name, and the parts of a long string are the same. -/
theorem Heap.weak_dump_is_respelled (h : Heap) (root : Value) (context : Option String) :
    let strong := h.dump root ⟨false, context⟩ none
    let weak := h.dump root ⟨true, context⟩ none
    let steps := (h.rootPlan root context).taken false none
    weak.1.error = strong.1.error ∧ weak.2 = strong.2 ∧
      (h.rootPlan root context).taken true none = steps ∧
      ∃ parts : Step → List (String × String),
        (∀ step, ∀ part ∈ parts step, Respelled part.1 part.2) ∧
        strong.1.bytes =
          (String.join ((steps.flatMap parts).map Prod.fst)).toUTF8.data.toList ∧
        weak.1.bytes = (String.join ((steps.flatMap parts).map Prod.snd)).toUTF8.data.toList ∧
        ∀ content : String, 255 ≤ content.utf8ByteSize →
          ∀ part ∈ parts (.write (.string content)), part.1 = part.2 := by
  intro strong weak steps
  let plan := h.rootPlan root context
  have start : (Progress.start none).Abreast (.start none) := ⟨rfl, rfl, rfl, rfl⟩
  obtain ⟨taken, last⟩ := Trace.taken_abreast true false plan.trace _ _ start
  have strong_run : strong.1 = _ := plan.run_eq_outcome false none
  have weak_run : weak.1 = _ := plan.run_eq_outcome true none
  have error : weak.1.error = strong.1.error := by
    rw [strong_run, weak_run]
    exact last.error
  have compacted : weak.1.compacted = strong.1.compacted := by
    rw [strong_run, weak_run]
    exact congrArg List.reverse last.compacted
  have heap : weak.2 = strong.2 := congrArg h.compactAll compacted
  obtain ⟨strong_text, weak_text⟩ := steps.join_parts
  refine ⟨error, heap, taken, Step.parts, Step.parts_respelled, ?_, ?_, ?_⟩
  · rw [strong_text]
    exact plan.bytes_unbounded false
  · have written : weak.1.bytes = _ := plan.bytes_unbounded true
    have same : plan.taken true none = steps := taken
    rw [written, weak_text, same]
  · intro content long part member
    have whole : Step.parts (.write (.string content)) = _ := Piece.parts_long content long
    rw [whole, List.mem_singleton] at member
    rw [member]

end StaticImage
