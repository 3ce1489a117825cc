import StaticImage.Proofs.Image.Spelling

namespace StaticImage

namespace ConstantKey

def opening (weak : Bool) (link : Int) : ConstantKey → String
  | .text name => "        \x7b " ++ Piece.keyText weak name link ++ ", "
  | .number n => "        \x7b be_const_key_int(" ++ toString n ++ ", " ++ toString link ++ "), "
  | .refused _ => ""

theorem trace_plan_text (link : Int) (name : String) : ((text name).plan link).trace =
    [.text "        \x7b ", .write (.key name link), .text ", "] := rfl

theorem opening_text (weak : Bool) (link : Int) (name : String) :
    (text name).opening weak link = "        \x7b " ++ Piece.keyText weak name link ++ ", " := rfl

theorem trace_plan_number (weak : Bool) (link n : Int) :
    ((number n).plan link).trace = [.text ((number n).opening weak link)] := rfl

theorem spelling_plan (weak : Bool) (link : Int) (key : ConstantKey)
    (complete : (key.plan link).trace.Complete) :
    Trace.spelling weak (key.plan link).trace = (key.opening weak link).toList := by
  cases key with
  | text name =>
      simp only [trace_plan_text, opening_text, Trace.spelling_cons, Trace.spelling_nil,
        Step.spelling_text, Step.spelling_key, String.toList_append, List.append_assoc,
        List.append_nil]
  | number n =>
      simp only [trace_plan_number weak, Trace.spelling_cons, Trace.spelling_nil,
        Step.spelling_text, List.append_nil]
  | refused typeName => exact (complete _ List.mem_cons_self).elim

end ConstantKey

namespace Constant

theorem trace_itemsPlan (context : Option String) (items : List (Unit → Constant MapId)) :
    (itemsPlan context items).trace = items.flatMap fun item =>
      .text "        " :: (plan context (some "") (item ())).trace ++ [.text ",\n"] := by
  induction items with
  | nil => rfl
  | cons item rest ih =>
      rw [itemsPlan, Plan.trace_andThen, Plan.trace_andThen, Plan.trace_andThen, ih,
        List.flatMap_cons]
      simp [Plan.text]

theorem trace_bindingsPlan (context : Option String)
    (bindings : List (Binding (Unit → Constant MapId))) :
    (bindingsPlan context bindings).trace = bindings.flatMap fun b =>
      (b.key.plan b.link).trace ++ (plan context b.key.name? (b.value ())).trace ++
        [.text " \x7d,\n"] := by
  induction bindings with
  | nil => rfl
  | cons b rest ih =>
      obtain ⟨key, link, value⟩ := b
      rw [bindingsPlan, Plan.trace_andThen, Plan.trace_andThen, Plan.trace_andThen, ih,
        List.flatMap_cons]
      simp [Plan.text]

theorem trace_wrapped (context key : Option String) (kind : Wrapper) (inner : Constant MapId) :
    (plan context key (.wrapped kind inner)).trace =
      .text kind.opening :: (plan context key inner).trace ++ [.text Wrapper.closing] := by
  rw [plan, Plan.trace_andThen, Plan.trace_andThen]
  simp [Plan.text]

theorem trace_list (context key : Option String) (items : List (Unit → Constant MapId)) :
    (plan context key (.list items)).trace =
      .text (listOpening items.length) :: (itemsPlan context items).trace ++
        [.text aggregateClosing] := by
  rw [plan, Plan.trace_andThen, Plan.trace_andThen]
  simp [Plan.text]

theorem trace_map (context key : Option String) (id : MapId)
    (bindings : List (Binding (Unit → Constant MapId))) :
    (plan context key (.map id bindings)).trace =
      [.compact id, .openMap id, .text (mapOpening bindings.length)] ++
        (bindingsPlan context bindings).trace ++ [.text aggregateClosing, .closeMap id] := by
  rw [plan, Plan.trace_andThen, Plan.trace_insideMap, Plan.trace_andThen, Plan.trace_andThen]
  simp [Plan.text]

def Writable (context key : Option String) (c : Constant MapId) : Prop :=
  (plan context key c).trace.Complete

theorem writable_refused (context key : Option String) (why : DumpError) :
    ¬ Writable context key (.refused why) :=
  fun complete => complete why List.mem_cons_self

theorem writable_wrapped (context key : Option String) (kind : Wrapper) (inner : Constant MapId) :
    Writable context key (.wrapped kind inner) ↔ Writable context key inner := by
  simp [Writable, trace_wrapped, Step.text]

theorem writable_list (context key : Option String) (items : List (Unit → Constant MapId)) :
    Writable context key (.list items) ↔
      ∀ item ∈ items, Writable context (some "") (item ()) := by
  simp [Writable, trace_list, trace_itemsPlan, Trace.complete_flatMap, Step.text]

theorem writable_map (context key : Option String) (id : MapId)
    (bindings : List (Binding (Unit → Constant MapId))) :
    Writable context key (.map id bindings) ↔
      ∀ b ∈ bindings, (b.key.plan b.link).trace.Complete ∧
        Writable context b.key.name? (b.value ()) := by
  simp [Writable, trace_map, trace_bindingsPlan, Trace.complete_flatMap, Step.text]

end Constant

namespace Heap

theorem nesting_of_writable (h : Heap) (nesting : Nat) (opened : List MapId) (v : Value)
    (context key : Option String) (writable : (h.unfold nesting opened v).Writable context key) :
    ∃ inner, nesting = inner + 1 := by
  cases nesting with
  | zero => exact (Constant.writable_refused context key _ writable).elim
  | succ inner => exact ⟨inner, rfl⟩

theorem unfold_map (h : Heap) (nesting : Nat) (opened : List MapId) (id : MapId) (isStatic : Bool)
    (t : Table) (context key : Option String) (present : h.table? id = some t)
    (writable : (h.unfold nesting opened ⟨.map id, isStatic⟩).Writable context key) :
    ∃ inner, nesting = inner + 1 ∧ h.unfold nesting opened ⟨.map id, isStatic⟩ =
      .map id (t.compact.entries.map fun e =>
        ⟨e.key.data.constantKey, e.link, fun _ => h.unfold inner (id :: opened) e.value⟩) := by
  obtain ⟨inner, rfl⟩ := h.nesting_of_writable nesting opened _ context key writable
  refine ⟨inner, rfl, ?_⟩
  simp only [unfold] at writable ⊢
  by_cases inside : id ∈ opened
  · rw [if_pos inside] at writable
    exact (Constant.writable_refused context key _ writable).elim
  · rw [if_neg inside, present]

/-- Where unfolding came to an end it does not depend on how far it may go. -/
theorem unfold_more (h : Heap) (nesting more : Nat) (opened fewer : List MapId) (v : Value)
    (context key : Option String) (enough : nesting ≤ more) (subset : fewer ⊆ opened)
    (writable : (h.unfold nesting opened v).Writable context key) :
    h.unfold more fewer v = h.unfold nesting opened v := by
  induction nesting generalizing more opened fewer v key with
  | zero => exact (Constant.writable_refused context key _ writable).elim
  | succ nesting ih =>
      obtain ⟨more, rfl⟩ : ∃ n, more = n + 1 := ⟨more - 1, by omega⟩
      have within : nesting ≤ more := Nat.le_of_succ_le_succ enough
      obtain ⟨data, isStatic⟩ := v
      cases data with
      | instanceObject id =>
          simp only [unfold] at writable ⊢
          cases content : (h.instance? id).map h.instanceContent with
          | none => rfl
          | some content_of =>
              cases content_of with
              | inl c => rfl
              | inr wrapped =>
                  obtain ⟨kind, inner⟩ := wrapped
                  rw [content] at writable
                  have inner_writable := (Constant.writable_wrapped _ _ _ _).mp writable
                  exact congrArg _ (ih more opened fewer inner key within subset inner_writable)
      | list id =>
          simp only [unfold] at writable ⊢
          cases found : h.list? id with
          | none => rfl
          | some items =>
              rw [found] at writable
              have each := (Constant.writable_list _ _ _).mp writable
              simp only [Constant.list.injEq]
              refine List.map_congr_left fun item member => funext fun _ => ?_
              exact ih more opened fewer item (some "") within subset
                (each _ (List.mem_map.mpr ⟨item, member, rfl⟩))
      | map id =>
          simp only [unfold] at writable ⊢
          by_cases inside : id ∈ opened
          · rw [if_pos inside] at writable
            exact (Constant.writable_refused context key _ writable).elim
          · rw [if_neg inside] at writable
            rw [if_neg inside, if_neg fun member => inside (subset member)]
            cases found : h.table? id with
            | none => rfl
            | some t =>
                rw [found] at writable
                have each := (Constant.writable_map _ _ _ _).mp writable
                simp only [Constant.map.injEq, true_and]
                refine List.map_congr_left fun e member => ?_
                have value := (each _ (List.mem_map.mpr ⟨e, member, rfl⟩)).2
                rw [Binding.mk.injEq]
                refine ⟨rfl, rfl, funext fun _ => ?_⟩
                exact ih more (id :: opened) (id :: fewer) e.value _ within
                  (List.cons_subset_cons id subset) value
      | _ => rfl

end Heap

end StaticImage
