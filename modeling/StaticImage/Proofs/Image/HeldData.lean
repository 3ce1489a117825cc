import Mathlib.Data.List.Forall2
import StaticImage.Proofs.Image.PlainData

namespace StaticImage

def DataKey.datum : DataKey → Datum
  | text name => .string name
  | number n => .int n

inductive HoldsEntry (holds : Data → Value → Prop) : DataEntry Data → Entry → Prop where
  | intro (key : DataKey) (data : Data) (e : Entry) (same : e.key.data = key.datum)
      (value : holds data e.value) : HoldsEntry holds ⟨key, e.next, data⟩ e

namespace Heap

/-- The data that a value is, whether or not it is flagged as static. Maps are taken entry by entry
as they lie after compaction, which leaves no slot free between them, and instances by what they
wrap. -/
inductive Holds (h : Heap) : Data → Value → Prop where
  | nil (isStatic : Bool) : Holds h .nil ⟨.nil, isStatic⟩
  | bool (b isStatic : Bool) : Holds h (.bool b) ⟨.bool b, isStatic⟩
  | int (n : Int) (isStatic : Bool) : Holds h (.int n) ⟨.int n, isStatic⟩
  | slot (n : Int) (isStatic : Bool) : Holds h (.slot n) ⟨.slot n, isStatic⟩
  | real (r : HostReal) (isStatic : Bool) : Holds h (.real r) ⟨.real r, isStatic⟩
  | string (content : String) (isStatic : Bool) :
      Holds h (.string content) ⟨.string content, isStatic⟩
  | bytes (data : List UInt8) (id : InstanceId) (i : InstanceObject) (isStatic : Bool)
      (present : h.instance? id = some i) (content : h.instanceContent i = .inl (.bytes data)) :
      Holds h (.bytes data) ⟨.instanceObject id, isStatic⟩
  | wrapped (kind : Wrapper) (inner : Data) (id : InstanceId) (i : InstanceObject) (v : Value)
      (isStatic : Bool) (present : h.instance? id = some i)
      (content : h.instanceContent i = .inr (kind, v)) (held : Holds h inner v) :
      Holds h (.wrapped kind inner) ⟨.instanceObject id, isStatic⟩
  | list (items : List Data) (id : ListId) (values : List Value) (isStatic : Bool)
      (present : h.list? id = some values) (held : List.Forall₂ (Holds h) items values) :
      Holds h (.list items) ⟨.list id, isStatic⟩
  | map (entries : List (DataEntry Data)) (id : MapId) (t : Table) (isStatic : Bool)
      (present : h.table? id = some t)
      (held : List.Forall₂ (HoldsEntry (Holds h)) entries t.compact.entries) :
      Holds h (.map entries) ⟨.map id, isStatic⟩

theorem flatMap_eq_of_forall₂ {α β γ : Type} {related : α → β → Prop} {xs : List α} {ys : List β}
    (f : α → List γ) (g : β → List γ) (each : List.Forall₂ related xs ys)
    (equal : ∀ x ∈ xs, ∀ y ∈ ys, related x y → f x = g y) : xs.flatMap f = ys.flatMap g := by
  induction each with
  | nil => rfl
  | cons head tail ih =>
      rw [List.flatMap_cons, List.flatMap_cons,
        equal _ List.mem_cons_self _ List.mem_cons_self head]
      rw [ih fun x here y there => equal x (List.mem_cons_of_mem _ here) y
        (List.mem_cons_of_mem _ there)]

theorem spelling_alone (weak : Bool) (s : String) : Trace.spelling weak [.text s] = s.toList :=
  List.append_nil s.toList

theorem toList_append_append (first second third : String) :
    (first ++ second ++ third).toList = first.toList ++ (second.toList ++ third.toList) := by
  rw [String.toList_append, String.toList_append, List.append_assoc]

section

variable (h : Heap) (weak : Bool) (context key : Option String) (nesting : Nat)
  (opened : List MapId)

theorem spelling_unfold_list (items : List Data) (id : ListId) (values : List Value)
    (isStatic : Bool) (present : h.list? id = some values)
    (held : List.Forall₂ h.Holds items values)
    (spelled : ∀ item ∈ items, ∀ v, h.Holds item v → ∀ key,
      (h.unfold nesting opened v).Writable context key →
      Trace.spelling weak ((h.unfold nesting opened v).plan context key).trace = item.text weak)
    (writable : (h.unfold (nesting + 1) opened ⟨.list id, isStatic⟩).Writable context key) :
    Trace.spelling weak
      ((h.unfold (nesting + 1) opened ⟨.list id, isStatic⟩).plan context key).trace =
      (Data.list items).text weak := by
  have unfolded : h.unfold (nesting + 1) opened ⟨.list id, isStatic⟩ =
      .list (values.map fun v _ => h.unfold nesting opened v) := by
    simp only [unfold, present]
  rw [unfolded, Constant.writable_list] at writable
  have parts : Trace.spelling weak (Constant.itemsPlan context
      (values.map fun v _ => h.unfold nesting opened v)).trace = Data.bodyItems weak items := by
    rw [Constant.trace_itemsPlan, Trace.spelling_flatMap, List.flatMap_map, Data.bodyItems_eq]
    refine (flatMap_eq_of_forall₂ _ _ held fun item member v there held => ?_).symm
    rw [Trace.spelling_append, Trace.spelling_cons, Step.spelling_text,
      spelled item member v held _ (writable _ (List.mem_map.mpr ⟨v, there, rfl⟩))]
    exact congrArg _ (spelling_alone weak ",\n").symm
  have opening : (listOpening items.length).toList = Opening.list.text.toList ++
      ((toString items.length).toList ++ Data.listBridge.toList) := toList_append_append _ _ _
  rw [unfolded, Constant.trace_list, Trace.spelling_append, Trace.spelling_cons,
    Step.spelling_text, parts, List.length_map, ← held.length_eq, List.append_assoc, opening,
    spelling_alone weak aggregateClosing, List.append_assoc]
  rfl

theorem spelling_unfold_map (entries : List (DataEntry Data)) (id : MapId) (t : Table)
    (isStatic : Bool) (present : h.table? id = some t)
    (held : List.Forall₂ (HoldsEntry h.Holds) entries t.compact.entries)
    (spelled : ∀ e ∈ entries, ∀ v, h.Holds e.value v → ∀ key,
      (h.unfold nesting (id :: opened) v).Writable context key →
      Trace.spelling weak ((h.unfold nesting (id :: opened) v).plan context key).trace =
        e.value.text weak)
    (writable : (h.unfold (nesting + 1) opened ⟨.map id, isStatic⟩).Writable context key) :
    Trace.spelling weak
      ((h.unfold (nesting + 1) opened ⟨.map id, isStatic⟩).plan context key).trace =
      (Data.map entries).text weak := by
  obtain ⟨inner, equal, unfolded⟩ :=
    h.unfold_map _ opened id isStatic t context key present writable
  obtain rfl : nesting = inner := Nat.succ.inj equal
  rw [unfolded, Constant.writable_map] at writable
  have parts : Trace.spelling weak (Constant.bindingsPlan context
      (t.compact.entries.map fun e => ⟨e.key.data.constantKey, e.link,
        fun _ => h.unfold nesting (id :: opened) e.value⟩)).trace =
      Data.bodyEntries weak entries := by
    rw [Constant.trace_bindingsPlan, Trace.spelling_flatMap, List.flatMap_map,
      Data.bodyEntries_eq]
    refine (flatMap_eq_of_forall₂ _ _ held fun x member e there held => ?_).symm
    obtain ⟨complete, value⟩ := writable _ (List.mem_map.mpr ⟨e, there, rfl⟩)
    cases held with
    | intro word data _ same held =>
        have keys : e.key.data.constantKey = word.constantKey := by
          rw [same]
          cases word <;> rfl
        have link : e.link = printedLink e.next := by
          simp [Entry.link, Entry.isLast, printedLink]
        rw [Trace.spelling_append, Trace.spelling_append, spelling_alone,
          ConstantKey.spelling_plan weak _ _ complete, spelled _ member e.value held _ value, keys,
          link]
        rfl
  have opening : (mapOpening entries.length).toList = Opening.map.text.toList ++
      ((toString entries.length).toList ++ Data.mapBridge.toList) := toList_append_append _ _ _
  rw [unfolded, Constant.trace_map]
  simp only [Trace.spelling_append, Trace.spelling_cons, Trace.spelling_nil, Step.spelling_text,
    Step.spelling_compact, Step.spelling_openMap, Step.spelling_closeMap, List.nil_append,
    List.append_nil, List.length_map]
  rw [parts, ← held.length_eq, opening, List.append_assoc, List.append_assoc]
  rfl

end

/-- Values with plain data are written as the text of their data. -/
theorem Holds.spelling (h : Heap) (weak : Bool) (context : Option String) (d : Data) (v : Value)
    (held : h.Holds d v) (nesting : Nat) (opened : List MapId) (key : Option String)
    (writable : (h.unfold nesting opened v).Writable context key) :
    Trace.spelling weak ((h.unfold nesting opened v).plan context key).trace = d.text weak := by
  have spelled (digits : List Char) : (String.ofList digits).toList = digits :=
    String.toList_ofList
  obtain ⟨inner, rfl⟩ := h.nesting_of_writable _ _ _ _ _ writable
  induction d generalizing v inner opened key with
  | nil =>
      cases held
      rfl
  | bool b =>
      cases held
      exact (spelling_alone weak ("be_const_bool(" ++ (if b then "1" else "0") ++ ")")).trans
        (toList_append_append _ _ _)
  | int n =>
      cases held
      exact (spelling_alone weak ("be_const_int(" ++ toString n ++ ")")).trans
        (toList_append_append _ _ _)
  | slot n =>
      cases held
      exact (spelling_alone weak ("be_const_var(" ++ toString n ++ ")")).trans
        (toList_append_append _ _ _)
  | real r =>
      cases held
      refine (spelling_alone weak r.constantText).trans ?_
      have digits : r.constantText =
          "be_const_real_hex(0x" ++ String.ofList (Data.realDigits r) ++ ")" := by
        cases r <;> rfl
      rw [digits, toList_append_append, spelled (Data.realDigits r)]
      rfl
  | string content =>
      cases held
      have form : Piece.stringText weak content =
          (Opening.string (Data.form weak content)).text ++ Identifier.ofText content ++ ")" := by
        simp only [Piece.stringText, Data.form]
        split
        · rfl
        · cases weak <;> rfl
      refine (List.append_nil (Piece.stringText weak content).toList).trans ?_
      rw [form, toList_append_append]
      rfl
  | bytes data =>
      cases held with
      | bytes _ id i isStatic present content =>
          have unfolded : h.unfold (inner + 1) opened ⟨.instanceObject id, isStatic⟩ =
              .bytes data := by
            simp only [unfold, present, Option.map_some, content]
          have digits : (bytesText data).toList = (Data.bytes data).text weak := by
            refine (toList_append_append _ _ _).trans ?_
            rw [spelled (data.flatMap Hex.ofByte)]
            rfl
          rw [unfolded]
          exact (spelling_alone weak (bytesText data)).trans digits
  | wrapped kind d ih =>
      cases held with
      | wrapped _ _ id i v isStatic present content held =>
          have unfolded : h.unfold (inner + 1) opened ⟨.instanceObject id, isStatic⟩ =
              .wrapped kind (h.unfold inner opened v) := by
            simp only [unfold, present, Option.map_some, content]
          rw [unfolded, Constant.writable_wrapped] at writable
          obtain ⟨deeper, rfl⟩ := h.nesting_of_writable _ _ _ _ _ writable
          rw [unfolded, Constant.trace_wrapped, Trace.spelling_append, Trace.spelling_cons,
            Step.spelling_text, ih v held opened key deeper writable, List.append_assoc]
          exact congrArg _ (congrArg _ (spelling_alone weak Wrapper.closing))
  | list items ih =>
      cases held with
      | list _ id values isStatic present held =>
          refine spelling_unfold_list h weak context key inner opened items id values isStatic
            present held (fun item member v held key writable => ?_) writable
          obtain ⟨deeper, rfl⟩ := h.nesting_of_writable _ _ _ _ _ writable
          exact ih item member v held opened key deeper writable
  | map entries ih =>
      cases held with
      | map _ id t isStatic present held =>
          refine spelling_unfold_map h weak context key inner opened entries id t isStatic present
            held (fun e member v held key writable => ?_) writable
          obtain ⟨deeper, rfl⟩ := h.nesting_of_writable _ _ _ _ _ writable
          exact ih e member v held (id :: opened) key deeper writable

end Heap

end StaticImage
