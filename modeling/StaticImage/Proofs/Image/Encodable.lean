import StaticImage.Proofs.Heap.Parts
import StaticImage.Proofs.Image.Underway

/-!
Which values have constants. Unfolding finds out part by part, and stops at the first part that has no
constant form; so a value is written to its end exactly if each value that it reaches has such a form
and no map among them reaches itself. A map is written once for each route to it.
-/

namespace StaticImage

open Relation (ReflTransGen TransGen)

/-- The only keys that a printed map may have. -/
def Datum.IsName : Datum → Prop
  | .string _ => True
  | .int _ => True
  | _ => False

def InstanceObject.HasContent (i : InstanceObject) : Prop :=
  match i.ofClass, i.data with
  | .bytes, .bytes _ => True
  | .map, .members (_ :: _) => True
  | .list, .members (_ :: _) => True
  | _, _ => False

/-- An instance that has a constant form if its content has one: no part of an inheritance chain. -/
structure InstanceObject.IsEncodable (i : InstanceObject) : Prop where
  super : i.super = none
  sub : i.sub = none
  content : i.HasContent

namespace Heap

def Fits (h : Heap) (v : Value) : Prop :=
  match v.data with
  | .nativeClosure _ => False
  | .moduleObject _ => False
  | .map id => ∀ t, h.table? id = some t → ∀ e ∈ t.entries, e.key.data.IsName
  | .instanceObject id => ∀ i, h.instance? id = some i → i.IsEncodable
  | _ => True

structure Encodable (h : Heap) (v : Value) : Prop where
  fits : ∀ w, h.Reaches v w → h.Fits w
  /-- No map that is reached is met again on a way out of it. -/
  acyclic : ∀ w id, h.Reaches v w → w.data = .map id →
    ∀ u, TransGen h.HasPart w u → u.data ≠ .map id

inductive InstanceForm (i : InstanceObject) : Constant MapId ⊕ (Wrapper × Value) → Prop where
  | bytes (data : List UInt8) (fits : i.IsEncodable) (alone : i.content? = none) :
      InstanceForm i (.inl (.bytes data))
  | wrapped (kind : Wrapper) (inner : Value) (fits : i.IsEncodable)
      (holds : i.content? = some inner) : InstanceForm i (.inr (kind, inner))
  | refused (why : DumpError) (unfit : ¬ i.IsEncodable) : InstanceForm i (.inl (.refused why))

theorem instanceForm (h : Heap) (i : InstanceObject) : InstanceForm i (h.instanceContent i) := by
  obtain ⟨ofClass, data, super, sub⟩ := i
  unfold instanceContent
  split
  · rename_i linked
    refine .refused _ fun fits => ?_
    have no_super : super = none := fits.super
    have no_sub : sub = none := fits.sub
    simp [no_super, no_sub] at linked
  · rename_i alone
    obtain ⟨rfl, rfl⟩ : super = none ∧ sub = none := by simpa using alone
    cases ofClass with
    | bytes =>
        cases data with
        | bytes data => exact .bytes data ⟨rfl, rfl, trivial⟩ rfl
        | members values => exact .refused _ fun fits => fits.content
    | user id =>
        simp only
        split
        · exact .refused _ fun fits => fits.content
        · exact .refused _ fun fits => fits.content
    | map =>
        match data with
        | .bytes data => exact .refused _ fun fits => fits.content
        | .members [] => exact .refused _ fun fits => fits.content
        | .members (inner :: rest) => exact .wrapped .map inner ⟨rfl, rfl, trivial⟩ rfl
    | list =>
        match data with
        | .bytes data => exact .refused _ fun fits => fits.content
        | .members [] => exact .refused _ fun fits => fits.content
        | .members (inner :: rest) => exact .wrapped .list inner ⟨rfl, rfl, trivial⟩ rfl

/-- A value is written with its parts, each with the key that it stands under, while the maps `inside`
are being written. -/
structure InParts (h : Heap) (context : Option String) (nesting : Nat) (opened : List MapId)
    (v : Value) (trace : Trace) (inside : List MapId) (written : List (Option String × Value)) :
    Prop where
  parts : (written.map Prod.snd).Perm (h.parts v)
  each : ∀ part ∈ written, (h.unfold nesting inside part.2).Writable context part.1
  fits : h.Fits v
  more : opened ⊆ inside
  fresh : ∀ id, v.data = .map id → id ∉ opened ∧ id ∈ inside
  count : ∀ id, trace.count (.openMap id) = (if v.data = .map id then 1 else 0) +
    (written.map fun part =>
      ((h.unfold nesting inside part.2).plan context part.1).trace.count (.openMap id)).sum

section

variable {h : Heap} (context key : Option String) (nesting : Nat) (opened : List MapId)

theorem inParts_leaf (v : Value) (trace : Trace) (none : h.parts v = []) (fits : h.Fits v)
    (other : ∀ id, v.data ≠ .map id) (silent : ∀ id, .openMap id ∉ trace) :
    h.InParts context nesting opened v trace opened [] := by
  refine ⟨by simp [none], by simp, fits, List.Subset.refl _, fun id same => (other id same).elim,
    fun id => ?_⟩
  rw [List.count_eq_zero.mpr (silent id), if_neg (other id)]
  rfl

theorem inParts_instance (id : InstanceId) (isStatic : Bool)
    (writable : (h.unfold (nesting + 1) opened ⟨.instanceObject id, isStatic⟩).Writable
      context key) :
    ∃ inside written, h.InParts context nesting opened ⟨.instanceObject id, isStatic⟩
      ((h.unfold (nesting + 1) opened ⟨.instanceObject id, isStatic⟩).plan context key).trace
      inside written := by
  simp only [unfold] at writable ⊢
  cases present : h.instance? id with
  | none =>
      rw [present] at writable
      exact (Constant.writable_refused context key _ writable).elim
  | some i =>
      simp only [present, Option.map_some] at writable ⊢
      have form := h.instanceForm i
      generalize h.instanceContent i = content at form writable ⊢
      have found (fits : i.IsEncodable) : h.Fits ⟨.instanceObject id, isStatic⟩ := by
        intro j there
        cases present.symm.trans there
        exact fits
      cases form with
      | refused why unfit => exact (Constant.writable_refused context key _ writable).elim
      | bytes data fits alone =>
          refine ⟨opened, [], inParts_leaf context nesting opened _ _ ?_ (found fits)
            (fun _ => Datum.noConfusion) ?_⟩
          · simp [parts, present, alone]
          · simp [Constant.plan, Plan.text, Step.text]
      | wrapped kind inner fits holds =>
          refine ⟨opened, [(key, inner)], ⟨?_, ?_, found fits, List.Subset.refl _,
            fun _ => Datum.noConfusion, ?_⟩⟩
          · simp [parts, present, holds]
          · simpa using (Constant.writable_wrapped context key kind _).mp writable
          · intro other
            simp [Constant.trace_wrapped, Step.text]

theorem inParts_list (id : ListId) (isStatic : Bool)
    (writable : (h.unfold (nesting + 1) opened ⟨.list id, isStatic⟩).Writable context key) :
    ∃ inside written, h.InParts context nesting opened ⟨.list id, isStatic⟩
      ((h.unfold (nesting + 1) opened ⟨.list id, isStatic⟩).plan context key).trace
      inside written := by
  simp only [unfold] at writable ⊢
  cases present : h.list? id with
  | none =>
      rw [present] at writable
      exact (Constant.writable_refused context key _ writable).elim
  | some items =>
      rw [present, Constant.writable_list] at writable
      refine ⟨opened, items.map (some "", ·),
        ⟨?_, ?_, trivial, List.Subset.refl _, fun _ => Datum.noConfusion, fun other => ?_⟩⟩
      · simp [parts, present, Function.comp_def]
      · intro part member
        obtain ⟨item, inside, rfl⟩ := List.mem_map.mp member
        exact writable _ (List.mem_map.mpr ⟨item, inside, rfl⟩)
      · simp [Constant.trace_list, Constant.trace_itemsPlan, Step.text, List.count_flatMap,
          List.flatMap_map, Function.comp_def]

theorem count_constantKey (key : Datum) (link : Int) (id : MapId) :
    (key.constantKey.plan link).trace.count (.openMap id) = 0 := by
  apply List.count_eq_zero.mpr
  cases key <;> simp [Datum.constantKey, ConstantKey.plan, Plan.text, Plan.stop, Step.text]

theorem isName_of_complete (key : Datum) (link : Int)
    (complete : (key.constantKey.plan link).trace.Complete) : key.IsName := by
  cases key with
  | string text => trivial
  | int n => trivial
  | _ => exact (complete _ List.mem_cons_self).elim

theorem inParts_map (made : h.Made) (id : MapId) (isStatic : Bool)
    (writable : (h.unfold (nesting + 1) opened ⟨.map id, isStatic⟩).Writable context key) :
    ∃ inside written, h.InParts context nesting opened ⟨.map id, isStatic⟩
      ((h.unfold (nesting + 1) opened ⟨.map id, isStatic⟩).plan context key).trace
      inside written := by
  simp only [unfold] at writable ⊢
  by_cases fresh : id ∉ opened
  · rw [if_neg fresh] at writable ⊢
    cases present : h.table? id with
    | none =>
        rw [present] at writable
        exact (Constant.writable_refused context key _ writable).elim
    | some t =>
        rw [present, Constant.writable_map] at writable
        refine ⟨id :: opened, t.compact.entries.map fun e => (e.key.data.constantKey.name?, e.value),
          ⟨?_, ?_, ?_, List.subset_cons_self id opened, ?_, fun other => ?_⟩⟩
        · have stored := made.stored present
          simpa [parts, present, Function.comp_def] using stored
        · intro part member
          obtain ⟨e, inside, rfl⟩ := List.mem_map.mp member
          exact (writable _ (List.mem_map.mpr ⟨e, inside, rfl⟩)).2
        · intro u there e member
          cases present.symm.trans there
          obtain ⟨f, kept, same⟩ := made.entry present e member
          have complete := (writable _ (List.mem_map.mpr ⟨f, kept, rfl⟩)).1
          have keys : f.key = e.key := congrArg Prod.fst same
          rw [← keys]
          exact isName_of_complete f.key.data f.link complete
        · intro other same
          cases same
          exact ⟨fresh, List.mem_cons_self⟩
        · simp [Constant.trace_map, Constant.trace_bindingsPlan, Step.text, List.count_flatMap,
            List.flatMap_map, Function.comp_def, count_constantKey, List.count_cons, Nat.add_comm]
  · rw [if_pos (by simpa using fresh)] at writable
    exact (Constant.writable_refused context key _ writable).elim

/-- A value that is written to its end is written with its parts, in some order. -/
theorem inParts (made : h.Made) (v : Value)
    (writable : (h.unfold (nesting + 1) opened v).Writable context key) :
    ∃ inside written, h.InParts context nesting opened v
      ((h.unfold (nesting + 1) opened v).plan context key).trace inside written := by
  obtain ⟨data, isStatic⟩ := v
  cases data with
  | instanceObject id => exact inParts_instance context key nesting opened id isStatic writable
  | list id => exact inParts_list context key nesting opened id isStatic writable
  | map id => exact inParts_map context key nesting opened made id isStatic writable
  | nativeClosure name => exact (Constant.writable_refused context key _ writable).elim
  | moduleObject id => exact (Constant.writable_refused context key _ writable).elim
  | closure id =>
      refine ⟨opened, [], inParts_leaf context nesting opened _ _ rfl trivial
        (fun _ => Datum.noConfusion) fun other => ?_⟩
      simp only [unfold, closureConstant]
      repeat' split
      all_goals simp [Constant.plan, Plan.write, Plan.stop]
  | classObject id =>
      refine ⟨opened, [], inParts_leaf context nesting opened _ _ rfl trivial
        (fun _ => Datum.noConfusion) fun other => ?_⟩
      simp only [unfold]
      split <;> simp [Constant.plan, Plan.stop, Step.text]
  | _ =>
      refine ⟨opened, [], inParts_leaf context nesting opened _ _ rfl trivial
        (fun _ => Datum.noConfusion) fun other => ?_⟩
      simp [unfold, Constant.plan, Plan.text, Plan.write, Step.text]

end

end Heap

end StaticImage
