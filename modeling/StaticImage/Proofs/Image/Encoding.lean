import StaticImage.Proofs.Image.Encodable

namespace StaticImage

open Relation (ReflTransGen TransGen)

namespace Heap

variable {h : Heap} (context : Option String)

theorem Encodable.part {v w : Value} (encodable : h.Encodable v) (part : h.HasPart v w) :
    h.Encodable w :=
  ⟨fun u reach => encodable.fits u (.head part reach),
    fun u id reach => encodable.acyclic u id (.head part reach)⟩

theorem InParts.mem {nesting : Nat} {opened inside : List MapId} {v w : Value} {trace : Trace}
    {written : List (Option String × Value)}
    (parts : h.InParts context nesting opened v trace inside written) (part : h.HasPart v w) :
    ∃ key, (h.unfold nesting inside w).Writable context key := by
  obtain ⟨⟨key, value⟩, member, rfl⟩ := List.mem_map.mp (parts.parts.symm.subset part)
  exact ⟨key, parts.each _ member⟩

theorem writable_of_reaches (made : h.Made) (key : Option String) (nesting : Nat)
    (opened : List MapId) (v w : Value) (reach : h.Reaches v w)
    (writable : (h.unfold nesting opened v).Writable context key) :
    ∃ key' nesting' inside, opened ⊆ inside ∧
      (h.unfold (nesting' + 1) inside w).Writable context key' := by
  induction reach with
  | refl =>
      obtain ⟨inner, rfl⟩ := h.nesting_of_writable nesting opened v context key writable
      exact ⟨key, inner, opened, List.Subset.refl _, writable⟩
  | tail _ part ih =>
      obtain ⟨key', nesting', inside, more, here⟩ := ih
      obtain ⟨further, written, parts⟩ := inParts context key' nesting' inside made _ here
      obtain ⟨key'', there⟩ := parts.mem context part
      obtain ⟨inner, rfl⟩ := h.nesting_of_writable nesting' further _ context key'' there
      exact ⟨key'', inner, further, List.Subset.trans more parts.more, there⟩

theorem encodable_of_writable (made : h.Made) (key : Option String) (nesting : Nat)
    (opened : List MapId) (v : Value)
    (writable : (h.unfold nesting opened v).Writable context key) : h.Encodable v := by
  refine ⟨fun w reach => ?_, fun w id reach same u onward again => ?_⟩
  · obtain ⟨key', nesting', inside, -, here⟩ :=
      writable_of_reaches context made key nesting opened v w reach writable
    obtain ⟨further, written, parts⟩ := inParts context key' nesting' inside made w here
    exact parts.fits
  · obtain ⟨key', nesting', inside, -, here⟩ :=
      writable_of_reaches context made key nesting opened v w reach writable
    obtain ⟨further, written, parts⟩ := inParts context key' nesting' inside made w here
    -- The map is being written around all that is met on a way out of it, and is not gone into again.
    have entered : id ∈ further := (parts.fresh id same).2
    obtain ⟨part, first, others⟩ := TransGen.head'_iff.mp onward
    obtain ⟨key'', there⟩ := parts.mem context first
    obtain ⟨last, deep, still, kept, met⟩ :=
      writable_of_reaches context made key'' nesting' further part u others there
    obtain ⟨_, _, end_parts⟩ := inParts context last deep still made u met
    exact (end_parts.fresh id again).1 (kept entered)

theorem length_route (made : h.Made) (key : Option String) (nesting : Nat) (opened : List MapId)
    (v w : Value) (route : List Nat) (there : h.at? route v = some w)
    (writable : (h.unfold nesting opened v).Writable context key) : route.length < nesting := by
  induction route generalizing key nesting opened v with
  | nil =>
      obtain ⟨inner, rfl⟩ := h.nesting_of_writable nesting opened v context key writable
      exact Nat.succ_pos inner
  | cons i route ih =>
      obtain ⟨inner, rfl⟩ := h.nesting_of_writable nesting opened v context key writable
      obtain ⟨inside, written, parts⟩ := inParts context key inner opened made v writable
      obtain ⟨part, here, onward⟩ := Option.bind_eq_some_iff.mp there
      obtain ⟨key', inner_writable⟩ := parts.mem context (List.mem_of_getElem? here)
      exact Nat.succ_lt_succ (ih key' inner inside part onward inner_writable)

/-- A map is written once for each route to it. -/
theorem count_openMap (made : h.Made) (key : Option String) (nesting : Nat) (opened : List MapId)
    (v : Value) (writable : (h.unfold nesting opened v).Writable context key) (id : MapId) :
    ((h.unfold nesting opened v).plan context key).trace.count (.openMap id) =
      (h.routes id nesting v).length := by
  induction nesting generalizing key opened v with
  | zero => exact (Constant.writable_refused context key _ writable).elim
  | succ nesting ih =>
      obtain ⟨inside, written, parts⟩ := inParts context key nesting opened made v writable
      have each : (written.map fun part =>
          ((h.unfold nesting inside part.2).plan context part.1).trace.count (.openMap id)) =
            (written.map Prod.snd).map fun part => (h.routes id nesting part).length := by
        rw [List.map_map]
        exact List.map_congr_left fun part member => ih part.1 inside part.2 (parts.each part member)
      rw [parts.count id, length_routes, each, (parts.parts.map _).sum_eq]

section

variable {root : Value}

/-- Where nothing is missing, only a value that has no constant form stops the dump. -/
theorem Writes.complete {classes : List ClassId} {maps : List MapId} {trace : Trace}
    (writes : h.Writes root classes maps trace) (sound : h.Sound root)
    (only : ∀ why, Step.stop why ∈ trace → why = .dangling) : trace.Complete := by
  intro why stops
  obtain rfl := only why stops
  rcases writes.blamed .dangling stops with blamed | ⟨slot, name, other⟩
  · cases blamed with
    | dangling missing => exact missing sound
  · cases other

theorem writable_closure (sound : h.Sound root) (key : Option String) (isStatic : Bool)
    (id : ClosureId) (has : h.Has (.closure id)) :
    (h.closureConstant isStatic id).Writable context key := by
  have writes : h.Writes root [] [] ((h.closureConstant isStatic id).plan context key).trace :=
    writes_closureConstant context key isStatic id fun _ => has
  refine writes.complete sound fun why stops => ?_
  unfold closureConstant at stops
  repeat' split at stops
  all_goals simp_all [Constant.plan, Plan.write, Plan.stop]

theorem values_of_hasPart_instance (h : Heap) {id : InstanceId} {isStatic : Bool} {part : Value}
    (held : h.HasPart ⟨.instanceObject id, isStatic⟩ part) : part ∈ h.values (.instanceObject id) := by
  simp only [HasPart, parts, Option.mem_toList, Option.bind_eq_some_iff] at held
  obtain ⟨i, present, content⟩ := held
  have first : part ∈ i.data.values := by
    unfold InstanceObject.content? at content
    split at content
    · rename_i data
      cases content
      simp [data, InstanceData.values]
    · rename_i data
      cases content
      simp [data, InstanceData.values]
    · cases content
  simpa [values, present] using first

theorem complete_constantKey (key : Datum) (link : Int) (name : key.IsName) :
    (key.constantKey.plan link).trace.Complete := by
  cases key with
  | string text =>
      simp [Datum.constantKey, ConstantKey.trace_plan_text, Step.text]
  | int n => simp [Datum.constantKey, ConstantKey.plan, Plan.text, Step.text]
  | _ => exact name.elim

theorem writable_instance {id : InstanceId} {isStatic : Bool}
    (fits : h.Fits ⟨.instanceObject id, isStatic⟩) (key : Option String) (nesting : Nat)
    (opened : List MapId) (has : h.Has (.instanceObject id))
    (each : ∀ part, h.HasPart ⟨.instanceObject id, isStatic⟩ part →
      (h.unfold nesting opened part).Writable context key) :
    (h.unfold (nesting + 1) opened ⟨.instanceObject id, isStatic⟩).Writable context key := by
  obtain ⟨i, present⟩ := (h.has_instance_iff id).mp has
  have form := h.instanceForm i
  simp only [unfold, present, Option.map_some]
  generalize h.instanceContent i = content at form
  cases form with
  | refused why unfit => exact (unfit (fits i present)).elim
  | bytes data _ alone => exact (Trace.complete_cons _ _).mpr ⟨fun _ => Step.noConfusion, Trace.complete_nil⟩
  | wrapped kind inner _ holds =>
      refine (Constant.writable_wrapped context key kind _).mpr (each inner ?_)
      simp [HasPart, parts, present, holds]

theorem writable_of_encodable (made : h.Made) (age : ObjectId → Nat) (older : h.HoldsOlder age)
    (sound : h.Sound root) (key : Option String) (nesting : Nat) (opened : List MapId)
    (path : List ObjectId) (v : Value) (inside : h.Inside root nesting opened path v)
    (encodable : h.Encodable v)
    (apart : ∀ id ∈ opened, ∀ w, h.Reaches v w → w.data ≠ .map id) :
    (h.unfold nesting opened v).Writable context key := by
  induction nesting generalizing opened path v key with
  | zero =>
      -- So deep inside, a list or instance would have to be nested in itself.
      rcases inside.enough with ⟨o, cycle⟩ | ⟨_, bound⟩
      · exact (not_transGen_self age older o cycle).elim
      · exact (Nat.not_lt_zero _ bound).elim
  | succ nesting ih =>
      have has (o : ObjectId) (here : v.object? = some o) : h.Has o := inside.owed sound o here
      have fits : h.Fits v := encodable.fits v .refl
      have onward (id : MapId) (member : id ∈ opened) (part : Value) (held : h.HasPart v part)
          (w : Value) (reach : h.Reaches part w) : w.data ≠ .map id :=
        apart id member w (.head held reach)
      obtain ⟨data, isStatic⟩ := v
      cases data with
      | closure id => exact writable_closure context sound key isStatic id (has _ rfl)
      | classObject id =>
          have writes : h.Writes root [] [] _ :=
            writes_classReference context key id fun _ => has _ rfl
          refine writes.complete sound fun why stops => ?_
          split at stops <;> simp_all [Constant.plan, Plan.stop, Step.text]
      | nativeClosure name => exact fits.elim
      | moduleObject id => exact fits.elim
      | instanceObject id =>
          refine writable_instance context fits key nesting opened (has _ rfl) fun part held => ?_
          have inner := inside.item _ rfl rfl (has _ rfl) part (h.values_of_hasPart_instance held)
          exact ih key opened _ part inner (encodable.part held)
            fun id member => onward id member part held
      | list id =>
          obtain ⟨items, present⟩ := (h.has_list_iff id).mp (has _ rfl)
          simp only [unfold, present]
          rw [Constant.writable_list]
          intro item member
          obtain ⟨value, held, rfl⟩ := List.mem_map.mp member
          have part : h.HasPart ⟨.list id, isStatic⟩ value := by simpa [HasPart, parts, present]
          have inner := inside.item _ rfl rfl (has _ rfl) value (by simpa [values, present])
          exact ih (some "") opened _ value inner (encodable.part part)
            fun id member => onward id member value part
      | map id =>
          have fresh : id ∉ opened := fun member => apart id member _ .refl rfl
          obtain ⟨t, present⟩ := (h.has_map_iff id).mp (has _ rfl)
          simp only [unfold, if_neg fresh, present]
          rw [Constant.writable_map]
          intro binding member
          obtain ⟨e, kept, rfl⟩ := List.mem_map.mp member
          obtain ⟨f, stored, same⟩ := made.left present e kept
          have part : h.HasPart ⟨.map id, isStatic⟩ e.value := by
            have value : f.value = e.value := congrArg Prod.snd same
            have held : f.value ∈ t.entries.map Entry.value := List.mem_map.mpr ⟨f, stored, rfl⟩
            simpa [HasPart, parts, present, value] using held
          have held : e.value ∈ h.values (.map id) := by
            simpa [values, present] using mem_parts_of_compact t e kept
          have keys : f.key = e.key := congrArg Prod.fst same
          refine ⟨complete_constantKey e.key.data e.link (keys ▸ fits t present f stored), ?_⟩
          have inner := inside.entry id rfl (has _ rfl) fresh e.value held
          refine ih e.key.data.constantKey.name? (id :: opened) [] e.value inner
            (encodable.part part) fun other member w reach => ?_
          rcases List.mem_cons.mp member with rfl | before
          · exact encodable.acyclic _ other .refl rfl w (TransGen.head' part reach)
          · exact onward other before e.value part w reach
      | _ => exact (Trace.complete_cons _ _).mpr ⟨fun _ => Step.noConfusion, Trace.complete_nil⟩

end

/-- Where lists and instances hold what is older than they are, a value has a constant exactly if each
value that it reaches has a constant form and no map among them reaches itself; the options and the key
have no part in it. A map is then written once for each route that leads to it. -/
theorem expressible_iff_encodable (h : Heap) (age : ObjectId → Nat) (v : Value)
    (options : DumpOptions) (key : Option String) (older : h.HoldsOlder age) (made : h.Made)
    (sound : h.Sound v) :
    let outcome := (h.express v options key).1
    let steps := h.stepsOf (.express v options key)
    (outcome.error = none ↔ h.Encodable v) ∧
      (outcome.error = none →
        outcome.bytes = (String.ofList (steps.spelling options.weak)).toUTF8.data.toList ∧
          ∀ id, ∃ routes : List (List Nat), routes.Nodup ∧
            (∀ route, route ∈ routes ↔ ∃ w, h.at? route v = some w ∧ w.data = .map id) ∧
            steps.count (.openMap id) = routes.length) := by
  intro outcome steps
  refine ⟨⟨fun success => ?_, fun encodable => ?_⟩, fun success => ?_⟩
  · have complete := (Plan.run_complete options.weak none _ success).1
    exact encodable_of_writable options.context made key h.nesting [] v complete
  · refine Plan.run_unbounded options.weak _ ?_
    exact writable_of_encodable options.context made age older sound key h.nesting [] [] v
      (inside_alone v fun kept => kept.2) encodable (by simp)
  · obtain ⟨complete, bytes⟩ := Plan.run_complete options.weak none _ success
    have all : steps = ((h.constant v).plan options.context key).trace :=
      Plan.taken_of_complete options.weak none _ success
    rw [all]
    refine ⟨bytes, fun id => ⟨h.routes id h.nesting v, h.nodup_routes id h.nesting v,
      fun route => ?_, count_openMap options.context made key h.nesting [] v complete id⟩⟩
    rw [mem_routes_iff]
    refine and_iff_right_of_imp ?_
    rintro ⟨w, there, _⟩
    exact length_route options.context made key h.nesting [] v w route there complete

def twice : Heap :=
  { empty with
    maps := #[Table.afterAll [.insert (.plain (.string "a")) (.plain (.int 1))]]
    lists := #[[.plain (.map ⟨0⟩), .plain (.map ⟨0⟩)]] }

theorem twice_holdsOlder : twice.HoldsOlder listsLast := by
  rintro holder part ⟨fixed, v, held, refers⟩
  cases holder with
  | list id =>
      rcases id with ⟨_ | index⟩
      · have shared : v = .plain (.map ⟨0⟩) := by simpa [values, list?, twice] using held
        subst shared
        cases refers
        decide
      · simp [values, list?, twice] at held
  | instanceObject id => simp [values, instance?, twice, empty] at held
  | _ => cases fixed

theorem twice_made : twice.Made := by
  intro id t present
  rcases id with ⟨_ | index⟩
  · cases present
    exact ⟨0, _, rfl⟩
  · cases present

theorem twice_closed : twice.Closed := by
  intro o r refers
  cases o with
  | list id =>
      rcases id with ⟨_ | index⟩
      · have shared : r = .map ⟨0⟩ := by
          simpa [references, links, values, list?, twice, Value.object?, Value.plain] using refers
        subst shared
        exact Nat.one_pos
      · simp [references, links, values, list?, twice] at refers
  | map id =>
      rcases id with ⟨_ | index⟩
      · have plain : twice.references (.map ⟨0⟩) = [] := by decide +kernel
        simp [plain] at refers
      · simp [references, links, values, table?, twice] at refers
  | _ =>
      simp [references, links, values, proto?, closureAt?, class?, module?, instance?, twice,
        empty] at refers

/-- The map is written twice, which is no error. -/
theorem twice_expressible :
    let v := Value.plain (.list ⟨0⟩)
    let outcome := (twice.express v ⟨false, none⟩ none).1
    let steps := twice.stepsOf (.express v ⟨false, none⟩ none)
    twice.HoldsOlder listsLast ∧ twice.Made ∧ twice.Sound v ∧ outcome.error = none ∧
      twice.Encodable v ∧ steps.count (.openMap ⟨0⟩) = 2 ∧
      ∃ routes : List (List Nat), routes.Nodup ∧
        (∀ route, route ∈ routes ↔ ∃ w, twice.at? route v = some w ∧ w.data = .map ⟨0⟩) ∧
        routes.length = 2 := by
  intro v outcome steps
  have sound : twice.Sound v := by
    refine ⟨twice_closed, fun o here => ?_⟩
    cases here
    exact Nat.one_pos
  have success : outcome.error = none := by decide +kernel
  have count : steps.count (.openMap ⟨0⟩) = 2 := by decide +kernel
  obtain ⟨succeeds, written⟩ := expressible_iff_encodable twice listsLast v ⟨false, none⟩ none
    twice_holdsOlder twice_made sound
  obtain ⟨routes, distinct, mem, counted⟩ := (written success).2 ⟨0⟩
  exact ⟨twice_holdsOlder, twice_made, sound, success, succeeds.mp success, count, routes, distinct,
    mem, counted.symm.trans count⟩

end Heap

end StaticImage
