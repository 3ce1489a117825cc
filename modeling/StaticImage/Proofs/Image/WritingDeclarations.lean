import StaticImage.Proofs.Image.Forms
import StaticImage.Proofs.Image.WritingValues

namespace StaticImage

open Relation (TransGen)

namespace Heap

variable {h : Heap} {root : Value} {classes : List ClassId} {maps : List MapId}

section functions

open FunctionImage

theorem writes_upvalues (pad : String) (upvalues : List Upvalue) :
    h.Writes root classes maps (upvaluesPlan pad upvalues).trace := by
  refine .steps _ ?_
  rw [upvaluesPlan, Plan.trace_steps, List.all_cons, Bool.and_eq_true]
  refine ⟨rfl, ?_⟩
  split
  · rfl
  · simp [Step.isPlain, Step.text, List.all_map]

theorem writes_owner (pad : String) (owner : Option String) :
    h.Writes root classes maps (ownerPlan pad owner).trace := by
  cases owner with
  | none => exact .steps _ rfl
  | some name => exact .steps _ rfl

theorem writes_consts (pad : String) (consts : List Value)
    (owed : ∀ v ∈ consts, h.Sound root → ∀ o, v.object? = some o → h.Has o) :
    h.Writes root classes [] (constsPlan pad (consts.map h.constant)).trace := by
  refine .andThen (.steps _ rfl) ?_
  split
  · exact .steps _ rfl
  · refine .andThen (.text _) (.andThen (.each _ _ ?_) (.text _))
    rintro ⟨c, k⟩ member
    obtain ⟨v, inside, rfl⟩ := List.mem_map.mp (List.fst_mem_of_mem_zipIdx member)
    exact .andThen (.text _) (.andThen (writes_constant none none v (owed v inside)) (.text _))

theorem writes_code (pad : String) (id : ProtoId) (p : Prototype) (present : h.proto? id = some p) :
    h.Writes root classes maps (codePlan h.builtins.length p.name pad p.code).trace := by
  refine .andThen (.text _) (.andThen (.each _ _ ?_) (.text _))
  rintro ⟨i, pc⟩ member
  have here : p.code[pc]? = some i := List.mk_mem_zipIdx_iff_getElem?.mp member
  refine .cons rfl ?_
  cases access : i.globalAccess with
  | none =>
      refine .word classes maps id p i pc present here fun slot found => ?_
      rw [access] at found
      cases found
  | some slot =>
      by_cases inside : slot < h.builtins.length
      · simp only [if_pos inside]
        refine .word classes maps id p i pc present here fun other found => ?_
        rw [access] at found
        cases found
        exact inside
      · simp only [if_neg inside]
        exact .foreign classes maps id p i pc slot present here access (Nat.le_of_not_lt inside)

theorem writes_nested (pad : String) (column : Nat) (owner : Option String)
    (nested : List (Unit → FunctionImage MapId))
    (each : ∀ f ∈ nested,
      h.Writes root classes maps (plan h.builtins.length (column + 4) (f ())).trace) :
    h.Writes root classes maps
      (nestedField h.builtins.length pad column owner nested).trace := by
  unfold nestedField
  split
  · exact writes_owner pad owner
  · refine .andThen (.text _) (.andThen ?_ (.andThen (writes_owner pad owner) (.text _)))
    rw [trace_nestedPlan]
    exact .each _ nested fun f member => .andThen (each f member) (.text _)

theorem writes_unfoldProto (nesting column : Nat) (opened : List ProtoId) (id : ProtoId)
    (owed : h.Sound root → h.Has (.proto id)) (distinct : opened.Nodup)
    (held : ∀ other ∈ opened, h.Has (.proto other))
    (around : ∀ other ∈ opened, TransGen h.Nests other id)
    (enough : h.protos.size < nesting + opened.length) :
    h.Writes root classes []
      (plan h.builtins.length column (h.unfoldProto nesting opened id)).trace := by
  induction nesting generalizing column opened id with
  | zero =>
      have fits : opened.length ≤ h.protos.size := by
        refine length_le_of_numbers opened ProtoId.index _ distinct ?_ held
        rintro ⟨_⟩ _ ⟨_⟩ _ rfl
        rfl
      omega
  | succ nesting ih =>
      have form := h.protoForm nesting opened id
      generalize h.unfoldProto (nesting + 1) opened id = f at form ⊢
      cases form with
      | again inside => exact .stop (.endlessProto id (around id inside))
      | missing absent => exact .missing owed (by simp [has_proto_iff, absent])
      | ownerless p owner present owned absent =>
          refine .missing (fun sound => ?_) (h.not_has_of_className? owner absent)
          exact sound.1.link (.proto id) _ (by simp [links, present, owned])
      | node p owner fresh present owned =>
          rw [plan_node]
          refine .andThen (.steps _ rfl) (.andThen (writes_upvalues _ _)
            (.andThen (.steps _ rfl) (.andThen (writes_nested _ _ _ _ ?_)
              (.andThen (writes_consts _ _ ?_) (.andThen (.steps _ rfl)
                (.andThen (writes_code _ id p present) (.text _)))))))
          · intro f member
            obtain ⟨inner, inside, rfl⟩ := List.mem_map.mp member
            have nests : h.Nests id inner := ⟨p, present, inside⟩
            refine ih (column + 4) (id :: opened) inner (fun sound => ?_)
              (List.nodup_cons.mpr ⟨fresh, distinct⟩) ?_ ?_ ?_
            · exact sound.1.link (.proto id) _ (by simp [links, present, inside])
            · intro other member
              rcases List.mem_cons.mp member with rfl | before
              · exact (h.has_proto_iff _).mpr ⟨p, present⟩
              · exact held other before
            · intro other member
              rcases List.mem_cons.mp member with rfl | before
              · exact .single nests
              · exact (around other before).tail nests
            · rw [List.length_cons]
              omega
          · intro v inside sound
            exact sound.1.value (.proto id) v (by simpa [values, present] using inside)

theorem writes_function (column : Nat) (id : ProtoId) (owed : h.Sound root → h.Has (.proto id)) :
    h.Writes root classes [] (plan h.builtins.length column (h.function id)).trace := by
  refine writes_unfoldProto _ column [] id owed List.nodup_nil (by simp) (by simp) ?_
  rw [List.length_nil]
  omega

end functions

theorem writes_externPlan (name : String) : h.Writes root classes maps (externPlan name).trace :=
  .steps _ rfl

theorem writes_functionPlan (context : Option String) (id : ClosureId) (proto : ProtoId)
    (p : Prototype) (owner : Option String) (owed : h.Sound root → h.Has (.proto proto)) :
    h.Writes root classes [] (h.functionPlan context id proto p owner).trace := by
  refine .andThen (.steps _ rfl) (.andThen ?_ (.andThen (.steps _ rfl)
    (.andThen (writes_function 2 proto owed) (.text _))))
  cases owner with
  | none => exact .steps _ rfl
  | some name => exact writes_externPlan name

theorem mem_hoistedClasses (p : Prototype) (cls : ClassId) (member : cls ∈ hoistedClasses p) :
    ∃ v ∈ p.consts, v.object? = some (.classObject cls) := by
  obtain ⟨⟨v, i⟩, inside, found⟩ := List.mem_filterMap.mp member
  refine ⟨v, List.fst_mem_of_mem_zipIdx inside, ?_⟩
  obtain ⟨data, isStatic⟩ := v
  cases data <;> simp [Value.class?] at found
  cases found.2
  rfl

theorem writes_closurePlan (hoist : ClassId → Plan) (context : Option String) (id : ClosureId)
    (owed : h.Sound root → h.Has (.closure id))
    (hoisted : ∀ cls, (h.Sound root → h.Has (.classObject cls)) →
      h.Writes root classes [] (hoist cls).trace) :
    h.Writes root classes [] (h.closurePlan hoist context id).trace := by
  have proto_owed (c : Closure) (present : h.closureAt? id = some c) (sound : h.Sound root) :
      h.Has (.proto c.proto) :=
    sound.1.link (.closure id) _ (by simp [links, present])
  have form := h.closureForm hoist context id
  generalize h.closurePlan hoist context id = plan at form ⊢
  cases form with
  | missing absent => exact .missing owed (by simp [has_closure_iff, absent])
  | bare c present absent =>
      exact .missing (proto_owed c present) (by simp [has_proto_iff, absent])
  | ownerless c p owner present there owned absent =>
      refine .missing (fun sound => ?_) (h.not_has_of_className? owner absent)
      exact sound.1.link (.proto c.proto) _ (by simp [links, there, owned])
  | borrowed c p owner name present there owned called elsewhere => exact .steps _ rfl
  | written c p owner present there owned home =>
      refine .andThen (.andThen ?_ (.each _ _ fun cls member => hoisted cls fun sound => ?_))
        (writes_functionPlan context id c.proto p owner (proto_owed c present))
      · split <;> exact .steps _ rfl
      · obtain ⟨v, inside, refers⟩ := mem_hoistedClasses p cls member
        exact sound.1.value (.proto c.proto) v (by simpa [values, there] using inside) _ refers

theorem mem_namedMembers (t : Table) (v : Value) (member : v ∈ namedMembers t) : v ∈ t.parts := by
  obtain ⟨e, inside, named⟩ := List.mem_filterMap.mp member
  obtain ⟨_, _, rfl⟩ := Option.map_eq_some_iff.mp named
  exact mem_parts_of_compact t e inside

theorem writes_membersPlan (members : Option MapId) (member : Value → Plan)
    (owed : ∀ id, members = some id → h.Sound root → h.Has (.map id))
    (each : ∀ v, (h.Sound root → ∀ o, v.object? = some o → h.Has o) →
      h.Writes root classes maps (member v).trace) :
    h.Writes root classes maps (h.membersPlan members member).trace := by
  cases members with
  | none => exact .steps _ rfl
  | some id =>
      simp only [membersPlan]
      cases present : h.table? id with
      | none => exact .missing (owed id rfl) (by simp [has_map_iff, present])
      | some t =>
          refine .andThen (.steps _ rfl) (.each _ _ fun v inside => each v fun sound => ?_)
          exact sound.1.value (.map id) v
            (by simpa [values, present] using mem_namedMembers t v inside)

theorem writes_memberTablePlan (context : Option String) (members : Option MapId)
    (terminator : String) (owed : ∀ id, members = some id → h.Sound root → h.Has (.map id)) :
    h.Writes root classes [] (h.memberTablePlan context members terminator).trace := by
  cases members with
  | none => exact .steps _ rfl
  | some id =>
      refine .andThen (writes_constant context none _ fun sound o here => ?_) (.text _)
      cases here
      exact owed id rfl sound

theorem writes_classBodyPlan (c : ClassObject) (superName : Option String)
    (owed : ∀ id, c.members = some id → h.Sound root → h.Has (.map id)) :
    h.Writes root classes [] (h.classBodyPlan c superName).trace := by
  refine .andThen (.steps _ rfl) (.andThen ?_ (.andThen (.steps _ rfl) (.andThen ?_
    (.andThen (writes_memberTablePlan _ c.members ",\n" owed) (.steps _ rfl)))))
  · cases superName with
    | none => exact .steps _ rfl
    | some name => exact writes_externPlan name
  · cases superName with
    | none => exact .steps _ rfl
    | some name => exact .steps _ rfl

theorem writes_methods (hoist : ClassId → Plan) (context : Option String) (members : Option MapId)
    (owed : ∀ id, members = some id → h.Sound root → h.Has (.map id))
    (hoisted : ∀ cls, (h.Sound root → h.Has (.classObject cls)) →
      h.Writes root classes [] (hoist cls).trace) :
    h.Writes root classes [] (h.membersPlan members fun v =>
      match v.closure? with
      | none => Plan.nothing
      | some closure => h.closurePlan hoist context closure).trace := by
  refine writes_membersPlan members _ owed fun v owed => ?_
  obtain ⟨data, isStatic⟩ := v
  cases data with
  | closure closure =>
      exact writes_closurePlan hoist context closure (fun sound => owed sound _ rfl) hoisted
  | _ => exact .steps _ rfl

theorem writes_inheriting (id : ClassId) (c : ClassObject) (body : Plan)
    (present : h.class? id = some c) (form : h.BodyForm c body)
    (owed : ∀ id, c.members = some id → h.Sound root → h.Has (.map id)) :
    h.Writes root classes [] body.trace := by
  cases form with
  | orphan super inherits absent =>
      refine .missing (fun sound => ?_) (h.not_has_of_className? super absent)
      exact sound.1.link (.classObject id) _ (by simp [links, present, inherits])
  | body superName inherits => exact writes_classBodyPlan c superName owed

theorem writes_classPlan (nesting : Nat) (opened : List ClassId) (id : ClassId)
    (owed : h.Sound root → h.Has (.classObject id)) (distinct : opened.Nodup)
    (held : ∀ other ∈ opened, h.Has (.classObject other))
    (enough : h.classes.size < nesting + opened.length) :
    h.Writes root opened [] (h.classPlan nesting opened id).trace := by
  induction nesting generalizing opened id with
  | zero =>
      have fits : opened.length ≤ h.classes.size := by
        refine length_le_of_numbers opened ClassId.index _ distinct ?_ held
        rintro ⟨_⟩ _ ⟨_⟩ _ rfl
        rfl
      omega
  | succ nesting ih =>
      have form := h.classForm nesting opened id
      generalize h.classPlan (nesting + 1) opened id = plan at form ⊢
      cases form with
      | again around => exact .steps _ rfl
      | missing fresh absent => exact .missing owed (by simp [has_class_iff, absent])
      | written c body fresh present form =>
          have has : h.Has (.classObject id) := (h.has_class_iff id).mpr ⟨c, present⟩
          have members_owed (table : MapId) (member : c.members = some table)
              (sound : h.Sound root) : h.Has (.map table) :=
            sound.1.link (.classObject id) _ (by simp [links, present, member])
          have inner (cls : ClassId) (owed : h.Sound root → h.Has (.classObject cls)) :
              h.Writes root (id :: opened) [] (h.classPlan nesting (id :: opened) cls).trace := by
            refine ih (id :: opened) cls owed (List.nodup_cons.mpr ⟨fresh, distinct⟩) ?_ ?_
            · intro other member
              rcases List.mem_cons.mp member with rfl | before
              · exact has
              · exact held other before
            · rw [List.length_cons]
              omega
          have methods := writes_methods (h.classPlan nesting (id :: opened))
            (some (classContext c.name)) c.members members_owed inner
          have closing : h.Writes root (id :: opened) [] body.trace :=
            writes_inheriting id c body present form members_owed
          exact .insideClass opened [] id _ fresh ((Writes.text "\n").append
            ((writes_externPlan c.name).append (methods.append closing)))

theorem writes_outermostClass (id : ClassId) (owed : h.Sound root → h.Has (.classObject id)) :
    h.Writes root [] [] (h.outermostClass id).trace := by
  refine writes_classPlan h.classNesting [] id owed List.nodup_nil (by simp) ?_
  rw [List.length_nil, classNesting]
  omega

theorem writes_modulePlan (id : ModuleId) (owed : h.Sound root → h.Has (.moduleObject id)) :
    h.Writes root [] [] (h.modulePlan id).trace := by
  unfold modulePlan
  cases present : h.module? id with
  | none => exact .missing owed (by simp [has_module_iff, present])
  | some m =>
      have members_owed (table : MapId) (member : m.members = some table)
          (sound : h.Sound root) : h.Has (.map table) :=
        sound.1.link (.moduleObject id) _ (by simp [links, present, member])
      refine .andThen (writes_membersPlan m.members _ members_owed fun v owed => ?_)
        (.andThen (.steps _ rfl) (.andThen (writes_memberTablePlan none m.members "\n" members_owed)
          (.text _)))
      obtain ⟨data, isStatic⟩ := v
      cases data with
      | closure closure =>
          exact writes_closurePlan _ none closure (fun sound => owed sound _ rfl)
            writes_outermostClass
      | classObject cls => exact writes_outermostClass cls fun sound => owed sound _ rfl
      | _ => exact .steps _ rfl

/-- The steps of a dump are put together as `Writes` says, whatever the heap. -/
theorem writes_rootPlan (h : Heap) (root : Value) (context : Option String) :
    h.Writes root [] [] (h.rootPlan root context).trace := by
  obtain ⟨data, isStatic⟩ := root
  cases data with
  | closure id =>
      exact writes_closurePlan _ context id (fun sound => sound.2 _ rfl) writes_outermostClass
  | classObject id => exact writes_outermostClass id fun sound => sound.2 _ rfl
  | moduleObject id => exact writes_modulePlan id fun sound => sound.2 _ rfl
  | _ => exact .stop (.root _ rfl)

end Heap

end StaticImage
