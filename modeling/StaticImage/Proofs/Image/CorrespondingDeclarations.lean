import StaticImage.Proofs.Image.Correspondence

namespace StaticImage.Heap

open Trace (Agree)

variable {h g : Heap} {pairs : Pairing}

theorem functionPlan_agrees (corresponds : h.Corresponds g pairs) (context : Option String)
    (id id' : ClosureId) {i j : ProtoId} (paired : pairs (.proto i) (.proto j)) {p q : Prototype}
    (name : p.name = q.name) (owner : Option String) :
    Agree (h.functionPlan context id i p owner).trace
      (g.functionPlan context id' j q owner).trace := by
  unfold functionPlan
  rw [name]
  refine .andThen ?_ (.andThen (.refl _) (.andThen (.refl _)
    (.andThen (function_agrees corresponds 2 i j paired) (.refl _))))
  exact .of_complete (by simp [banner, Step.text]) (by simp [banner, Step.text]) fun _ => rfl

theorem hoisted_related {p q : Prototype} (varg : p.varg = q.varg)
    (alike : List.Forall₂ (h.Alike g pairs) p.consts q.consts) :
    List.Forall₂ (fun i j => pairs (.classObject i) (.classObject j)) (hoistedClasses p)
      (hoistedClasses q) := by
  have isStatic : p.isStaticMethod = q.isStaticMethod := by
    rw [Prototype.isStaticMethod, Prototype.isStaticMethod, varg]
  refine List.rel_filterMap (R := fun a b => h.Alike g pairs a.1 b.1 ∧ a.2 = b.2) ?_
    (zipIdx_related alike 0)
  rintro ⟨v, index⟩ ⟨w, _⟩ ⟨alike, rfl⟩
  dsimp only
  rw [isStatic]
  split
  · exact .none
  · exact alike.classObject

theorem closurePlan_agrees (corresponds : h.Corresponds g pairs) {hoist hoist' : ClassId → Plan}
    (hoisted : ∀ i j, pairs (.classObject i) (.classObject j) →
      Agree (hoist i).trace (hoist' j).trace)
    (context : Option String) {i j : ClosureId} (paired : pairs (.closure i) (.closure j)) :
    Agree (h.closurePlan hoist context i).trace (g.closurePlan hoist' context j).trace := by
  have closures := corresponds.closures i j paired
  rw [closurePlan, closurePlan]
  generalize h.closureAt? i = c, g.closureAt? j = d at closures
  cases closures with
  | none => exact .refl _
  | @some c d same =>
      have protos := corresponds.protos _ _ same.proto
      have consts := corresponds.consts c.proto d.proto
      simp only [Option.bind_some]
      generalize h.proto? c.proto = p, g.proto? d.proto = q at protos consts
      cases protos with
      | none => exact .refl _
      | @some p q like =>
          have alike := consts p q same.proto rfl rfl
          have owners := like.owner
          have whole (owner : Option String) := Agree.andThen
            (.andThen (.refl (if c.captured.isEmpty then Plan.nothing
              else Plan.text "--> Unsupported upvals in closure <---").trace)
              (.each (hoisted_related like.varg alike) hoisted))
            (functionPlan_agrees corresponds context i j same.proto like.name owner)
          simp only [Option.map_some]
          rw [← same.captured, ← like.name]
          generalize p.owner = owner, q.owner = owner' at owners
          cases owners with
          | none => exact whole none
          | some paired =>
              dsimp only
              rw [corresponds.className? paired]
              split
              · exact .refl _
              · split
                · exact whole _
                · exact .refl _

theorem membersMatch_cases {members members' : Option MapId}
    (matches_ : h.MembersMatch g pairs members members') :
    Option.Rel (h.Tables g (Table.Like (h.Alike g pairs))) members members' ∨
      ∃ i j, members = some i ∧ members' = some j ∧
        h.Tables g (fun t u => t.Refused ∧ u.Refused) i j := by
  cases matches_ with
  | none => exact Or.inl .none
  | @some i j tables =>
      obtain ⟨t, u, present, present', like | refused⟩ := tables
      · exact Or.inl (.some ⟨t, u, present, present', like⟩)
      · exact Or.inr ⟨i, j, rfl, rfl, t, u, present, present', refused⟩

theorem namedMembers_related {t u : Table} (like : t.Like (h.Alike g pairs) u) :
    List.Forall₂ (h.Alike g pairs) (namedMembers t) (namedMembers u) := by
  refine List.rel_filterMap (fun e f same => ?_) like.compact.entries
  rw [same.key]
  cases f.key.string? with
  | none => exact .none
  | some name => exact .some same.value

theorem membersPlan_agrees {members members' : Option MapId}
    (like : Option.Rel (h.Tables g (Table.Like (h.Alike g pairs))) members members')
    {member member' : Value → Plan}
    (each : ∀ v w, h.Alike g pairs v w → Agree (member v).trace (member' w).trace) :
    Agree (h.membersPlan members member).trace (g.membersPlan members' member').trace := by
  cases like with
  | none => exact .refl _
  | some tables =>
      obtain ⟨t, u, present, present', like⟩ := tables
      simp only [membersPlan, present, present']
      refine .andThen ?_ (.each (namedMembers_related like) each)
      exact .of_complete (by simp) (by simp) fun _ => rfl

theorem memberTable_agrees (context : Option String) {members members' : Option MapId}
    (matches_ : h.MembersMatch g pairs members members') (terminator : String) :
    Agree (h.memberTablePlan context members terminator).trace
      (g.memberTablePlan context members' terminator).trace := by
  cases matches_ with
  | none => exact .refl _
  | some tables =>
      obtain ⟨t, u, present, present', matches_⟩ := tables
      have written := matches_.imp fun v w alike => alike.written
      exact .andThen (writtenAlike_map present present' written context none _ _ [] []) (.refl _)

theorem memberTable_incomplete {i : MapId} {t : Table} (present : h.table? i = some t)
    (refused : t.Refused) (context : Option String) (terminator : String) :
    ¬ (h.memberTablePlan context (some i) terminator).trace.Complete := by
  intro complete
  rw [memberTablePlan, Plan.trace_andThen, Trace.complete_append] at complete
  exact incomplete_of_refused present refused context none _ [] complete.1

theorem classBody_agrees {c d : ClassObject} (like : c.Like pairs d)
    (matches_ : h.MembersMatch g pairs c.members d.members) (superName : Option String) :
    Agree (h.classBodyPlan c superName).trace (g.classBodyPlan d superName).trace := by
  unfold classBodyPlan
  rw [like.name, like.nvar]
  exact .andThen (.refl _) (.andThen (.refl _) (.andThen (.refl _) (.andThen (.refl _)
    (.andThen (memberTable_agrees _ matches_ ",\n") (.refl _)))))

def superBody (h : Heap) (c : ClassObject) : Plan :=
  match c.super with
  | none => h.classBodyPlan c none
  | some super =>
    match h.className? super with
    | none => Plan.stop .dangling
    | some name => h.classBodyPlan c (some name)

theorem superBody_agrees (corresponds : h.Corresponds g pairs) {c d : ClassObject}
    (like : c.Like pairs d) (matches_ : h.MembersMatch g pairs c.members d.members) :
    Agree (h.superBody c).trace (g.superBody d).trace := by
  have supers := like.super
  have body := classBody_agrees like matches_
  rw [superBody, superBody]
  generalize c.super = super, d.super = super' at supers
  cases supers with
  | none => exact body none
  | some paired =>
      dsimp only
      rw [corresponds.className? paired]
      split
      · exact .refl _
      · exact body _

theorem superBody_incomplete {c : ClassObject} {i : MapId} {t : Table}
    (members : c.members = some i) (present : h.table? i = some t) (refused : t.Refused) :
    ¬ (h.superBody c).trace.Complete := by
  have body (superName : Option String) : ¬ (h.classBodyPlan c superName).trace.Complete := by
    intro complete
    unfold classBodyPlan at complete
    rw [members] at complete
    simp only [Plan.trace_andThen, Trace.complete_append] at complete
    exact memberTable_incomplete present refused _ _ complete.2.2.2.2.1
  rw [superBody]
  split
  · exact body none
  · split
    · exact fun complete => complete _ List.mem_cons_self
    · exact body _

theorem opened_iff (corresponds : h.Corresponds g pairs) {opened opened' : List ClassId}
    (around : List.Forall₂ (fun i j => pairs (.classObject i) (.classObject j)) opened opened')
    {i j : ClassId} (paired : pairs (.classObject i) (.classObject j)) :
    i ∈ opened ↔ j ∈ opened' := by
  induction around with
  | nil => simp
  | cons here _ ih =>
      rw [List.mem_cons, List.mem_cons, ih, corresponds.unique _ _ _ _ paired here]

theorem classPlan_agrees (corresponds : h.Corresponds g pairs) (nesting nesting' : Nat)
    (opened opened' : List ClassId)
    (around : List.Forall₂ (fun i j => pairs (.classObject i) (.classObject j)) opened opened')
    (i j : ClassId) (paired : pairs (.classObject i) (.classObject j)) :
    Agree (h.classPlan nesting opened i).trace (g.classPlan nesting' opened' j).trace := by
  induction nesting generalizing nesting' opened opened' i j with
  | zero => exact Agree.cut_left .endless rfl
  | succ nesting ih =>
      cases nesting' with
      | zero => exact Agree.cut_right .endless rfl
      | succ nesting' =>
          have same_opened := opened_iff corresponds around paired
          simp only [classPlan]
          by_cases again : i ∈ opened
          · rw [if_pos again, if_pos (same_opened.mp again)]
            exact .refl _
          · rw [if_neg again, if_neg (mt same_opened.mpr again)]
            have classes := corresponds.classes i j paired
            have members := corresponds.classMembers i j
            generalize h.class? i = c, g.class? j = d at classes members
            cases classes with
            | none => exact .refl _
            | @some c d like =>
                have matches_ := members c d paired rfl rfl
                dsimp only
                rcases membersMatch_cases matches_ with lying | ⟨a, b, here, there, tables⟩
                · refine .insideClass i j (.andThen (.refl _) (.andThen ?_ (.andThen ?_ ?_)))
                  · rw [like.name]
                    exact .refl _
                  · refine membersPlan_agrees lying fun v w alike => ?_
                    have closures := alike.closure
                    generalize v.closure? = a, w.closure? = b at closures
                    cases closures with
                    | none => exact .refl _
                    | some there =>
                        dsimp only
                        rw [like.name]
                        exact closurePlan_agrees corresponds
                          (ih nesting' (i :: opened) (j :: opened') (.cons paired around)) _ there
                  · exact superBody_agrees corresponds like matches_
                · obtain ⟨t, u, present, present', refused, refused'⟩ := tables
                  refine .of_incomplete (fun complete => ?_) fun complete => ?_
                  · simp only [Plan.trace_insideClass, Plan.trace_andThen, Trace.complete_append,
                      List.cons_append, Trace.complete_cons] at complete
                    exact superBody_incomplete here present refused complete.2.1.2.2.2
                  · simp only [Plan.trace_insideClass, Plan.trace_andThen, Trace.complete_append,
                      List.cons_append, Trace.complete_cons] at complete
                    exact superBody_incomplete there present' refused' complete.2.1.2.2.2

theorem outermostClass_agrees (corresponds : h.Corresponds g pairs) (i j : ClassId)
    (paired : pairs (.classObject i) (.classObject j)) :
    Agree (h.outermostClass i).trace (g.outermostClass j).trace :=
  classPlan_agrees corresponds _ _ [] [] .nil i j paired

def memberPlan (h : Heap) (v : Value) : Plan :=
  match v.data with
  | .closure closure => h.closurePlan h.outermostClass none closure
  | .classObject cls => h.outermostClass cls
  | _ => .nothing

theorem memberPlan_eq (h : Heap) (v : Value) :
    h.memberPlan v =
      match v.closure? with
      | some closure => h.closurePlan h.outermostClass none closure
      | none => (v.class?.map h.outermostClass).getD .nothing := by
  obtain ⟨data, isStatic⟩ := v
  cases data <;> rfl

theorem memberPlan_agrees (corresponds : h.Corresponds g pairs) (v w : Value)
    (alike : h.Alike g pairs v w) : Agree (h.memberPlan v).trace (g.memberPlan w).trace := by
  have closures := alike.closure
  have classes := alike.classObject
  rw [memberPlan_eq, memberPlan_eq]
  generalize v.closure? = a, w.closure? = b at closures
  cases closures with
  | some paired =>
      dsimp only
      exact closurePlan_agrees corresponds (outermostClass_agrees corresponds) none paired
  | none =>
      dsimp only
      generalize v.class? = a, w.class? = b at classes
      cases classes with
      | none =>
          rw [Option.map_none, Option.map_none]
          exact .refl _
      | some paired =>
          rw [Option.map_some, Option.map_some, Option.getD_some, Option.getD_some]
          exact outermostClass_agrees corresponds _ _ paired

theorem modulePlan_agrees (corresponds : h.Corresponds g pairs) (i j : ModuleId)
    (paired : pairs (.moduleObject i) (.moduleObject j)) :
    Agree (h.modulePlan i).trace (g.modulePlan j).trace := by
  have modules := corresponds.modules i j paired
  have members := corresponds.moduleMembers i j
  rw [modulePlan, modulePlan]
  generalize h.module? i = m, g.module? j = n at modules members
  cases modules with
  | none => exact .refl _
  | @some m n name =>
      have matches_ := members m n paired rfl rfl
      dsimp only
      rw [name]
      rcases membersMatch_cases matches_ with lying | ⟨a, b, here, there, tables⟩
      · exact .andThen (membersPlan_agrees lying (memberPlan_agrees corresponds))
          (.andThen (.refl _) (.andThen (memberTable_agrees none matches_ "\n") (.refl _)))
      · obtain ⟨t, u, present, present', refused, refused'⟩ := tables
        refine .of_incomplete (fun complete => ?_) fun complete => ?_
        · simp only [Plan.trace_andThen, Trace.complete_append, here] at complete
          exact memberTable_incomplete present refused _ _ complete.2.2.1
        · simp only [Plan.trace_andThen, Trace.complete_append, there] at complete
          exact memberTable_incomplete present' refused' _ _ complete.2.2.1

inductive RootPair (pairs : Pairing) : Value → Value → Prop where
  | closure (i j : ClosureId) (paired : pairs (.closure i) (.closure j)) :
      RootPair pairs (.plain (.closure i)) (.plain (.closure j))
  | classObject (i j : ClassId) (paired : pairs (.classObject i) (.classObject j)) :
      RootPair pairs (.plain (.classObject i)) (.plain (.classObject j))
  | moduleObject (i j : ModuleId) (paired : pairs (.moduleObject i) (.moduleObject j)) :
      RootPair pairs (.plain (.moduleObject i)) (.plain (.moduleObject j))

/-- Dumps of roots that are paired agree. -/
theorem rootPlan_agrees (corresponds : h.Corresponds g pairs) {v w : Value}
    (paired : RootPair pairs v w) (context : Option String) :
    Agree (h.rootPlan v context).trace (g.rootPlan w context).trace := by
  cases paired with
  | closure i j paired =>
      exact closurePlan_agrees corresponds (outermostClass_agrees corresponds) context paired
  | classObject i j paired => exact outermostClass_agrees corresponds i j paired
  | moduleObject i j paired => exact modulePlan_agrees corresponds i j paired

end StaticImage.Heap
