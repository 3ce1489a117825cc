import StaticImage.Proofs.Snapshot.Graph
import StaticImage.Proofs.Snapshot.Visits

namespace StaticImage.Snapshot

open Load

def Expr.elements : Expr → List (Located Expr)
  | .list items => items
  | _ => []

def membersOf (e : Located Expr) : List (Located Expr) :=
  match e.value with
  | .map _ => [e]
  | _ => []

def Field.valued (f : Field) : Option Declared → List (Located Expr)
  | some (.proto _) => if f.name.value = "consts" then f.value.value.elements else []
  | some (.closure _ _) =>
    if f.name.value = "consts" ∨ f.name.value = "upvals" ∧ areCaptured f.value.value then
      f.value.value.elements
    else []
  | some (.classItem _) => if f.name.value = "members" then membersOf f.value else []
  | some (.moduleItem _) => if f.name.value = "members" then membersOf f.value else []
  | none => []

def fieldVisits (s : Scope) (what : Option Declared) : List Field → Heap → List Visit
  | [], _ => []
  | f :: fields, h =>
    itemVisits s (f.valued what) h ++
      match field? s f what with
      | some effect => following (effect h) (fieldVisits s what fields)
      | none => []

def Item.evaluated (i : Item) (what : Option Declared) : List (Located Expr) :=
  i.fields.flatMap fun f => itemsEvaluated (f.valued what)

def defineVisits (s : Scope) : List (Item × Option Declared) → Heap → List Visit
  | [], _ => []
  | (i, what) :: items, h =>
    fieldVisits s what i.fields h ++ following (define s i what h) (defineVisits s items)

def evaluatedOf (items : List Item) : List (Located Expr) :=
  (declaredOf items).flatMap fun (i, what) => i.evaluated what

def visitsOf (host : Host) (items : List Item) : List Visit :=
  defineVisits (scopeOf host items) (declaredOf items) (heapOf items)

section

variable {s : Scope} {h h' : Heap} {f : Field} {effect : Load Unit}

theorem valuesOf_values {e : Located Expr} {vs : List Value}
    (run : valuesOf s e h = .ok (vs, h')) : values s e.value.elements h = .ok (vs, h') := by
  obtain ⟨items, _, listed, run⟩ := bind_ok run
  obtain ⟨rfl, list⟩ := listOf_ok listed
  rw [list]
  exact run

def Valued (s : Scope) (expressions : List (Located Expr)) (h h' : Heap) : Prop :=
  ∃ vs mid, values s expressions h = .ok (vs, mid) ∧ Keeps mid h'

theorem Valued.nothing (keeps : Keeps h h') : Valued s [] h h' :=
  ⟨[], h, rfl, keeps⟩

theorem keeps_modifyProto (id : ProtoId) (g : Prototype → Prototype) :
    Keeps h (h.modifyProto id g) :=
  .of_changes (h.extends_modifyProto id g).changes (not_aggregate (.proto id))

theorem keeps_modifyClosure (id : ClosureId) (g : Closure → Closure) :
    Keeps h (h.modifyClosure id g) :=
  .of_changes (h.extends_modifyClosure id g).changes (not_aggregate (.closure id none))

theorem keeps_modifyClass (id : ClassId) (g : ClassObject → ClassObject) :
    Keeps h (h.modifyClass id g) :=
  .of_changes (h.extends_modifyClass id g).changes (not_aggregate (.classItem id))

theorem keeps_modifyModule (id : ModuleId) (g : ModuleObject → ModuleObject) :
    Keeps h (h.modifyModule id g) :=
  .of_changes (h.extends_modifyModule id g).changes (not_aggregate (.moduleItem id))

theorem protoField_valued {id : ProtoId} (found : protoField? s id f = some effect)
    (run : effect h = .ok ((), h')) (known : s.Known h) :
    Valued s (f.valued (some (.proto id))) h h' := by
  by_cases name : f.name.value = "consts"
  · have all : f.valued (some (.proto id)) = f.value.value.elements := if_pos name
    simp only [protoField?, name] at found
    cases found
    obtain ⟨vs, mid, read, run⟩ := bind_ok run
    cases modify_ok run
    rw [all]
    exact ⟨vs, mid, valuesOf_values read, keeps_modifyProto id _⟩
  · have none : f.valued (some (.proto id)) = [] := if_neg name
    obtain ⟨order, mid, g, grows, rfl, _⟩ := protoField_ok found run known
    rw [none]
    exact .nothing ((Keeps.of_grows grows).trans (keeps_modifyProto id g))

theorem closureField_valued {id : ClosureId} {own : Option ProtoId}
    (found : closureField? s id own f = some effect) (run : effect h = .ok ((), h'))
    (known : s.Known h) : Valued s (f.valued (some (.closure id own))) h h' := by
  unfold closureField? at found
  dsimp only at found
  split at found
  · rename_i name
    cases found
    obtain ⟨proto, _, read, run⟩ := bind_ok run
    obtain ⟨rfl, _⟩ := protoRef_ok read
    cases modify_ok run
    have none : f.valued (some (.closure id own)) = [] := by simp [Field.valued, name]
    rw [none]
    exact .nothing (keeps_modifyClosure id _)
  · split at found
    · rename_i captured
      cases found
      obtain ⟨vs, mid, read, run⟩ := bind_ok run
      cases modify_ok run
      have all : f.valued (some (.closure id own)) = f.value.value.elements :=
        if_pos (Or.inr captured)
      rw [all]
      exact ⟨vs, mid, valuesOf_values read, keeps_modifyClosure id _⟩
    · rename_i own_field
      obtain ⟨p, _, found⟩ := Option.bind_eq_some_iff.mp found
      have same : f.valued (some (.closure id own)) = f.valued (some (.proto p)) := by
        simp only [Field.valued, own_field, or_false]
      rw [same]
      exact protoField_valued found run known

theorem optionalMap_valued {e : Located Expr} {id? : Option MapId}
    (run : optionalMap s e h = .ok (id?, h')) : Valued s (membersOf e) h h' := by
  obtain ⟨e, span⟩ := e
  cases e with
  | nil =>
      obtain ⟨_, rfl⟩ := pure_ok run
      exact .nothing (.refl h)
  | map entries =>
      obtain ⟨v, mid, evaluated, run⟩ := bind_ok run
      have single : values s [⟨.map entries, span⟩] h = .ok ([v], mid) := by
        change (valueOf s ⟨.map entries, span⟩ h >>= fun p => Except.ok ([p.1], p.2)) = _
        rw [evaluated]
        rfl
      cases data : v.data with
      | map id =>
          simp only [data] at run
          obtain ⟨_, rfl⟩ := pure_ok run
          exact ⟨[v], mid, single, .refl mid⟩
      | _ =>
          simp only [data] at run
          exact (mismatch_ok run).elim
  | _ => exact (mismatch_ok run).elim

theorem classField_valued {id : ClassId} (found : classField? s id f = some effect)
    (run : effect h = .ok ((), h')) (known : s.Known h) :
    Valued s (f.valued (some (.classItem id))) h h' := by
  by_cases name : f.name.value = "members"
  · have all : f.valued (some (.classItem id)) = membersOf f.value := if_pos name
    simp only [classField?, name] at found
    cases found
    obtain ⟨members, mid, read, run⟩ := bind_ok run
    cases modify_ok run
    obtain ⟨vs, after, evaluated, keeps⟩ := optionalMap_valued read
    rw [all]
    exact ⟨vs, after, evaluated, keeps.trans (keeps_modifyClass id _)⟩
  · have none : f.valued (some (.classItem id)) = [] := if_neg name
    obtain ⟨order, mid, g, grows, rfl, _⟩ := classField_ok found run known
    rw [none]
    exact .nothing ((Keeps.of_grows grows).trans (keeps_modifyClass id g))

theorem moduleField_valued {id : ModuleId} (found : moduleField? s id f = some effect)
    (run : effect h = .ok ((), h')) (known : s.Known h) :
    Valued s (f.valued (some (.moduleItem id))) h h' := by
  by_cases name : f.name.value = "members"
  · have all : f.valued (some (.moduleItem id)) = membersOf f.value := if_pos name
    simp only [moduleField?, name] at found
    cases found
    obtain ⟨members, mid, read, run⟩ := bind_ok run
    cases modify_ok run
    obtain ⟨vs, after, evaluated, keeps⟩ := optionalMap_valued read
    rw [all]
    exact ⟨vs, after, evaluated, keeps.trans (keeps_modifyModule id _)⟩
  · have none : f.valued (some (.moduleItem id)) = [] := if_neg name
    obtain ⟨order, mid, g, grows, rfl, _⟩ := moduleField_ok found run known
    rw [none]
    exact .nothing ((Keeps.of_grows grows).trans (keeps_modifyModule id g))

theorem field_valued {what : Option Declared} (found : field? s f what = some effect)
    (run : effect h = .ok ((), h')) (known : s.Known h) : Valued s (f.valued what) h h' := by
  unfold field? at found
  split at found
  · exact protoField_valued found run known
  · exact closureField_valued found run known
  · exact classField_valued found run known
  · exact moduleField_valued found run known
  · obtain ⟨_, names, _, rfl⟩ := builtinsField_ok found run
    exact .nothing (.of_changes (extends_builtins _ names).changes (by simp))

theorem fields_visits {i : Item} {what : Option Declared} (fields : List Field)
    (run : (fields.forM fun f =>
      match field? s f what with
      | some effect => effect
      | none => fail (.unknownField i.kind.value f.name.value) f.name.span : Load Unit) h =
        .ok ((), h'))
    (known : s.Known h) :
    Follows s (fieldVisits s what fields h)
      (fields.flatMap fun f => itemsEvaluated (f.valued what)) h' ∧ Keeps h h' := by
  induction fields generalizing h with
  | nil =>
      obtain ⟨_, rfl⟩ := pure_ok run
      exact ⟨.nil, .refl _⟩
  | cons f fields ih =>
      obtain ⟨⟨⟩, mid, first, run⟩ := bind_ok run
      rw [fieldVisits, List.flatMap_cons]
      cases found : field? s f what with
      | none =>
          simp only [found] at first
          exact (fail_ok first).elim
      | some effect =>
          simp only [found] at first
          obtain ⟨vs, after, evaluated, keeps⟩ := field_valued found first known
          obtain ⟨order, grows, _⟩ := values_ok _ vs h after known evaluated
          have here := (Keeps.of_grows grows).trans keeps
          obtain ⟨later, further⟩ := ih run (here.known known)
          dsimp only
          rw [first]
          refine ⟨Follows.append ?_ later, here.trans further⟩
          exact (values_visits _ vs h after known evaluated).later (keeps.trans further)

theorem define_visits {i : Item} {what : Option Declared}
    (run : define s i what h = .ok ((), h')) (known : s.Known h) :
    Follows s (fieldVisits s what i.fields h) (i.evaluated what) h' ∧ Keeps h h' := by
  unfold define at run
  cases duplicate : duplicate? [] i.fields with
  | some f =>
      simp only [duplicate] at run
      exact (fail_ok run).elim
  | none =>
      simp only [duplicate] at run
      exact fields_visits i.fields run known

theorem defineAll_visits (declared : List (Item × Option Declared))
    (run : defineAll s h declared = ([], h')) (known : s.Known h) :
    Follows s (defineVisits s declared h) (declared.flatMap fun (i, what) => i.evaluated what) h' ∧
      Keeps h h' := by
  induction declared generalizing h with
  | nil =>
      cases run
      exact ⟨.nil, .refl _⟩
  | cons entry declared ih =>
      obtain ⟨i, what⟩ := entry
      rw [defineAll] at run
      cases defined : define s i what h with
      | error problem =>
          rw [defined] at run
          cases run
      | ok outcome =>
          obtain ⟨⟨⟩, mid⟩ := outcome
          rw [defined] at run
          obtain ⟨here, keeps⟩ := define_visits defined known
          obtain ⟨later, further⟩ := ih run (keeps.known known)
          rw [defineVisits, List.flatMap_cons, defined]
          exact ⟨(here.later further).append later, keeps.trans further⟩

/-- All that is evaluated when items are lowered is still there in the loaded heap. -/
theorem Lowers.visits {host : Host} {items : List Item} {loaded : Loaded}
    (lowers : Lowers host items loaded) :
    Follows (scopeOf host items) (visitsOf host items) (evaluatedOf items) loaded.heap :=
  (defineAll_visits _ lowers.defined lowers.known).1

end

end StaticImage.Snapshot
