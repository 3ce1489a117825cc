import StaticImage.Proofs.Snapshot.Fields

namespace StaticImage.Snapshot

open Load

variable {s : Scope} {h h' : Heap} {f : Field} {given : Given} {shown : String}

def Describes (s : Scope) (h : Heap) (shown : String) (given : Given) : Declared → Prop
  | .proto id => ∃ p, h.proto? id = some p ∧ ProtoFits s h shown given p
  | .closure id own =>
    (∃ c, h.closureAt? id = some c ∧ ClosureFits s h given own c) ∧
      ∀ id, own = some id → ∃ p, h.proto? id = some p ∧ ProtoFits s h shown given.own p
  | .classItem id => ∃ c, h.class? id = some c ∧ ClassFits s h shown given c
  | .moduleItem id => ∃ m, h.module? id = some m ∧ ModuleFits s h shown given m

theorem Describes.mono {d : Declared} (describes : Describes s h shown given d)
    (retains : Retains h h') (same : ∀ o ∈ d.objects, Heap.SameAt h h' o) :
    Describes s h' shown given d := by
  cases d with
  | proto id =>
      obtain ⟨p, present, fits⟩ := describes
      have here := same (.proto id) List.mem_cons_self
      exact ⟨p, Eq.trans here present, fits.mono retains⟩
  | closure id own =>
      obtain ⟨⟨c, present, fits⟩, its_own⟩ := describes
      have here := same (.closure id) List.mem_cons_self
      refine ⟨⟨c, Eq.trans here present, fits.mono retains⟩, fun other owned => ?_⟩
      obtain ⟨p, present, fits⟩ := its_own other owned
      have there := same (.proto other) (by simp [Declared.objects, owned])
      exact ⟨p, Eq.trans there present, fits.mono retains⟩
  | classItem id =>
      obtain ⟨c, present, fits⟩ := describes
      have here := same (.classObject id) List.mem_cons_self
      exact ⟨c, Eq.trans here present, fits.mono retains⟩
  | moduleItem id =>
      obtain ⟨m, present, fits⟩ := describes
      have here := same (.moduleObject id) List.mem_cons_self
      exact ⟨m, Eq.trans here present, fits.mono retains⟩

theorem not_aggregate (d : Declared) : ∀ o ∈ d.objects, o.isAggregate = false := by
  intro o member
  cases d <;> simp only [Declared.objects, List.mem_cons, List.not_mem_nil, or_false,
    List.mem_map, Option.mem_toList] at member
  case closure id own =>
    rcases member with rfl | ⟨other, _, rfl⟩
    · rfl
    · rfl
  all_goals
    subst member
    rfl

theorem extends_retains {d : Declared} (extends_ : h.Extends d.objects h') : Retains h h' :=
  .of_changes extends_.changes (not_aggregate d)

theorem proto?_modifyProto (h : Heap) (id : ProtoId) (g : Prototype → Prototype) :
    (h.modifyProto id g).proto? id = (h.proto? id).map g := by
  rw [Heap.proto?, Heap.modifyProto, Array.getElem?_modify, if_pos rfl]
  rfl

theorem protoField_describes {id : ProtoId} {effect : Load Unit} {p : Prototype}
    (found : protoField? s id f = some effect) (run : effect h = .ok ((), h')) (known : s.Known h)
    (present : h.proto? id = some p) (fits : ProtoFits s h shown given p) :
    h.Extends [.proto id] h' ∧ h'.builtins = h.builtins ∧
      ∃ q, h'.proto? id = some q ∧ ProtoFits s h' shown (given.with f) q := by
  obtain ⟨order, mid, g, grows, rfl, set⟩ := protoField_ok found run known
  have changed := mid.extends_modifyProto id g
  have same : Heap.SameAt h mid (.proto id) :=
    grows.changes.same _ ((h.has_proto_iff id).mpr ⟨p, present⟩) (by simp)
  have there : mid.proto? id = some p := Eq.trans same present
  refine ⟨(Heap.Extends.of_grows grows).trans changed, grows.builtins, g p, ?_, ?_⟩
  · rw [proto?_modifyProto, there, Option.map_some]
  · have retains : Retains mid (mid.modifyProto id g) :=
      .of_changes changed.changes (not_aggregate (.proto id))
    exact (set shown given p (fits.mono (grows_retains grows))).mono retains

theorem ProtoFits.with_foreign {p : Prototype} (fits : ProtoFits s h shown given p)
    (foreign : f.name.value = "proto") : ProtoFits s h shown (given.with f) p := by
  obtain ⟨a, b, c, d, e, f, g, h, i, j⟩ := fits
  constructor <;> simp only [Given.get_with, foreign, String.reduceEq, reduceIte] <;> assumption

theorem Given.own_with (own_field : ¬ (f.name.value = "upvals" ∧ areCaptured f.value.value)) :
    (given.with f).own = given.own.with f := by
  funext field
  by_cases upvalues : field = "upvals"
  · subst upvalues
    by_cases here : "upvals" = f.name.value
    · have pairs : f.value.value.form.isCaptured = false := by
        rw [← areCaptured_eq]
        simpa [here.symm] using own_field
      simp [own, Given.with, here, pairs]
    · simp [own, Given.with, here]
  · simp [own, Given.with, upvalues]

theorem Given.own_with_captured (name : f.name.value = "upvals")
    (captured : areCaptured f.value.value) (fresh : given f.name.value = none) :
    (given.with f).own = given.own := by
  rw [areCaptured_eq] at captured
  rw [name] at fresh
  funext field
  by_cases upvalues : field = "upvals"
  · subst upvalues
    simp [own, Given.with, name, captured, fresh]
  · simp [own, Given.with, name, upvalues]

section

variable {own : Option ProtoId} {c : Closure} (fits : ClosureFits s h given own c)

include fits

theorem ClosureFits.with_proto {x : ProtoId} (name : f.name.value = "proto")
    (named : s.NamesProto f.value.value.form x) :
    ClosureFits s h (given.with f) own { c with proto := x } := by
  have upvalues (default : Form) :
      (given.with f).get "upvals" default = given.get "upvals" default := by
    simp [Given.get_with, name]
  have proto : (given.with f) "proto" = some f.value.value.form := by simp [Given.with, name]
  refine ⟨?_, ?_, fun g here => ?_, fun none => ?_⟩
  · rw [upvalues]
    exact fits.captured
  · rw [upvalues]
    exact fits.pairs
  · cases proto.symm.trans here
    exact named
  · cases proto.symm.trans none

theorem ClosureFits.with_captured {values : List Value} {items : List Form}
    (name : f.name.value = "upvals") (captured : areCaptured f.value.value)
    (form : f.value.value.form = .list items) (means : s.MeansAll h items values) :
    ClosureFits s h (given.with f) own { c with captured := values } := by
  rw [areCaptured_eq] at captured
  have upvalues (default : Form) : (given.with f).get "upvals" default = f.value.value.form := by
    rw [Given.get_with, if_pos name.symm]
  have proto : (given.with f) "proto" = given "proto" := by simp [Given.with, name]
  refine ⟨fun _ => ?_, fun pairs => ?_, ?_, ?_⟩
  · rw [upvalues]
    exact ⟨items, form, means⟩
  · rw [upvalues, captured] at pairs
    cases pairs
  · rw [proto]
    exact fits.proto
  · rw [proto]
    exact fits.own

theorem ClosureFits.with_own (not_proto : f.name.value ≠ "proto")
    (own_field : ¬ (f.name.value = "upvals" ∧ areCaptured f.value.value))
    (fresh : given f.name.value = none) : ClosureFits s h (given.with f) own c := by
  have proto : (given.with f) "proto" = given "proto" := by
    simp [Given.with, Ne.symm not_proto]
  refine ⟨fun captured => ?_, fun pairs => ?_, by rw [proto]; exact fits.proto,
    by rw [proto]; exact fits.own⟩
  · by_cases name : f.name.value = "upvals"
    · rw [Given.get_with, if_pos name.symm, ← areCaptured_eq] at captured
      exact (own_field ⟨name, captured⟩).elim
    · rw [Given.get_with, if_neg (Ne.symm name)] at captured ⊢
      exact fits.captured captured
  · by_cases name : f.name.value = "upvals"
    · have default : given.get "upvals" (.list []) = .list [] := by
        rw [name] at fresh
        rw [Given.get, fresh, Option.getD_none]
      obtain ⟨items, form, means⟩ := fits.captured (by rw [default]; rfl)
      rw [default] at form
      cases form
      exact means
    · rw [Given.get_with, if_neg (Ne.symm name)] at pairs
      exact fits.pairs pairs

end

theorem closureAt?_modifyClosure (h : Heap) (id : ClosureId) (g : Closure → Closure) :
    (h.modifyClosure id g).closureAt? id = (h.closureAt? id).map g := by
  rw [Heap.closureAt?, Heap.modifyClosure, Array.getElem?_modify, if_pos rfl]
  rfl

theorem Describes.set_closure {id : ClosureId} {own : Option ProtoId}
    (describes : Describes s h shown given (.closure id own)) {order : List ObjectId} {mid : Heap}
    (g : Closure → Closure) (grows : h.Grows order mid)
    (owns : ∀ p, ProtoFits s mid shown given.own p → ProtoFits s mid shown (given.with f).own p)
    (fits : ∀ c, ClosureFits s mid given own c → ClosureFits s mid (given.with f) own (g c)) :
    h.Extends (Declared.closure id own).objects (mid.modifyClosure id g) ∧
      (mid.modifyClosure id g).builtins = h.builtins ∧
      Describes s (mid.modifyClosure id g) shown (given.with f) (.closure id own) := by
  obtain ⟨⟨c, present, c_fits⟩, its_own⟩ := describes
  have changed := mid.extends_modifyClosure id g
  have retains : Retains mid (mid.modifyClosure id g) :=
    .of_changes changed.changes (not_aggregate (.closure id none))
  have has : h.Has (.closure id) := (h.has_closure_iff id).mpr ⟨c, present⟩
  have there : mid.closureAt? id = some c :=
    Eq.trans (grows.changes.same (.closure id) has (by simp)) present
  refine ⟨(Heap.Extends.of_grows grows).trans (changed.mono (by simp [Declared.objects])),
    grows.builtins, ⟨g c, ?_, ?_⟩, fun other owned => ?_⟩
  · rw [closureAt?_modifyClosure, there, Option.map_some]
  · exact (fits c (c_fits.mono (grows_retains grows))).mono retains
  · obtain ⟨p, proto, p_fits⟩ := its_own other owned
    have other_has : h.Has (.proto other) := (h.has_proto_iff other).mpr ⟨p, proto⟩
    have now : mid.proto? other = some p :=
      Eq.trans (grows.changes.same (.proto other) other_has (by simp)) proto
    exact ⟨p, now, (owns p (p_fits.mono (grows_retains grows))).mono retains⟩

theorem closureField_describes {id : ClosureId} {own : Option ProtoId} {effect : Load Unit}
    (found : closureField? s id own f = some effect) (run : effect h = .ok ((), h'))
    (known : s.Known h) (fresh : given f.name.value = none)
    (describes : Describes s h shown given (.closure id own)) :
    h.Extends (Declared.closure id own).objects h' ∧ h'.builtins = h.builtins ∧
      Describes s h' shown (given.with f) (.closure id own) := by
  unfold closureField? at found
  dsimp only at found
  split at found
  · rename_i name
    cases found
    obtain ⟨x, _, read, run⟩ := bind_ok run
    obtain ⟨rfl, named⟩ := protoRef_ok read
    cases modify_ok run
    refine describes.set_closure _ .same (fun p fits => ?_) fun c fits =>
      fits.with_proto name named
    rw [Given.own_with (by simp [name])]
    exact fits.with_foreign name
  · rename_i not_proto
    split at found
    · rename_i captured
      cases found
      obtain ⟨x, mid, read, run⟩ := bind_ok run
      obtain ⟨order, items, grows, form, means⟩ := valuesOf_ok read known
      cases modify_ok run
      refine describes.set_closure _ grows (fun p fits => ?_) fun c fits =>
        fits.with_captured captured.1 captured.2 form means
      rw [Given.own_with_captured captured.1 captured.2 fresh]
      exact fits
    · rename_i own_field
      obtain ⟨p, owned, found⟩ := Option.bind_eq_some_iff.mp found
      obtain ⟨⟨c, present, fits⟩, its_own⟩ := describes
      obtain ⟨q, there, q_fits⟩ := its_own p owned
      obtain ⟨extends_, builtins, q', now, q'_fits⟩ :=
        protoField_describes found run known there q_fits
      have retains : Retains h h' := .of_changes extends_.changes (not_aggregate (.proto p))
      have has : h.Has (.closure id) := (h.has_closure_iff id).mpr ⟨c, present⟩
      have still : h'.closureAt? id = some c :=
        Eq.trans (extends_.changes.same (.closure id) has (by simp)) present
      refine ⟨extends_.mono (by simp [Declared.objects, owned]), builtins,
        ⟨c, still, (fits.with_own not_proto own_field fresh).mono retains⟩, fun other own => ?_⟩
      cases owned.symm.trans own
      rw [Given.own_with own_field]
      exact ⟨q', now, q'_fits⟩

theorem class?_modifyClass (h : Heap) (id : ClassId) (g : ClassObject → ClassObject) :
    (h.modifyClass id g).class? id = (h.class? id).map g := by
  rw [Heap.class?, Heap.modifyClass, Array.getElem?_modify, if_pos rfl]
  rfl

theorem module?_modifyModule (h : Heap) (id : ModuleId) (g : ModuleObject → ModuleObject) :
    (h.modifyModule id g).module? id = (h.module? id).map g := by
  rw [Heap.module?, Heap.modifyModule, Array.getElem?_modify, if_pos rfl]
  rfl

theorem field_describes {d : Declared} {effect : Load Unit}
    (found : field? s f (some d) = some effect) (run : effect h = .ok ((), h'))
    (known : s.Known h) (fresh : given f.name.value = none)
    (describes : Describes s h shown given d) :
    h.Extends d.objects h' ∧ h'.builtins = h.builtins ∧
      Describes s h' shown (given.with f) d := by
  cases d with
  | proto id =>
      obtain ⟨p, present, fits⟩ := describes
      exact protoField_describes found run known present fits
  | closure id own => exact closureField_describes found run known fresh describes
  | classItem id =>
      obtain ⟨c, present, fits⟩ := describes
      obtain ⟨order, mid, g, grows, rfl, set⟩ := classField_ok found run known
      have changed := mid.extends_modifyClass id g
      have retains : Retains mid (mid.modifyClass id g) :=
        .of_changes changed.changes (not_aggregate (.classItem id))
      have there : mid.class? id = some c := Eq.trans
        (grows.changes.same (.classObject id) ((h.has_class_iff id).mpr ⟨c, present⟩) (by simp))
        present
      refine ⟨(Heap.Extends.of_grows grows).trans changed, grows.builtins, g c, ?_, ?_⟩
      · rw [class?_modifyClass, there, Option.map_some]
      · exact (set shown given c (fits.mono (grows_retains grows))).mono retains
  | moduleItem id =>
      obtain ⟨m, present, fits⟩ := describes
      obtain ⟨order, mid, g, grows, rfl, set⟩ := moduleField_ok found run known
      have changed := mid.extends_modifyModule id g
      have retains : Retains mid (mid.modifyModule id g) :=
        .of_changes changed.changes (not_aggregate (.moduleItem id))
      have there : mid.module? id = some m := Eq.trans
        (grows.changes.same (.moduleObject id) ((h.has_module_iff id).mpr ⟨m, present⟩) (by simp))
        present
      refine ⟨(Heap.Extends.of_grows grows).trans changed, grows.builtins, g m, ?_, ?_⟩
      · rw [module?_modifyModule, there, Option.map_some]
      · exact (set shown given m (fits.mono (grows_retains grows))).mono retains

def Given.after (given : Given) (fields : List Field) : Given := fun field =>
  ((fields.map fun f => (f.name.value, f.value.value.form)).lookup field).or (given field)

theorem Given.after_cons (given : Given) (fields : List Field)
    (distinct : f.name.value ∉ fields.map fun f => f.name.value) :
    (given.with f).after fields = given.after (f :: fields) := by
  funext field
  rw [after, after, List.map_cons, List.lookup_cons, Given.with]
  by_cases here : field = f.name.value
  · have absent : (fields.map fun f => (f.name.value, f.value.value.form)).lookup field = none := by
      rw [List.lookup_eq_none_iff]
      intro p member
      obtain ⟨g, inside, rfl⟩ := List.mem_map.mp member
      rw [here, bne_iff_ne]
      intro same
      exact distinct (same ▸ List.mem_map_of_mem inside)
    rw [absent, if_pos here, here]
    simp
  · have other : (field == f.name.value) = false := beq_eq_false_iff_ne.mpr here
    rw [if_neg here, other]

theorem duplicate?_eq_none (seen : List String) (fields : List Field)
    (none : duplicate? seen fields = none) :
    (fields.map fun f => f.name.value).Nodup ∧ ∀ f ∈ fields, f.name.value ∉ seen := by
  induction fields generalizing seen with
  | nil => simp
  | cons f fields ih =>
      rw [duplicate?] at none
      split at none
      · cases none
      · rename_i fresh
        obtain ⟨distinct, unseen⟩ := ih _ none
        have later (g : Field) (member : g ∈ fields) :
            g.name.value ≠ f.name.value ∧ g.name.value ∉ seen := by
          simpa using unseen g member
        refine ⟨List.nodup_cons.mpr ⟨fun member => ?_, distinct⟩, fun g member => ?_⟩
        · obtain ⟨g, inside, same⟩ := List.mem_map.mp member
          exact (later g inside).1 same
        · rcases List.mem_cons.mp member with rfl | inside
          · exact fresh
          · exact (later g inside).2

theorem fields_describe {d : Declared} {i : Item} (fields : List Field)
    (run : (fields.forM fun f =>
      match field? s f (some d) with
      | some effect => effect
      | none => fail (.unknownField i.kind.value f.name.value) f.name.span : Load Unit) h =
        .ok ((), h'))
    (known : s.Known h) (distinct : (fields.map fun f => f.name.value).Nodup)
    (fresh : ∀ f ∈ fields, given f.name.value = none) (describes : Describes s h shown given d) :
    h.Extends d.objects h' ∧ h'.builtins = h.builtins ∧
      Describes s h' shown (given.after fields) d := by
  induction fields generalizing h given with
  | nil =>
      obtain ⟨_, rfl⟩ := pure_ok run
      exact ⟨.refl h d.objects, rfl, describes⟩
  | cons f fields ih =>
      obtain ⟨⟨⟩, mid, first, run⟩ := bind_ok run
      cases found : field? s f (some d) with
      | none =>
          simp only [found] at first
          exact (fail_ok first).elim
      | some effect =>
          simp only [found] at first
          obtain ⟨extends_, builtins, now⟩ := field_describes found first known
            (fresh f List.mem_cons_self) describes
          rw [List.map_cons, List.nodup_cons] at distinct
          have still_fresh (g : Field) (member : g ∈ fields) :
              (given.with f) g.name.value = none := by
            have other : g.name.value ≠ f.name.value := fun same =>
              distinct.1 (same ▸ List.mem_map_of_mem member)
            rw [Given.with, if_neg other]
            exact fresh g (List.mem_cons_of_mem f member)
          obtain ⟨further, same_builtins, later⟩ := ih run (known.mono extends_.changes) distinct.2
            still_fresh now
          rw [Given.after_cons given fields distinct.1] at later
          exact ⟨extends_.trans further, same_builtins.trans builtins, later⟩

theorem Item.given_distinct {i : Item} (duplicate : duplicate? [] i.fields = none) :
    (i.given.map Prod.fst).Nodup := by
  have names : i.given.map Prod.fst = i.fields.map fun f => f.name.value := by
    rw [Item.given, List.map_map]
    rfl
  rw [names]
  exact (duplicate?_eq_none [] i.fields duplicate).1

theorem define_distinct {i : Item} {what : Option Declared}
    (run : define s i what h = .ok ((), h')) : (i.given.map Prod.fst).Nodup := by
  unfold define at run
  cases duplicate : duplicate? [] i.fields with
  | some f =>
      simp only [duplicate] at run
      exact (fail_ok run).elim
  | none => exact Item.given_distinct duplicate

/-- Defining an item makes its objects fit all of its fields. -/
theorem define_describes {d : Declared} {i : Item}
    (run : define s i (some d) h = .ok ((), h')) (known : s.Known h)
    (declared : Describes s h shown (fun _ => none) d) :
    h.Extends d.objects h' ∧ h'.builtins = h.builtins ∧
      Describes s h' shown (fun field => i.given.lookup field) d := by
  unfold define at run
  cases duplicate : duplicate? [] i.fields with
  | some f =>
      simp only [duplicate] at run
      exact (fail_ok run).elim
  | none =>
      simp only [duplicate] at run
      obtain ⟨distinct, _⟩ := duplicate?_eq_none [] i.fields duplicate
      obtain ⟨extends_, builtins, describes⟩ := fields_describe i.fields run known distinct
        (fun _ _ => rfl) declared
      have given : Given.after (fun _ => none) i.fields = fun field => i.given.lookup field := by
        funext field
        exact Option.or_none
      rw [given] at describes
      exact ⟨extends_, builtins, describes⟩

end StaticImage.Snapshot
