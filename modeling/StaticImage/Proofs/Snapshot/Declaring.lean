import StaticImage.Proofs.Snapshot.Describing

namespace StaticImage.Snapshot

namespace Item

def title (i : Item) : String :=
  match itemName i with
  | .ok (name, _, _) => name
  | .error _ => ""

def shown (i : Item) : String :=
  match itemName i with
  | .ok (_, _, shown) => shown
  | .error _ => ""

def DeclaredAs (i : Item) : Option Declared → Prop
  | some (.proto _) => i.kind.value = "proto"
  | some (.closure _ own) =>
    i.kind.value = "closure" ∧ own.isNone = (i.given.lookup "proto").isSome
  | some (.classItem _) => i.kind.value = "class"
  | some (.moduleItem _) => i.kind.value = "module"
  | none => i.kind.value = "builtins"

theorem lookup_given (i : Item) (name : String) :
    i.given.lookup name = (i.field? name).map fun f => f.value.value.form := by
  unfold given field?
  induction i.fields with
  | nil => rfl
  | cons f fields ih =>
      rw [List.map_cons, List.lookup_cons, List.find?_cons, ih, BEq.comm]
      split <;> simp_all

end Item

/-- New objects for an item, which fit it as if it had no fields. -/
structure Introduces (i : Item) (h : Heap) (d : Declared) (h' : Heap) : Prop where
  fresh : ∀ o ∈ d.objects, ¬ h.Has o
  has : ∀ x, h'.Has x ↔ h.Has x ∨ x ∈ d.objects
  same : ∀ x, h.Has x → Heap.SameAt h h' x
  builtins : h'.builtins = h.builtins
  built : ∀ order, h.Built order → ∃ more, h'.Built (order ++ more)
  describes : ∀ s, Describes s h' i.shown (fun _ => none) d
  kind : i.DeclaredAs (some d)

variable {h h' : Heap} {i : Item} {d : Declared}

theorem protoFits_named (s : Scope) (h : Heap) (shown : String) :
    ProtoFits s h shown (fun _ => none) (.named shown) :=
  ⟨rfl, rfl, rfl, rfl, rfl, ⟨[], rfl, .nil⟩, ⟨[], rfl, .nil⟩, Or.inl ⟨rfl, rfl⟩,
    ⟨[], rfl, by rw [Scope.MeansAll]; rfl⟩, ⟨[], rfl, .nil⟩⟩

theorem Given.own_none : Given.own (fun _ => none) = fun _ => none := by
  funext field
  simp [own]

theorem built_item {o : ObjectId} {order : List ObjectId} (allocates : h.Allocates o h')
    (kind : o.isAggregate = false) (built : h.Built order) : h'.Built (order ++ [o]) := by
  refine .allocate order h o h' built allocates (fun aggregate => ?_) fun id _ same _ => ?_
  · rw [kind] at aggregate
    cases aggregate
  · subst same
    cases kind

theorem introduces_one {o : ObjectId} (allocates : h.Allocates o h') (single : d.objects = [o])
    (describes : ∀ s, Describes s h' i.shown (fun _ => none) d) (kind : i.DeclaredAs (some d)) :
    Introduces i h d h' := by
  have plain : o.isAggregate = false := not_aggregate d o (by rw [single]; exact List.mem_cons_self)
  refine ⟨?_, ?_, allocates.same, allocates.builtins,
    fun order built => ⟨[o], built_item allocates plain built⟩, describes, kind⟩
  · rw [single]
    intro x member
    cases List.mem_singleton.mp member
    exact allocates.fresh
  · rw [single]
    intro x
    rw [List.mem_singleton]
    exact allocates.has x

theorem kind_name {kind : Kind} (found : itemKind i = .ok kind) : i.kind.value = kind.name := by
  unfold itemKind at found
  split at found
  · rename_i other known
    cases found
    have same := List.find?_some known
    exact (beq_iff_eq.mp same).symm
  · cases found

theorem allocate_introduces {kind : Kind} (found : itemKind i = .ok kind)
    (allocated : allocate h i i.shown kind = some (d, h')) : Introduces i h d h' := by
  have named := kind_name found
  cases kind with
  | builtins => cases allocated
  | proto =>
      cases allocated
      refine introduces_one (h.allocates_proto _) rfl (fun s => ?_) named
      exact ⟨.named i.shown, Array.getElem?_push_size, protoFits_named s _ i.shown⟩
  | classKind =>
      cases allocated
      refine introduces_one (h.allocates_class _) rfl (fun s => ?_) named
      exact ⟨_, Array.getElem?_push_size, rfl, rfl, Or.inl ⟨rfl, rfl⟩, Or.inl ⟨rfl, rfl⟩⟩
  | moduleKind =>
      cases allocated
      refine introduces_one (h.allocates_module _) rfl (fun s => ?_) named
      exact ⟨_, Array.getElem?_push_size, ⟨i.shown, rfl, rfl⟩, Or.inl ⟨rfl, rfl⟩⟩
  | closure =>
      have fits (s : Scope) (h : Heap) (proto : ProtoId) (own : Option ProtoId)
          (same : ∀ id, own = some id → proto = id) :
          ClosureFits s h (fun _ => none) own ⟨proto, []⟩ :=
        ⟨fun _ => ⟨[], rfl, by rw [Scope.MeansAll]⟩, fun _ => rfl, fun _ none => (by cases none),
          fun _ => same⟩
      unfold allocate at allocated
      dsimp only at allocated
      split at allocated
      · rename_i given
        cases allocated
        refine introduces_one (h.allocates_closure _) rfl (fun s => ?_) ⟨named, ?_⟩
        · refine ⟨⟨_, Array.getElem?_push_size, fits s _ .null none (by simp)⟩, by simp⟩
        · rw [Item.lookup_given, Option.isSome_map, given]
          rfl
      · rename_i given
        cases allocated
        have first := h.allocates_proto (.named i.shown)
        have second := (h.addProto (.named i.shown)).2.allocates_closure
          ⟨(h.addProto (.named i.shown)).1, []⟩
        refine ⟨?_, fun x => ?_, fun x has => ?_, rfl, fun order built => ?_, fun s => ?_,
          named, ?_⟩
        · intro o member
          rcases List.mem_cons.mp member with rfl | member
          · exact fun has => second.fresh ((first.has _).mpr (Or.inl has))
          · cases List.mem_singleton.mp member
            exact first.fresh
        · rw [second.has, first.has, or_assoc, or_comm (a := x = _)]
          simp [Declared.objects, Heap.addProto, Heap.addClosure]
        · exact (first.same x has).trans (second.same x ((first.has x).mpr (Or.inl has)))
        · have both := built_item second rfl (built_item first rfl built)
          rw [List.append_assoc] at both
          exact ⟨_, both⟩
        · refine ⟨⟨_, Array.getElem?_push_size, fits s _ _ _ (by rintro id ⟨⟩; rfl)⟩, ?_⟩
          rintro id ⟨⟩
          rw [Given.own_none]
          exact ⟨_, Array.getElem?_push_size, protoFits_named s _ i.shown⟩
        · rw [Item.lookup_given, Option.isSome_map]
          simpa using given

theorem declare_ok {before after : Declarations} {what : Option Declared}
    (run : declare before i = .ok (what, after)) :
    (what = none ∧ after = before ∧ i.DeclaredAs none) ∨
      ∃ d, what = some d ∧ before.names.lookup i.title = none ∧
        after.names = before.names ++ [(i.title, d)] ∧
        Introduces i before.heap d after.heap := by
  unfold declare at run
  cases kind : itemKind i with
  | error problem =>
      rw [kind] at run
      cases run
  | ok kind' =>
      have tables (same : kind' = .builtins) : i.DeclaredAs none := by
        subst same
        exact kind_name kind
      rw [kind] at run
      dsimp only [Bind.bind, Except.bind] at run
      split at run
      · rename_i same
        cases run
        exact Or.inl ⟨rfl, rfl, tables same⟩
      · rename_i other
        cases named : itemName i with
        | error problem =>
            rw [named] at run
            cases run
        | ok parts =>
            obtain ⟨name, span, shown⟩ := parts
            have title : i.title = name := by rw [Item.title, named]
            have shows : i.shown = shown := by rw [Item.shown, named]
            rw [named] at run
            dsimp only at run
            split at run
            · cases run
            · rename_i unknown
              cases made : allocate before.heap i shown kind' with
              | none =>
                  cases kind' with
                  | builtins => exact (other rfl).elim
                  | closure =>
                      unfold allocate at made
                      dsimp only at made
                      split at made <;> cases made
                  | _ => cases made
              | some both =>
                  obtain ⟨d, h⟩ := both
                  rw [made] at run
                  cases run
                  rw [← shows] at made
                  rw [title]
                  exact Or.inr ⟨d, rfl, Option.not_isSome_iff_eq_none.mp unknown, rfl,
                    allocate_introduces kind made⟩

def namesOf (declared : List (Item × Option Declared)) : List (String × Declared) :=
  declared.filterMap fun (i, what) => what.map fun d => (i.title, d)

structure Tracks (d : Declarations) (declared : List (Item × Option Declared)) : Prop where
  names : d.names = namesOf declared
  distinct : (d.names.map Prod.fst).Nodup
  apart : d.names.Pairwise fun a b => a.2.objects.Disjoint b.2.objects
  has : ∀ o, d.heap.Has o ↔ ∃ entry ∈ d.names, o ∈ entry.2.objects
  describes : ∀ i it, (i, some it) ∈ declared →
    ∀ s, Describes s d.heap i.shown (fun _ => none) it
  kinds : ∀ i what, (i, what) ∈ declared → i.DeclaredAs what
  builtins : d.heap.builtins = Heap.defaultBuiltins
  built : ∃ order, d.heap.Built order

theorem tracks_empty : Tracks ⟨.empty, []⟩ [] := by
  have nothing (o : ObjectId) : ¬ Heap.empty.Has o := by
    cases o <;> exact Nat.not_lt_zero _
  refine ⟨rfl, List.nodup_nil, .nil, fun o => ?_, ?_, ?_, rfl, [], .start⟩
  · simpa using nothing o
  · intro i it member
    cases member
  · intro i what member
    cases member

theorem Tracks.declare {before after : Declarations} {declared : List (Item × Option Declared)}
    {what : Option Declared} (tracks : Tracks before declared)
    (run : declare before i = .ok (what, after)) : Tracks after (declared ++ [(i, what)]) := by
  have kinds (now : i.DeclaredAs what) (j : Item) (other : Option Declared)
      (member : (j, other) ∈ declared ++ [(i, what)]) : j.DeclaredAs other := by
    rcases List.mem_append.mp member with old | new
    · exact tracks.kinds j other old
    · cases List.mem_singleton.mp new
      exact now
  rcases declare_ok run with ⟨rfl, rfl, kind⟩ | ⟨d, rfl, unknown, names, introduces⟩
  · refine { tracks with names := ?_, describes := ?_, kinds := kinds kind }
    · rw [tracks.names, namesOf, namesOf, List.filterMap_append]
      exact (List.append_nil _).symm
    · intro j it member
      rcases List.mem_append.mp member with old | new
      · exact tracks.describes j it old
      · cases List.mem_singleton.mp new
  · have old_objects (entry : String × Declared) (member : entry ∈ before.names)
        (o : ObjectId) (inside : o ∈ entry.2.objects) : before.heap.Has o :=
      (tracks.has o).mpr ⟨entry, member, inside⟩
    refine ⟨?_, ?_, ?_, fun o => ?_, ?_, kinds introduces.kind, ?_, ?_⟩
    · rw [names, tracks.names, namesOf, namesOf, List.filterMap_append]
      rfl
    · rw [names, List.map_append, List.nodup_append]
      refine ⟨tracks.distinct, List.nodup_singleton _, ?_⟩
      intro name member other last same
      cases List.mem_singleton.mp last
      subst same
      obtain ⟨entry, inside, same⟩ := List.mem_map.mp member
      have other := List.lookup_eq_none_iff.mp unknown entry inside
      rw [bne_iff_ne] at other
      exact other same.symm
    · rw [names, List.pairwise_append]
      refine ⟨tracks.apart, List.pairwise_singleton _ _, ?_⟩
      intro entry member other last
      cases List.mem_singleton.mp last
      intro o inside again
      exact introduces.fresh o again (old_objects entry member o inside)
    · rw [introduces.has, tracks.has, names]
      simp [or_and_right, exists_or]
    · intro j it member s
      rcases List.mem_append.mp member with old | new
      · have listed : (j.title, it) ∈ before.names := by
          rw [tracks.names]
          exact List.mem_filterMap.mpr ⟨(j, some it), old, rfl⟩
        refine (tracks.describes j it old s).mono (fun o _ has => introduces.same o has) ?_
        exact fun o inside => introduces.same o (old_objects _ listed o inside)
      · cases List.mem_singleton.mp new
        exact introduces.describes s
    · rw [introduces.builtins, tracks.builtins]
    · obtain ⟨order, built⟩ := tracks.built
      obtain ⟨more, now⟩ := introduces.built order built
      exact ⟨_, now⟩

theorem declareAll_tracks (items : List Item) {before after : Declarations}
    {done declared : List (Item × Option Declared)} (tracks : Tracks before done)
    (run : declareAll before items = ([], declared, after)) :
    declared.map Prod.fst = items ∧ Tracks after (done ++ declared) := by
  induction items generalizing before done declared with
  | nil =>
      cases run
      exact ⟨rfl, by rwa [List.append_nil]⟩
  | cons i items ih =>
      rw [declareAll] at run
      cases first : StaticImage.Snapshot.declare before i with
      | error problem =>
          rw [first] at run
          cases run
      | ok outcome =>
          obtain ⟨what, mid⟩ := outcome
          rw [first] at run
          dsimp only at run
          cases rest : declareAll mid items with
          | mk problems others =>
              obtain ⟨later, last⟩ := others
              rw [rest] at run
              cases run
              obtain ⟨same, tracks⟩ := ih (tracks.declare first) rest
              refine ⟨by rw [List.map_cons, same], ?_⟩
              rwa [List.append_assoc] at tracks

def declaredOf (items : List Item) : List (Item × Option Declared) :=
  (declareAll ⟨.empty, []⟩ items).2.1

def scopeOf (host : Host) (items : List Item) : Scope :=
  ⟨host, (declareAll ⟨.empty, []⟩ items).2.2.names⟩

def heapOf (items : List Item) : Heap :=
  (declareAll ⟨.empty, []⟩ items).2.2.heap

end StaticImage.Snapshot
