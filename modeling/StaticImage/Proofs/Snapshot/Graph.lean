import StaticImage.Proofs.Image.Underway
import StaticImage.Proofs.Snapshot.Lowering

namespace StaticImage

namespace Heap

variable {h : Heap}

theorem links_eq_nil {o : ObjectId} (missing : ¬ h.Has o) : h.links o = [] := by
  have none {α : Type} (xs : Array α) (index : Nat) (missing : ¬ index < xs.size) :
      xs[index]? = none := Array.getElem?_eq_none (Nat.le_of_not_lt missing)
  cases o <;> simp only [Has] at missing <;>
    simp [links, proto?, closureAt?, class?, module?, instance?, none _ _ missing]

section

variable {order : List ObjectId} (allocated : h.Allocated order)

include allocated

/-- What a list, map or instance holds comes before it. -/
theorem Allocated.before {holder part : ObjectId} (contains : h.Contains holder part) :
    order.idxOf part < order.idxOf holder := by
  obtain ⟨front, rest, rfl, early, late⟩ :=
    List.cons_sublist_iff.mp (allocated.older holder part contains)
  have apart := (List.nodup_append.mp allocated.distinct).2.2
  have not_early : holder ∉ front := fun member =>
    apart holder member holder (List.singleton_sublist.mp late) rfl
  calc (front ++ rest).idxOf part = front.idxOf part := List.idxOf_append_of_mem early
    _ < front.length := List.idxOf_lt_length_of_mem early
    _ ≤ (front ++ rest).idxOf holder := by
      rw [List.idxOf_append_of_notMem not_early]
      exact Nat.le_add_right _ _

theorem Allocated.references (o : ObjectId) (kind : o.isAggregate) :
    ∀ r ∈ h.references o, h.Has r := by
  intro r member
  rcases List.mem_append.mp member with linked | held
  · cases o with
    | instanceObject id =>
        cases present : h.instance? id with
        | none =>
            simp [links, present] at linked
        | some i =>
            have alone := allocated.alone _ id i rfl present
            simp only [links, present, alone, Option.map_some, Option.toList_none, List.append_nil,
              List.map_nil, Option.getD_some, List.mem_map, Option.mem_toList] at linked
            obtain ⟨c, found, rfl⟩ := linked
            exact allocated.classes id i c present found
    | map id => cases linked
    | list id => cases linked
    | _ => cases kind
  · obtain ⟨v, inside, refers⟩ := List.mem_filterMap.mp held
    have older := allocated.older o r ⟨kind, v, inside, refers⟩
    exact (allocated.all r).mp (older.subset List.mem_cons_self)

theorem Allocated.holdsOlder : h.HoldsOlder (order.idxOf ·) := by
  rintro holder part ⟨fixed, held⟩
  refine allocated.before ⟨?_, held⟩
  cases holder <;> first | exact fixed | cases fixed

theorem Allocated.acyclic (o : ObjectId) : ¬ Relation.TransGen h.Contains o o :=
  not_transGen_self (order.idxOf ·) (fun _ _ contains => allocated.before contains) o

end

def nestsBack (h : Heap) : Bool :=
  h.protos.toList.zipIdx.all fun (p, i) => p.protos.all fun inner => inner.index < i

theorem nestsProperly_of_back (back : h.nestsBack) : h.NestsProperly := by
  refine not_transGen_self ProtoId.index ?_
  rintro outer inner ⟨p, present, inside⟩
  have listed : (p, outer.index) ∈ h.protos.toList.zipIdx := by
    rw [List.mk_mem_zipIdx_iff_getElem?, Array.getElem?_toList]
    exact present
  have all := List.all_eq_true.mp (List.all_eq_true.mp back _ listed) inner inside
  exact of_decide_eq_true all

end Heap

namespace Snapshot

variable {s : Scope} {h : Heap}

theorem Scope.Known.proto (known : s.Known h) {f : Form} {id : ProtoId}
    (named : s.NamesProto f id) : h.Has (.proto id) := by
  obtain ⟨name, _, declared⟩ := named
  exact known name _ declared _ List.mem_cons_self

theorem exists_of_mem {α β : Type} {relation : α → β → Prop} {xs : List α} {ys : List β}
    (all : List.Forall₂ relation xs ys) {y : β} (member : y ∈ ys) : ∃ x, relation x y := by
  induction all with
  | nil => cases member
  | cons here _ ih =>
      rcases List.mem_cons.mp member with rfl | later
      · exact ⟨_, here⟩
      · exact ih later

theorem ProtoFits.references {shown : String} {given : Given} {id : ProtoId} {p : Prototype}
    (fits : ProtoFits s h shown given p) (present : h.proto? id = some p) (known : s.Known h) :
    ∀ r ∈ h.references (.proto id), h.Has r := by
  intro r member
  rcases List.mem_append.mp member with linked | held
  · simp only [Heap.links, present, Option.map_some, Option.getD_some, List.mem_append,
      List.mem_map, Option.mem_toList] at linked
    rcases linked with ⟨inner, nested, rfl⟩ | ⟨owner, owned, rfl⟩
    · obtain ⟨items, _, all⟩ := fits.protos
      obtain ⟨f, named⟩ := exists_of_mem all nested
      exact known.proto named
    · have named := fits.owner
      rw [owned] at named
      exact known.named named
  · obtain ⟨items, _, means⟩ := fits.consts
    refine knows_of_mem (means.knows known items p.consts) r ?_
    simpa [Heap.values, present] using held

theorem Scope.MeansMembers.has (known : s.Known h) {f : Form} {members : Option MapId} {id : MapId}
    (means : s.MeansMembers h f members) (here : members = some id) : h.Has (.map id) := by
  rcases means with ⟨_, none⟩ | ⟨_, other, _, means, same⟩
  · rw [none] at here
    cases here
  · rw [same] at here
    cases here
    exact means.knows known _ _ _ rfl

theorem Describes.references {shown : String} {i : Item} {d : Declared}
    (describes : Describes s h shown (fun field => i.given.lookup field) d)
    (kind : i.DeclaredAs (some d)) (known : s.Known h) :
    ∀ o ∈ d.objects, ∀ r ∈ h.references o, h.Has r := by
  cases d with
  | proto id =>
      obtain ⟨p, present, fits⟩ := describes
      intro o member
      cases List.mem_singleton.mp member
      exact fits.references present known
  | closure id own =>
      obtain ⟨⟨c, present, fits⟩, its_own⟩ := describes
      have proto : h.Has (.proto c.proto) := by
        cases given : i.given.lookup "proto" with
        | some f => exact known.proto (fits.proto f given)
        | none =>
            have has_own := kind.2
            rw [given] at has_own
            obtain ⟨p, rfl⟩ := Option.isSome_iff_exists.mp (by simpa using has_own)
            obtain ⟨q, there, _⟩ := its_own p rfl
            rw [fits.own given p rfl]
            exact (h.has_proto_iff p).mpr ⟨q, there⟩
      intro o member
      rcases List.mem_cons.mp member with rfl | member
      · intro r member
        rcases List.mem_append.mp member with linked | held
        · simp only [Heap.links, present, Option.map_some, Option.getD_some,
            List.mem_singleton] at linked
          rw [linked]
          exact proto
        · simp only [Heap.values, present, Option.map_some, Option.getD_some] at held
          by_cases captured : (Given.get (fun field => i.given.lookup field) "upvals"
              (.list [])).isCaptured
          · obtain ⟨items, _, means⟩ := fits.captured captured
            exact knows_of_mem (means.knows known items c.captured) r held
          · rw [fits.pairs (by simpa using captured)] at held
            cases held
      · obtain ⟨p, owned, rfl⟩ := List.mem_map.mp member
        obtain ⟨q, there, fits⟩ := its_own p (Option.mem_toList.mp owned)
        exact fits.references there known
  | classItem id =>
      obtain ⟨c, present, fits⟩ := describes
      intro o member r linked
      cases List.mem_singleton.mp member
      simp only [Heap.references, Heap.links, Heap.values, present, Option.map_some,
        Option.getD_some, List.filterMap_nil, List.append_nil, List.mem_append, List.mem_map,
        Option.mem_toList] at linked
      rcases linked with ⟨super, inherits, rfl⟩ | ⟨members, here, rfl⟩
      · have named := fits.super
        rw [inherits] at named
        exact known.named named
      · exact fits.members.has known here
  | moduleItem id =>
      obtain ⟨m, present, fits⟩ := describes
      intro o member r linked
      cases List.mem_singleton.mp member
      simp only [Heap.references, Heap.links, Heap.values, present, Option.map_some,
        Option.getD_some, List.filterMap_nil, List.append_nil, List.mem_map,
        Option.mem_toList] at linked
      obtain ⟨members, here, rfl⟩ := linked
      exact fits.members.has known here

namespace Represents

variable {items : List Item} {loaded : Loaded} (represents : Represents s items loaded)

include represents

theorem closed : loaded.heap.Closed := by
  obtain ⟨order, built⟩ := represents.built
  intro o
  by_cases has : loaded.heap.Has o
  · by_cases kind : o.isAggregate
    · exact built.allocated.references o kind
    · obtain ⟨name, d, declared, member⟩ := represents.owned o has (by simpa using kind)
      obtain ⟨i, _, _, as, describes⟩ := represents.item name d declared
      exact describes.references as represents.known o member
  · rw [Heap.references, Heap.links_eq_nil has, Heap.values_eq_nil has]
    intro r member
    cases member

theorem item_known {name : String} {v : Value} (member : (name, v) ∈ loaded.items) :
    v.isRoot = true ∧ loaded.heap.Knows v := by
  rw [represents.values] at member
  obtain ⟨⟨name, d⟩, declared, entry⟩ := List.mem_filterMap.mp member
  obtain ⟨v, means, same⟩ := Option.map_eq_some_iff.mp entry
  cases same
  refine ⟨?_, represents.known.value (lookup_of_mem represents.distinct declared) means⟩
  cases d <;> cases means <;> rfl

/-- Of the reasons for which a dump may stop, only those that lie in single values remain. -/
theorem fault {v : Value} {why : DumpError} (proper : loaded.heap.NestsProperly)
    (root : v.isRoot = true) (knows : loaded.heap.Knows v) (blamed : loaded.heap.Fault v why) :
    why ≠ .cyclicMap ∧ why ≠ .linkedInstance ∧ (∀ typeName, why ≠ .root typeName) ∧
      why ≠ .dangling ∧ why ≠ .endless := by
  obtain ⟨order, built⟩ := represents.built
  have allocated := built.allocated
  cases blamed with
  | linkedInstance id i present linked =>
      obtain ⟨super, sub⟩ := allocated.alone _ id i rfl present
      simp [super, sub] at linked
  | cyclicMap id cycle => exact (allocated.acyclic _ cycle).elim
  | endlessValue o cycle => exact (Heap.not_transGen_self _ allocated.holdsOlder o cycle).elim
  | endlessProto id cycle => exact (proper id cycle).elim
  | dangling missing => exact (missing ⟨represents.closed, knows⟩).elim
  | root typeName other =>
      rw [root] at other
      cases other
  | _ => simp

theorem item_names : (loaded.items.map Prod.fst).Nodup := by
  rw [represents.values]
  refine represents.distinct.sublist ?_
  induction s.names with
  | nil => exact List.nil_sublist _
  | cons entry names ih =>
      obtain ⟨name, d⟩ := entry
      cases means : d.value? with
      | none =>
          rw [List.filterMap_cons_none (by simp [means])]
          exact ih.cons name
      | some v =>
          rw [List.filterMap_cons_some (b := (name, v)) (by simp [means])]
          exact ih.cons_cons name

theorem item?_iff (name : String) (v : Value) :
    loaded.item? name = some v ↔ ∃ d, s.names.lookup name = some d ∧ d.value? = some v := by
  constructor
  · intro found
    have member := mem_of_lookup found
    rw [represents.values] at member
    obtain ⟨⟨_, d⟩, declared, entry⟩ := List.mem_filterMap.mp member
    obtain ⟨_, means, same⟩ := Option.map_eq_some_iff.mp entry
    cases same
    exact ⟨d, lookup_of_mem represents.distinct declared, means⟩
  · rintro ⟨d, found, means⟩
    refine lookup_of_mem represents.item_names ?_
    rw [represents.values]
    exact List.mem_filterMap.mpr ⟨(name, d), mem_of_lookup found, by simp [means]⟩

end Represents

/-- The graph of a snapshot is closed, its objects were allocated in an order in which lists, maps
and instances hold only what comes before them, and names are not used twice; if also no prototype
is nested in itself, dumps of items find all they look for, and no map inside itself. -/
theorem loaded_graph_is_closed_and_acyclic (host : Host) (text : String) (loaded : Loaded)
    (run : load host text = .ok loaded) :
    loaded.heap.Closed ∧
      (∀ id c, loaded.heap.closureAt? id = some c → ∃ p, loaded.heap.proto? c.proto = some p) ∧
      (∃ order, loaded.heap.Built order ∧ loaded.heap.Allocated order) ∧
      (∃ items, parse text = .ok items ∧
        ((items.filter fun i => i.kind.value ≠ "builtins").map Item.title).Nodup) ∧
      (loaded.items.map Prod.fst).Nodup ∧
      (loaded.heap.NestsProperly → ∀ item ∈ loaded.items, ∀ options room why,
        (loaded.heap.dump item.2 options room).1.error = some why →
          why ≠ .cyclicMap ∧ why ≠ .linkedInstance ∧ (∀ typeName, why ≠ .root typeName) ∧
            why ≠ .dangling ∧ why ≠ .endless) := by
  obtain ⟨items, parsed, lowered⟩ := (load_eq_ok_iff host text loaded).mp run
  obtain ⟨s, _, represents⟩ := lower_represents lowered
  obtain ⟨order, built⟩ := represents.built
  have closed := represents.closed
  refine ⟨closed, fun id c present => ?_, ⟨order, built, built.allocated⟩, ⟨items, parsed, ?_⟩,
    represents.item_names, ?_⟩
  · refine (loaded.heap.has_proto_iff _).mp (closed.link (.closure id) _ ?_)
    simp [Heap.links, present]
  · rw [← represents.titles]
    exact represents.distinct
  · rintro proper ⟨name, v⟩ member options room why failed
    obtain ⟨root, knows⟩ := represents.item_known member
    rcases loaded.heap.call_blamed (.dump v options room) why failed with
      blamed | ⟨slot, function, rfl⟩ | rfl
    · exact represents.fault proper root knows blamed
    · simp
    · simp

theorem exists_ok_of_any {ε α : Type} {run : Except ε α} {test : α → Bool}
    (passed : run.toOption.any test) : ∃ a, run = .ok a ∧ test a := by
  cases run with
  | error why => cases passed
  | ok a => exact ⟨a, rfl, passed⟩

def libraryText : String :=
  "closure f {proto: p, upvals: [f]} proto p {class: A, consts: [[{1: A}]]} " ++
  "class A {members: {f: f}}"

theorem library_graph_is_closed_and_acyclic :
    ∃ loaded, load .wide libraryText = .ok loaded ∧ loaded.heap.NestsProperly ∧
      loaded.heap.Closed ∧
      (∀ id c, loaded.heap.closureAt? id = some c → ∃ p, loaded.heap.proto? c.proto = some p) ∧
      (∃ order, loaded.heap.Built order ∧ loaded.heap.Allocated order) ∧
      (∃ items, parse libraryText = .ok items ∧
        ((items.filter fun i => i.kind.value ≠ "builtins").map Item.title).Nodup) ∧
      (loaded.items.map Prod.fst).Nodup ∧
      ∀ item ∈ loaded.items, ∀ options room why,
        (loaded.heap.dump item.2 options room).1.error = some why →
          why ≠ .cyclicMap ∧ why ≠ .linkedInstance ∧ (∀ typeName, why ≠ .root typeName) ∧
            why ≠ .dangling ∧ why ≠ .endless := by
  have checked : (load .wide libraryText).toOption.any fun loaded =>
      loaded.heap.nestsBack && loaded.items.length == 2 := by
    decide +kernel
  obtain ⟨loaded, run, passed⟩ := exists_ok_of_any checked
  have proper := Heap.nestsProperly_of_back (Bool.and_eq_true_iff.mp passed).1
  obtain ⟨closed, protos, order, titles, names, dumps⟩ :=
    loaded_graph_is_closed_and_acyclic .wide libraryText loaded run
  exact ⟨loaded, run, proper, closed, protos, order, titles, names, dumps proper⟩

end Snapshot

end StaticImage
