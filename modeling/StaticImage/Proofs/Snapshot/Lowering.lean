import StaticImage.Proofs.Snapshot.Declaring

/-!
Lowering. When all items are declared and defined, the heap is what they say: each item is described
by its own fields, however items and fields are ordered, and there are no other objects but lists,
maps and instances.
-/

namespace StaticImage.Snapshot

open Load

variable {s : Scope} {h h' : Heap}

def Form.Lists (f : Form) (names : List String) : Prop :=
  ∃ items, f = .list items ∧ List.Forall₂ (fun f name => f.name? = some name) items names

structure BuiltinsFit (given : Given) (before after : List String) : Prop where
  missing : given "names" = none → after = before
  listed : ∀ f, given "names" = some f → f.Lists after

def BuiltinsAfter : List Item → List String → List String → Prop
  | [], before, after => after = before
  | i :: items, before, after =>
    ∃ mid, BuiltinsFit (fun field => i.given.lookup field) before mid ∧ BuiltinsAfter items mid after

theorem extends_builtins (h : Heap) (names : List String) :
    h.Extends [] { h with builtins := names } := by
  have changes : Heap.Changes h [] { h with builtins := names } :=
    ⟨fun x has => by cases x <;> exact has, fun x _ _ => by cases x <;> rfl⟩
  have old (x : ObjectId) (has : ({ h with builtins := names } : Heap).Has x) : h.Has x := by
    cases x <;> exact has
  refine ⟨changes, fun x has _ => old x has, fun order built => ⟨[], ?_⟩⟩
  rw [List.append_nil]
  exact .set order h [] _ built changes old (by simp)

theorem builtinsField_ok {f : Field} {effect : Load Unit} (found : builtinsField? f = some effect)
    (run : effect h = .ok ((), h')) :
    f.name.value = "names" ∧
      ∃ names, f.value.value.form.Lists names ∧ h' = { h with builtins := names } := by
  unfold builtinsField? at found
  split at found
  · rename_i name
    cases found
    obtain ⟨items, names, form, all, run⟩ :=
      listOf_mapM_ok (fun f name => f.name? = some name) run fun _ _ _ _ => nameOf_ok
    exact ⟨name, names, ⟨items, form, all⟩, (modify_ok run).symm⟩
  · cases found

theorem builtinsField_only {i : Item} {f : Field} (run : (match field? s f none with
      | some effect => effect
      | none => fail (.unknownField i.kind.value f.name.value) f.name.span : Load Unit) h =
        .ok ((), h')) :
    f.name.value = "names" ∧
      ∃ names, f.value.value.form.Lists names ∧ h' = { h with builtins := names } := by
  cases found : field? s f none with
  | none =>
      simp only [found] at run
      exact (fail_ok run).elim
  | some effect =>
      simp only [found] at run
      exact builtinsField_ok found run

/-- What is given as the names of a table of built-ins takes the place of those before. -/
theorem define_builtins {i : Item} (run : define s i none h = .ok ((), h')) :
    ∃ names, h' = { h with builtins := names } ∧
      BuiltinsFit (fun field => i.given.lookup field) h.builtins names := by
  unfold define at run
  cases duplicate : duplicate? [] i.fields with
  | some f =>
      simp only [duplicate] at run
      exact (fail_ok run).elim
  | none =>
      simp only [duplicate] at run
      obtain ⟨distinct, _⟩ := duplicate?_eq_none [] i.fields duplicate
      have given : i.given = i.fields.map fun f => (f.name.value, f.value.value.form) := rfl
      rcases fields : i.fields with _ | ⟨f, _ | ⟨g, rest⟩⟩
      · rw [fields] at run given
        obtain ⟨_, rfl⟩ := pure_ok run
        refine ⟨_, rfl, fun _ => rfl, fun f there => ?_⟩
        rw [given] at there
        cases there
      · rw [fields] at run given
        obtain ⟨⟨⟩, mid, first, run⟩ := bind_ok run
        obtain ⟨name, names, listed, rfl⟩ := builtinsField_only first
        obtain ⟨_, rfl⟩ := pure_ok run
        refine ⟨names, rfl, fun missing => ?_, fun form there => ?_⟩
        · rw [given] at missing
          simp [name] at missing
        · rw [given] at there
          simp [name] at there
          rwa [← there]
      · rw [fields] at run distinct
        obtain ⟨⟨⟩, mid, first, run⟩ := bind_ok run
        obtain ⟨⟨⟩, mid', second, run⟩ := bind_ok run
        have same := (builtinsField_only first).1.trans (builtinsField_only second).1.symm
        simp [same] at distinct

def tablesOf (declared : List (Item × Option Declared)) : List Item :=
  declared.filterMap fun (i, what) => if what.isNone then some i else none

def objectsOf (names : List (String × Declared)) : List ObjectId :=
  names.flatMap fun entry => entry.2.objects

theorem defineAll_describes (declared : List (Item × Option Declared))
    (run : defineAll s h declared = ([], h')) (known : s.Known h)
    (apart : (namesOf declared).Pairwise fun a b => a.2.objects.Disjoint b.2.objects)
    (has : ∀ o ∈ objectsOf (namesOf declared), h.Has o)
    (describes : ∀ i d, (i, some d) ∈ declared → Describes s h i.shown (fun _ => none) d) :
    h.Extends (objectsOf (namesOf declared)) h' ∧
      BuiltinsAfter (tablesOf declared) h.builtins h'.builtins ∧
      (∀ i d, (i, some d) ∈ declared →
        Describes s h' i.shown (fun field => i.given.lookup field) d) ∧
      ∀ i what, (i, what) ∈ declared → (i.given.map Prod.fst).Nodup := by
  induction declared generalizing h with
  | nil =>
      cases run
      exact ⟨.refl _ _, rfl, by simp, by simp⟩
  | cons entry rest ih =>
      obtain ⟨i, what⟩ := entry
      rw [defineAll] at run
      cases defined : define s i what h with
      | error problem =>
          rw [defined] at run
          cases run
      | ok outcome =>
          obtain ⟨⟨⟩, mid⟩ := outcome
          rw [defined] at run
          dsimp only at run
          have distinct := define_distinct defined
          have all_distinct (rest_distinct : ∀ i what, (i, what) ∈ rest →
              (i.given.map Prod.fst).Nodup) (j : Item) (other : Option Declared)
              (member : (j, other) ∈ (i, what) :: rest) : (j.given.map Prod.fst).Nodup := by
            rcases List.mem_cons.mp member with here | inside
            · cases here
              exact distinct
            · exact rest_distinct j other inside
          have later (j : Item) (e : Declared) (member : (j, some e) ∈ rest) :
              (j.title, e) ∈ namesOf rest := List.mem_filterMap.mpr ⟨(j, some e), member, rfl⟩
          cases what with
          | none =>
              obtain ⟨names, same, fits⟩ := define_builtins defined
              have first : h.Extends [] mid := same ▸ extends_builtins h names
              obtain ⟨further, builtins, all, rest_distinct⟩ := ih run (known.mono first.changes)
                apart (fun o member => first.changes.has o (has o member)) fun j e member =>
                  (describes j e (List.mem_cons_of_mem _ member)).mono
                    (.of_changes first.changes (by simp)) fun o inside =>
                      first.changes.same o (has o (List.mem_flatMap.mpr
                        ⟨_, later j e member, inside⟩)) (by simp)
              have now : mid.builtins = names := by rw [same]
              refine ⟨(first.mono (by simp)).trans further, ⟨names, fits, now ▸ builtins⟩, ?_,
                all_distinct rest_distinct⟩
              intro j e member
              rcases List.mem_cons.mp member with here | inside
              · cases here
              · exact all j e inside
          | some d =>
              obtain ⟨first, same_builtins, fits⟩ := define_describes defined known
                (describes i d List.mem_cons_self)
              have names : namesOf ((i, some d) :: rest) = (i.title, d) :: namesOf rest := rfl
              rw [names, List.pairwise_cons] at apart
              rw [names, objectsOf, List.flatMap_cons] at has ⊢
              have others (o : ObjectId) (member : o ∈ objectsOf (namesOf rest)) :
                  o ∉ d.objects := by
                obtain ⟨entry, listed, inside⟩ := List.mem_flatMap.mp member
                exact fun here => apart.1 entry listed here inside
              have still_has (o : ObjectId) (member : o ∈ objectsOf (namesOf rest)) : mid.Has o :=
                first.changes.has o (has o (List.mem_append_right _ member))
              obtain ⟨further, builtins, all, rest_distinct⟩ := ih run (known.mono first.changes)
                apart.2 still_has
                fun j e member => (describes j e (List.mem_cons_of_mem _ member)).mono
                  (extends_retains first) fun o inside => by
                    have listed : o ∈ objectsOf (namesOf rest) :=
                      List.mem_flatMap.mpr ⟨_, later j e member, inside⟩
                    exact first.changes.same o (has o (List.mem_append_right _ listed))
                      (others o listed)
              refine ⟨(first.mono (List.subset_append_left _ _)).trans
                (further.mono (List.subset_append_right _ _)), ?_, fun j e member => ?_,
                all_distinct rest_distinct⟩
              · rw [← same_builtins]
                exact builtins
              · rcases List.mem_cons.mp member with here | inside
                · cases here
                  refine fits.mono (.of_changes further.changes ?_) fun o inside => ?_
                  · intro o member
                    obtain ⟨entry, _, inside⟩ := List.mem_flatMap.mp member
                    exact not_aggregate entry.2 o inside
                  · have there := first.changes.has o (has o (List.mem_append_left _ inside))
                    exact further.changes.same o there fun again => others o again inside
                · exact all j e inside

/-- A loaded heap is what items say, for a scope that resolves their names. -/
structure Represents (s : Scope) (items : List Item) (loaded : Loaded) : Prop where
  distinct : (s.names.map Prod.fst).Nodup
  titles : s.names.map Prod.fst = (items.filter fun i => i.kind.value ≠ "builtins").map Item.title
  values : loaded.items = s.names.filterMap fun (name, d) => d.value?.map fun v => (name, v)
  known : s.Known loaded.heap
  apart : s.names.Pairwise fun a b => a.2.objects.Disjoint b.2.objects
  item : ∀ name d, s.names.lookup name = some d → ∃ i ∈ items, i.title = name ∧
    i.DeclaredAs (some d) ∧ Describes s loaded.heap i.shown (fun field => i.given.lookup field) d
  declared : ∀ i ∈ items, i.DeclaredAs none ∨ ∃ d, s.names.lookup i.title = some d
  fields : ∀ i ∈ items, (i.given.map Prod.fst).Nodup
  owned : ∀ o, loaded.heap.Has o → o.isAggregate = false →
    ∃ name d, s.names.lookup name = some d ∧ o ∈ d.objects
  builtins : BuiltinsAfter (items.filter fun i => i.kind.value = "builtins") Heap.defaultBuiltins
    loaded.heap.builtins
  built : ∃ order, loaded.heap.Built order

theorem mem_of_lookup {α : Type} {names : List (String × α)} {name : String} {d : α}
    (found : names.lookup name = some d) : (name, d) ∈ names := by
  obtain ⟨front, rest, rfl, _⟩ := List.lookup_eq_some_iff.mp found
  simp

theorem lookup_of_mem {α : Type} {names : List (String × α)} {name : String} {d : α}
    (distinct : (names.map Prod.fst).Nodup) (member : (name, d) ∈ names) :
    names.lookup name = some d := by
  obtain ⟨front, rest, rfl⟩ := List.append_of_mem member
  refine List.lookup_eq_some_iff.mpr ⟨front, rest, rfl, fun entry inside => ?_⟩
  rw [List.map_append, List.map_cons, List.nodup_append] at distinct
  rw [bne_iff_ne]
  exact Ne.symm (distinct.2.2 _ (List.mem_map_of_mem inside) _ List.mem_cons_self)

theorem tablesOf_eq (declared : List (Item × Option Declared))
    (kinds : ∀ i what, (i, what) ∈ declared → i.DeclaredAs what) :
    tablesOf declared = (declared.map Prod.fst).filter fun i => i.kind.value = "builtins" := by
  induction declared with
  | nil => rfl
  | cons entry rest ih =>
      obtain ⟨i, what⟩ := entry
      have here := kinds i what List.mem_cons_self
      have there := ih fun j other member => kinds j other (List.mem_cons_of_mem _ member)
      rw [tablesOf] at there
      rw [tablesOf, List.filterMap_cons, List.map_cons, List.filter_cons, there]
      rcases what with _ | ⟨_ | _ | _ | _⟩ <;> simp [Item.DeclaredAs] at here <;> simp [here]

theorem namesOf_titles (declared : List (Item × Option Declared))
    (kinds : ∀ i what, (i, what) ∈ declared → i.DeclaredAs what) :
    (namesOf declared).map Prod.fst =
      ((declared.map Prod.fst).filter fun i => i.kind.value ≠ "builtins").map Item.title := by
  induction declared with
  | nil => rfl
  | cons entry rest ih =>
      obtain ⟨i, what⟩ := entry
      have here := kinds i what List.mem_cons_self
      have there := ih fun j other member => kinds j other (List.mem_cons_of_mem _ member)
      rw [namesOf] at there
      rw [namesOf, List.filterMap_cons, List.map_cons, List.filter_cons]
      rcases what with _ | ⟨_ | _ | _ | _⟩ <;> simp [Item.DeclaredAs] at here <;> simp [here, there]

structure Lowers (host : Host) (items : List Item) (loaded : Loaded) : Prop where
  all : (declaredOf items).map Prod.fst = items
  tracks : Tracks ⟨heapOf items, (scopeOf host items).names⟩ (declaredOf items)
  defined : defineAll (scopeOf host items) (heapOf items) (declaredOf items) = ([], loaded.heap)
  values : loaded.items =
    (scopeOf host items).names.filterMap fun (name, d) => d.value?.map fun v => (name, v)

section

variable {host : Host} {items : List Item} {loaded : Loaded}

theorem lower_lowers (run : lower host items = .ok loaded) : Lowers host items loaded := by
  unfold lower at run
  rcases all : declareAll ⟨.empty, []⟩ items with ⟨problems, declared, d⟩
  rw [all] at run
  cases problems with
  | cons => cases run
  | nil =>
      obtain ⟨same, tracks⟩ := declareAll_tracks items tracks_empty all
      rcases defined : defineAll ⟨host, d.names⟩ d.heap declared with ⟨problems, h⟩
      dsimp only at run
      rw [defined] at run
      cases problems with
      | cons => cases run
      | nil =>
          cases run
          constructor <;> simp only [declaredOf, scopeOf, heapOf, all]
          · exact same
          · exact tracks
          · exact defined

theorem Lowers.known (lowers : Lowers host items loaded) :
    (scopeOf host items).Known (heapOf items) :=
  fun _ _ found o inside => (lowers.tracks.has o).mpr ⟨_, mem_of_lookup found, inside⟩

theorem Lowers.represents (lowers : Lowers host items loaded) :
    Represents (scopeOf host items) items loaded := by
  have tracks := lowers.tracks
  have names : (scopeOf host items).names = namesOf (declaredOf items) := tracks.names
  have lookup (i : Item) (it : Declared) (member : (i, some it) ∈ declaredOf items) :
      (scopeOf host items).names.lookup i.title = some it := by
    refine lookup_of_mem tracks.distinct ?_
    rw [names]
    exact List.mem_filterMap.mpr ⟨(i, some it), member, rfl⟩
  have known := lowers.known
  have of_item (i : Item) (member : i ∈ items) : ∃ what, (i, what) ∈ declaredOf items := by
    rw [← lowers.all] at member
    obtain ⟨⟨_, what⟩, inside, rfl⟩ := List.mem_map.mp member
    exact ⟨what, inside⟩
  obtain ⟨extends_, builtins, describes, distinct⟩ := defineAll_describes _ lowers.defined
    known (names ▸ tracks.apart) (fun o member => by
      rw [← names] at member
      obtain ⟨entry, listed, inside⟩ := List.mem_flatMap.mp member
      exact (tracks.has o).mpr ⟨entry, listed, inside⟩)
    fun i it member => tracks.describes i it member _
  refine ⟨tracks.distinct, ?_, lowers.values, known.mono extends_.changes, tracks.apart, ?_, ?_, ?_,
    ?_, ?_, ?_⟩
  · rw [names, namesOf_titles _ tracks.kinds, lowers.all]
  · intro name it found
    have listed := mem_of_lookup found
    rw [names] at listed
    obtain ⟨⟨i, what⟩, member, entry⟩ := List.mem_filterMap.mp listed
    obtain ⟨it', rfl, entry⟩ := Option.map_eq_some_iff.mp entry
    cases entry
    refine ⟨i, ?_, rfl, tracks.kinds i _ member, describes i it member⟩
    rw [← lowers.all]
    exact List.mem_map_of_mem member
  · intro i member
    obtain ⟨what, inside⟩ := of_item i member
    cases what with
    | none => exact Or.inl (tracks.kinds i none inside)
    | some it => exact Or.inr ⟨it, lookup i it inside⟩
  · intro i member
    obtain ⟨what, inside⟩ := of_item i member
    exact distinct i what inside
  · intro o has kind
    obtain ⟨⟨name, it⟩, listed, inside⟩ := (tracks.has o).mp (extends_.old o has kind)
    exact ⟨name, it, lookup_of_mem tracks.distinct listed, inside⟩
  · rw [tablesOf_eq _ tracks.kinds, lowers.all, tracks.builtins] at builtins
    exact builtins
  · obtain ⟨order, built⟩ := tracks.built
    obtain ⟨more, now⟩ := extends_.built order built
    exact ⟨_, now⟩

/-- Whatever loads, the heap is what the items say. -/
theorem lower_represents (run : lower host items = .ok loaded) :
    ∃ s, s.host = host ∧ Represents s items loaded :=
  ⟨scopeOf host items, rfl, (lower_lowers run).represents⟩

end

theorem load_eq_ok_iff (host : Host) (text : String) (loaded : Loaded) :
    load host text = .ok loaded ↔
      ∃ items, parse text = .ok items ∧ lower host items = .ok loaded := by
  constructor
  · intro run
    unfold load at run
    cases parsed : parse text with
    | error errors =>
        rw [parsed] at run
        cases run
    | ok items =>
        rw [parsed] at run
        dsimp only at run
        cases lowered : lower host items with
        | error problems =>
            rw [lowered] at run
            cases run
        | ok found =>
            rw [lowered] at run
            cases run
            exact ⟨items, rfl, lowered⟩
  · rintro ⟨items, parsed, lowered⟩
    unfold load
    rw [parsed]
    dsimp only
    rw [lowered]

end StaticImage.Snapshot
