import StaticImage.Proofs.Image.CorrespondingDeclarations
import StaticImage.Proofs.Snapshot.Agreeing
import StaticImage.Proofs.Snapshot.Graph
import StaticImage.Snapshot.Imaging

namespace StaticImage

namespace Heap

/-- Dumps of which neither is cut short, and that agree, fail both or write the same. -/
theorem dumps_agree {h g : Heap} {v w : Value} (options : DumpOptions)
    (agree : Trace.Agree (h.rootPlan v options.context).trace (g.rootPlan w options.context).trace)
    (uncut : (h.rootPlan v options.context).trace.Uncut)
    (uncut' : (g.rootPlan w options.context).trace.Uncut) :
    ((h.dump v options none).1.error = none ↔ (g.dump w options none).1.error = none) ∧
      ((h.dump v options none).1.error = none →
        (h.dump v options none).1.bytes = (g.dump w options none).1.bytes) := by
  obtain ⟨complete, same⟩ := agree uncut uncut'
  have ends (plan : Plan) : (plan.run options.weak none).error = none ↔ plan.trace.Complete :=
    ⟨fun unbroken => (plan.run_complete options.weak none unbroken).1,
      plan.run_unbounded options.weak⟩
  refine ⟨((ends _).trans complete).trans (ends _).symm, fun unbroken => ?_⟩
  have first := (ends _).mp unbroken
  obtain ⟨_, bytes⟩ := (h.rootPlan v options.context).run_complete options.weak none unbroken
  obtain ⟨_, bytes'⟩ := (g.rootPlan w options.context).run_complete options.weak none
    ((ends _).mpr (complete.mp first))
  calc ((h.rootPlan v options.context).run options.weak none).bytes
      = (String.ofList ((h.rootPlan v options.context).trace.spelling
          options.weak)).toUTF8.data.toList := bytes
    _ = (String.ofList ((g.rootPlan w options.context).trace.spelling
          options.weak)).toUTF8.data.toList := by rw [same options.weak first]
    _ = ((g.rootPlan w options.context).run options.weak none).bytes := bytes'.symm

end Heap

namespace Snapshot

/-- The items of a text occur in another, fields in any order; neither has more than one table of
built-ins, and it is the same. -/
structure SharedItems (items items' : List Item) : Prop where
  within : ∀ i ∈ items, ∃ j ∈ items', i.SameAs j
  single : (items.filter fun i => i.kind.value = "builtins").length ≤ 1
  single' : (items'.filter fun i => i.kind.value = "builtins").length ≤ 1
  builtins : ∀ j ∈ items', j.kind.value = "builtins" → ∃ i ∈ items, i.SameAs j

instance (items items' : List Item) : Decidable (SharedItems items items') :=
  decidable_of_iff ((∀ i ∈ items, ∃ j ∈ items', i.SameAs j) ∧
      (items.filter fun i => i.kind.value = "builtins").length ≤ 1 ∧
      (items'.filter fun i => i.kind.value = "builtins").length ≤ 1 ∧
      ∀ j ∈ items', j.kind.value = "builtins" → ∃ i ∈ items, i.SameAs j) <|
    ⟨fun ⟨within, single, single', builtins⟩ => ⟨within, single, single', builtins⟩,
      fun ⟨within, single, single', builtins⟩ => ⟨within, single, single', builtins⟩⟩

namespace Represents

variable {s : Scope} {items : List Item} {loaded : Loaded} (represents : Represents s items loaded)

include represents

theorem uncut (proper : loaded.heap.NestsProperly) {name : String} {v : Value}
    (found : loaded.item? name = some v) (context : Option String) :
    (loaded.heap.rootPlan v context).trace.Uncut := by
  obtain ⟨root, knows⟩ := represents.item_known (mem_of_lookup found)
  intro why stops
  rcases (loaded.heap.writes_rootPlan v context).blamed why stops with blamed | ⟨slot, f, rfl⟩
  · obtain ⟨cyclic, _, _, dangling, endless⟩ := represents.fault proper root knows blamed
    cases why <;> first | rfl | contradiction
  · rfl

end Represents

theorem Twins.root {s s' : Scope} {h h' : Heap} (twins : Twins s h s' h') {name : String}
    {d : Declared} {v : Value} (found : s.names.lookup name = some d) (means : d.value? = some v) :
    ∃ d' w, s'.names.lookup name = some d' ∧ d'.value? = some w ∧
      Heap.RootPair (s.pairing s') v w := by
  obtain ⟨d', item, found', kind, kind', _⟩ := twins.item name d found
  cases kind.sameKind kind' with
  | proto i j => cases means
  | closure i j a b =>
      cases means
      exact ⟨_, _, found', rfl, .closure i j ⟨name, _, _, found, found', .closure i j a b⟩⟩
  | classItem i j =>
      cases means
      exact ⟨_, _, found', rfl, .classObject i j ⟨name, _, _, found, found', .classItem i j⟩⟩
  | moduleItem i j =>
      cases means
      exact ⟨_, _, found', rfl, .moduleObject i j ⟨name, _, _, found, found', .moduleItem i j⟩⟩

theorem image_eq_ok_iff {host : Host} {source : String} {loaded : Loaded} {name : String}
    {v : Value} (loads : load host source = .ok loaded) (found : loaded.item? name = some v)
    (options : DumpOptions) (text : String) :
    image host source (some name) options = .ok text ↔
      (loaded.heap.dump v options none).1.error = none ∧
        Utf8.lossy (loaded.heap.dump v options none).1.bytes = text := by
  have rooted : loaded.root (some name) = .ok v := by
    simp only [Loaded.root, found]
  have both : loadRoot host source (some name) = .ok (loaded, v) := by
    unfold loadRoot
    rw [loads]
    dsimp only
    rw [rooted]
  unfold image
  rw [both]
  dsimp only
  split
  · rename_i why failed
    simp [failed]
  · rename_i unbroken
    simp [unbroken]

/-- The order of items and fields does not matter, nor do other items. -/
theorem order_does_not_matter (host : Host) (first second : String) (items items' : List Item)
    (a b : Loaded) (parsed : parse first = .ok items) (parsed' : parse second = .ok items')
    (loads : load host first = .ok a) (loads' : load host second = .ok b)
    (shared : SharedItems items items') (proper : a.heap.NestsProperly)
    (proper' : b.heap.NestsProperly) (name : String) (v : Value) (found : a.item? name = some v) :
    (∃ w, b.item? name = some w ∧ ∀ options,
      ((a.heap.dump v options none).1.error = none ↔ (b.heap.dump w options none).1.error = none) ∧
        ((a.heap.dump v options none).1.error = none →
          (a.heap.dump v options none).1.bytes = (b.heap.dump w options none).1.bytes)) ∧
      ∀ options text, image host first (some name) options = .ok text ↔
        image host second (some name) options = .ok text := by
  obtain ⟨_, again, lowered⟩ := (load_eq_ok_iff host first a).mp loads
  obtain ⟨_, again', lowered'⟩ := (load_eq_ok_iff host second b).mp loads'
  cases parsed.symm.trans again
  cases parsed'.symm.trans again'
  obtain ⟨s, same_host, represents⟩ := lower_represents lowered
  obtain ⟨s', same_host', represents'⟩ := lower_represents lowered'
  have twins := represents.twins represents' (same_host.trans same_host'.symm) shared.within
    shared.single shared.single' shared.builtins
  obtain ⟨d, declared, means⟩ := (represents.item?_iff name v).mp found
  obtain ⟨d', w, declared', means', paired⟩ := twins.root declared means
  have found' := (represents'.item?_iff name w).mpr ⟨d', declared', means'⟩
  have dumps (options : DumpOptions) := Heap.dumps_agree options
    (Heap.rootPlan_agrees twins.corresponds paired options.context)
    (represents.uncut proper found options.context)
    (represents'.uncut proper' found' options.context)
  refine ⟨⟨w, found', dumps⟩, fun options text => ?_⟩
  obtain ⟨ends, bytes⟩ := dumps options
  rw [image_eq_ok_iff loads found, image_eq_ok_iff loads' found', ← ends]
  refine and_congr_right fun unbroken => ?_
  rw [bytes unbroken]

def shuffledText : String :=
  "module m \x7b\x7d class A \x7bmembers: \x7bf: f\x7d\x7d " ++
  "proto p \x7bconsts: [[\x7b1: A\x7d]], class: A\x7d closure f \x7bupvals: [f], proto: p\x7d"

theorem shuffled_library_has_same_images :
    ∃ items items' a b v w, parse libraryText = .ok items ∧ parse shuffledText = .ok items' ∧
      load .wide libraryText = .ok a ∧ load .wide shuffledText = .ok b ∧
      SharedItems items items' ∧ a.heap.NestsProperly ∧ b.heap.NestsProperly ∧
      a.item? "A" = some v ∧ b.item? "A" = some w ∧
      (a.heap.dump v ⟨false, none⟩ none).1.error = none ∧
      (a.heap.dump v ⟨false, none⟩ none).1.bytes = (b.heap.dump w ⟨false, none⟩ none).1.bytes ∧
      ∀ options text, image .wide libraryText (some "A") options = .ok text ↔
        image .wide shuffledText (some "A") options = .ok text := by
  have checked : (parse libraryText).toOption.any fun items =>
      (parse shuffledText).toOption.any fun items' =>
        decide (SharedItems items items') &&
          ((lower .wide items).toOption.any fun a => (lower .wide items').toOption.any fun b =>
            a.heap.nestsBack && b.heap.nestsBack && (a.item? "A").any fun v =>
              decide ((a.heap.dump v ⟨false, none⟩ none).1.error = none)) := by
    decide +kernel
  obtain ⟨items, parsed, checked⟩ := exists_ok_of_any checked
  obtain ⟨items', parsed', checked⟩ := exists_ok_of_any checked
  obtain ⟨shared, checked⟩ := Bool.and_eq_true_iff.mp checked
  obtain ⟨a, lowered, checked⟩ := exists_ok_of_any checked
  obtain ⟨b, lowered', checked⟩ := exists_ok_of_any checked
  obtain ⟨back, checked⟩ := Bool.and_eq_true_iff.mp checked
  obtain ⟨v, found, unbroken⟩ := (Option.any_eq_true _ _).mp checked
  have shared := of_decide_eq_true shared
  have unbroken := of_decide_eq_true unbroken
  have proper := Heap.nestsProperly_of_back (Bool.and_eq_true_iff.mp back).1
  have proper' := Heap.nestsProperly_of_back (Bool.and_eq_true_iff.mp back).2
  have loads := (load_eq_ok_iff .wide libraryText a).mpr ⟨items, parsed, lowered⟩
  have loads' := (load_eq_ok_iff .wide shuffledText b).mpr ⟨items', parsed', lowered'⟩
  obtain ⟨⟨w, found', dumps⟩, images⟩ := order_does_not_matter .wide libraryText shuffledText
    items items' a b parsed parsed' loads loads' shared proper proper' "A" v found
  exact ⟨items, items', a, b, v, w, parsed, parsed', loads, loads', shared, proper, proper',
    found, found', unbroken, (dumps ⟨false, none⟩).2 unbroken, images⟩

end Snapshot

end StaticImage
