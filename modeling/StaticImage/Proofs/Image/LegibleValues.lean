import StaticImage.Proofs.Image.HeldData
import StaticImage.Proofs.Table.FiniteMap

namespace StaticImage

theorem HoldsEntry.parts {holds : Data → Value → Prop} {x : DataEntry Data} {e : Entry}
    (held : HoldsEntry holds x e) :
    e.key.data = x.key.datum ∧ e.next = x.next ∧ holds x.value e.value := by
  cases held with
  | intro key data _ same value => exact ⟨same, rfl, value⟩

theorem exists_of_mem_of_forall₂ {α β : Type} {related : α → β → Prop} {xs : List α} {ys : List β}
    (each : List.Forall₂ related xs ys) (x : α) (member : x ∈ xs) : ∃ y ∈ ys, related x y := by
  induction each with
  | nil => cases member
  | cons head tail ih =>
      rcases List.mem_cons.mp member with rfl | inside
      · exact ⟨_, List.mem_cons_self, head⟩
      · obtain ⟨y, there, here⟩ := ih inside
        exact ⟨y, List.mem_cons_of_mem _ there, here⟩

namespace Heap

variable {g h : Heap}

/-- Values of two heaps that are the same data. -/
def SameData (g h : Heap) (v w : Value) : Prop :=
  ∃ d, g.Holds d v ∧ h.Holds d w

theorem find?_of_holds {entries : List (DataEntry Data)} {t u : Table} (valid : t.Valid)
    (valid' : u.Valid) (held : List.Forall₂ (HoldsEntry g.Holds) entries t.compact.entries)
    (held' : List.Forall₂ (HoldsEntry h.Holds) entries u.compact.entries) {key x : Value}
    (found : t.find? key = some x) : ∃ y, u.find? key = some y ∧ g.SameData h x y := by
  rw [← Table.find?_compact t key valid,
    Table.find?_eq_some_iff _ _ _ (Table.compact_spec t valid).1] at found
  obtain ⟨k, named, member⟩ := found
  obtain ⟨a, inside, bound⟩ := List.mem_map.mp member
  obtain ⟨e, listed, first⟩ := exists_of_mem_of_forall₂ held.flip a inside
  obtain ⟨b, there, second⟩ := exists_of_mem_of_forall₂ held' e listed
  obtain ⟨keys, _, value⟩ := HoldsEntry.parts first
  obtain ⟨keys', _, value'⟩ := HoldsEntry.parts second
  obtain ⟨rfl, rfl⟩ := Prod.mk.inj bound
  refine ⟨b.value, ?_, e.value, value, value'⟩
  rw [← Table.find?_compact u key valid',
    Table.find?_eq_some_iff _ _ _ (Table.compact_spec u valid').1]
  exact ⟨b.key, (keys'.trans keys.symm).trans named, List.mem_map.mpr ⟨b, there, rfl⟩⟩

theorem SameData.find? {i j : MapId} {isStatic isStatic' : Bool} {t u : Table}
    (same : g.SameData h ⟨.map i, isStatic⟩ ⟨.map j, isStatic'⟩) (present : g.table? i = some t)
    (present' : h.table? j = some u) (valid : t.Valid) (valid' : u.Valid) (key : Value) :
    Option.Rel (g.SameData h) (t.find? key) (u.find? key) := by
  obtain ⟨_, held, held'⟩ := same
  cases held with
  | map entries _ _ _ there each =>
      cases held' with
      | map _ _ _ _ there' each' =>
          cases present.symm.trans there
          cases present'.symm.trans there'
          cases found : t.find? key with
          | some x =>
              obtain ⟨y, found', same⟩ := find?_of_holds valid valid' each each' found
              rw [found']
              exact .some same
          | none =>
              cases found' : u.find? key with
              | none => exact .none
              | some y =>
                  obtain ⟨x, again, _⟩ := find?_of_holds valid' valid each' each found'
                  cases found.symm.trans again

theorem bytes_express (v : Value) (d : Data) (options : DumpOptions) (key : Option String)
    (held : g.Holds d v) (success : (g.express v options key).1.error = none) :
    (g.express v options key).1.bytes =
      (String.ofList (d.text options.weak)).toUTF8.data.toList := by
  obtain ⟨complete, bytes⟩ := Plan.run_complete options.weak none
    ((g.constant v).plan options.context key) success
  have spelled := held.spelling g options.weak options.context d v g.nesting [] key complete
  exact bytes.trans (by rw [constant, spelled])

/-- Two values with plain data that are written as the same text are the same data: a map has the
same entries in the same slots then, and binds the same keys. -/
theorem text_determines_value (g h : Heap) (v w : Value) (d e : Data)
    (options options' : DumpOptions) (key key' : Option String) (held : g.Holds d v)
    (held' : h.Holds e w) (weak : options.weak = options'.weak)
    (success : (g.express v options key).1.error = none)
    (success' : (h.express w options' key').1.error = none)
    (same : (g.express v options key).1.bytes = (h.express w options' key').1.bytes) :
    d = e ∧ ∀ (i j : MapId) (isStatic isStatic' : Bool) (t u : Table), v = ⟨.map i, isStatic⟩ →
      w = ⟨.map j, isStatic'⟩ → g.table? i = some t → h.table? j = some u → t.Valid → u.Valid →
        ∀ k, Option.Rel (g.SameData h) (t.find? k) (u.find? k) := by
  rw [bytes_express v d options key held success,
    bytes_express w e options' key' held' success', ← weak] at same
  have texts : d.text options.weak = e.text options.weak := by
    apply String.ofList_injective
    apply String.toByteArray_inj.mp
    apply ByteArray.ext
    exact Array.toList_inj.mp same
  obtain rfl : d = e := (Data.tells options.weak d e).of_eq texts
  refine ⟨rfl, ?_⟩
  rintro i j isStatic isStatic' t u rfl rfl present present' valid valid' k
  exact SameData.find? ⟨d, held, held'⟩ present present' valid valid' k

def removedData : Data :=
  .map [⟨.number 3, chainEnd, .int 30⟩, ⟨.number 2, chainEnd, .bool true⟩, ⟨.number 5, 1, .nil⟩]

def historyHeap (history : List Table.Operation) : Heap :=
  { empty with maps := #[Table.afterAll history] }

theorem historyHeap_holds (history : List Table.Operation) (isStatic : Bool)
    (entries : (Table.afterAll history).compact.entries =
      [⟨.plain (.int 3), .plain (.int 30), chainEnd⟩,
        ⟨.plain (.int 2), .plain (.bool true), chainEnd⟩, ⟨.plain (.int 5), .plain .nil, 1⟩]) :
    (historyHeap history).Holds removedData ⟨.map ⟨0⟩, isStatic⟩ := by
  refine .map _ ⟨0⟩ (Table.afterAll history) isStatic rfl ?_
  rw [entries]
  refine .cons ?_ (.cons ?_ (.cons ?_ .nil))
  · exact .intro (.number 3) (.int 30) ⟨.plain (.int 3), .plain (.int 30), chainEnd⟩ rfl
      (.int 30 false)
  · exact .intro (.number 2) (.bool true) ⟨.plain (.int 2), .plain (.bool true), chainEnd⟩ rfl
      (.bool true false)
  · exact .intro (.number 5) .nil ⟨.plain (.int 5), .plain .nil, 1⟩ rfl (.nil false)

def looseHeap : Heap :=
  historyHeap Table.crowded.tail

def compactHeap : Heap :=
  historyHeap Table.crowded

/-- Before and after its compaction the map is written alike. -/
theorem loose_text_determines_value :
    (looseHeap.express ⟨.map ⟨0⟩, false⟩ ⟨false, none⟩ none).1.error = none ∧
      (looseHeap.express ⟨.map ⟨0⟩, false⟩ ⟨false, none⟩ none).1.bytes =
        (compactHeap.express ⟨.map ⟨0⟩, true⟩ ⟨false, some "m"⟩ none).1.bytes ∧
      looseHeap.maps ≠ compactHeap.maps ∧ ∀ k, Option.Rel (looseHeap.SameData compactHeap)
        ((Table.afterAll Table.crowded.tail).find? k) ((Table.afterAll Table.crowded).find? k) := by
  have success : (looseHeap.express ⟨.map ⟨0⟩, false⟩ ⟨false, none⟩ none).1.error = none := by
    decide +kernel
  have success' : (compactHeap.express ⟨.map ⟨0⟩, true⟩ ⟨false, some "m"⟩ none).1.error = none := by
    decide +kernel
  have held : looseHeap.Holds removedData ⟨.map ⟨0⟩, false⟩ :=
    historyHeap_holds Table.crowded.tail false (by decide)
  have held' : compactHeap.Holds removedData ⟨.map ⟨0⟩, true⟩ :=
    historyHeap_holds Table.crowded true (by decide)
  have same : (looseHeap.express ⟨.map ⟨0⟩, false⟩ ⟨false, none⟩ none).1.bytes =
      (compactHeap.express ⟨.map ⟨0⟩, true⟩ ⟨false, some "m"⟩ none).1.bytes := by
    rw [bytes_express _ removedData _ _ held success,
      bytes_express _ removedData _ _ held' success']
  have valid := (Table.reached_afterAll Table.crowded.tail (by decide)).valid.1
  have valid' := (Table.reached_afterAll Table.crowded (by decide)).valid.1
  obtain ⟨_, bindings⟩ := text_determines_value looseHeap compactHeap _ _ removedData removedData
    _ _ none none held held' rfl success success' same
  exact ⟨success, same, by decide,
    bindings ⟨0⟩ ⟨0⟩ false true _ _ rfl rfl rfl rfl valid valid'⟩

end Heap

end StaticImage
