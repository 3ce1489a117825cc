import StaticImage.Proofs.Heap.References
import StaticImage.Proofs.Table.Counting

namespace StaticImage

open Relation (ReflTransGen)

def InstanceObject.content? (i : InstanceObject) : Option Value :=
  match i.ofClass, i.data with
  | .map, .members (inner :: _) => some inner
  | .list, .members (inner :: _) => some inner
  | _, _ => none

namespace Heap

def parts (h : Heap) (v : Value) : List Value :=
  match v.data with
  | .map id => ((h.table? id).map fun t => t.entries.map Entry.value).getD []
  | .list id => (h.list? id).getD []
  | .instanceObject id => ((h.instance? id).bind InstanceObject.content?).toList
  | _ => []

def HasPart (h : Heap) (v w : Value) : Prop :=
  w ∈ h.parts v

def Reaches (h : Heap) : Value → Value → Prop :=
  ReflTransGen h.HasPart

def Made (h : Heap) : Prop :=
  ∀ id t, h.table? id = some t → ∃ size history, t = Table.made size history

/-- The value at the end of a route, which says by its number to which part each step goes. -/
def at? (h : Heap) : List Nat → Value → Option Value
  | [], v => some v
  | i :: route, v => ((h.parts v)[i]?).bind (h.at? route)

def routes (h : Heap) (id : MapId) : (bound : Nat) → Value → List (List Nat)
  | 0, _ => []
  | bound + 1, v => (if v.data = .map id then [[]] else []) ++
      (h.parts v).zipIdx.flatMap fun numbered =>
        (h.routes id bound numbered.1).map (numbered.2 :: ·)

variable {h : Heap}

theorem Made.bindings (made : h.Made) {id : MapId} {t : Table} (present : h.table? id = some t) :
    t.compact.bindings.Perm t.bindings := by
  obtain ⟨size, history, rfl⟩ := made id t present
  exact Table.compact_made size history

theorem Made.stored (made : h.Made) {id : MapId} {t : Table} (present : h.table? id = some t) :
    (t.compact.entries.map Entry.value).Perm (t.entries.map Entry.value) := by
  simpa [Table.bindings, Entry.binding, Function.comp_def] using
    (made.bindings present).map Prod.snd

theorem Made.entry (made : h.Made) {id : MapId} {t : Table} (present : h.table? id = some t)
    (e : Entry) (member : e ∈ t.entries) : ∃ f ∈ t.compact.entries, f.binding = e.binding := by
  have bound : e.binding ∈ t.bindings := List.mem_map.mpr ⟨e, member, rfl⟩
  exact List.mem_map.mp ((made.bindings present).symm.subset bound)

theorem Made.left (made : h.Made) {id : MapId} {t : Table} (present : h.table? id = some t)
    (e : Entry) (member : e ∈ t.compact.entries) : ∃ f ∈ t.entries, f.binding = e.binding := by
  have bound : e.binding ∈ t.compact.bindings := List.mem_map.mpr ⟨e, member, rfl⟩
  exact List.mem_map.mp ((made.bindings present).subset bound)

theorem mem_routes_iff (h : Heap) (id : MapId) (bound : Nat) (v : Value) (route : List Nat) :
    route ∈ h.routes id bound v ↔
      route.length < bound ∧ ∃ w, h.at? route v = some w ∧ w.data = .map id := by
  induction bound generalizing v route with
  | zero => simp [routes]
  | succ bound ih =>
      cases route with
      | nil => simp [routes, at?]
      | cons i route =>
          simp only [routes, List.mem_append, List.mem_ite_nil_right, List.mem_singleton,
            reduceCtorEq, and_false, false_or, List.mem_flatMap, List.mem_map, List.cons.injEq,
            Prod.exists, List.mem_zipIdx_iff_getElem?, at?, Option.bind_eq_some_iff,
            List.length_cons, Nat.succ_lt_succ_iff]
          constructor
          · rintro ⟨part, _, here, _, inside, rfl, rfl⟩
            obtain ⟨short, w, there, same⟩ := (ih part _).mp inside
            exact ⟨short, w, ⟨part, here, there⟩, same⟩
          · rintro ⟨short, w, ⟨part, here, there⟩, same⟩
            exact ⟨part, i, here, route, (ih part route).mpr ⟨short, w, there, same⟩, rfl, rfl⟩

theorem nodup_routes (h : Heap) (id : MapId) (bound : Nat) (v : Value) :
    (h.routes id bound v).Nodup := by
  induction bound generalizing v with
  | zero => exact List.nodup_nil
  | succ bound ih =>
      have onward : ((h.parts v).zipIdx.flatMap fun numbered =>
          (h.routes id bound numbered.1).map (numbered.2 :: ·)).Nodup := by
        rw [List.nodup_flatMap]
        refine ⟨fun numbered _ => (ih numbered.1).map fun a b same => (List.cons.inj same).2, ?_⟩
        refine (pairwise_numbers _).imp fun {first second} distinct route here there => ?_
        obtain ⟨_, _, rfl⟩ := List.mem_map.mp here
        obtain ⟨_, _, same⟩ := List.mem_map.mp there
        exact distinct (List.cons.inj same).1.symm
      rw [routes, List.nodup_append']
      refine ⟨by split <;> simp, onward, ?_⟩
      intro route here there
      obtain ⟨_, _, inside⟩ := List.mem_flatMap.mp there
      obtain ⟨_, _, rfl⟩ := List.mem_map.mp inside
      simp at here

theorem length_routes (h : Heap) (id : MapId) (bound : Nat) (v : Value) :
    (h.routes id (bound + 1) v).length = (if v.data = .map id then 1 else 0) +
      ((h.parts v).map fun part => (h.routes id bound part).length).sum := by
  have parts : ((h.parts v).zipIdx.map fun numbered => (h.routes id bound numbered.1).length) =
      (h.parts v).map fun part => (h.routes id bound part).length := by
    rw [← List.zipIdx_map_fst 0 (h.parts v), List.map_map]
    simp [Function.comp_def]
  rw [routes, List.length_append, List.length_flatMap, ← parts]
  congr 1
  · split <;> rfl
  · simp

end Heap

end StaticImage
