import StaticImage.Proofs.Image.Layout
import StaticImage.Proofs.Table.FiniteMap

namespace StaticImage

/-- What can be asked of a heap: a dump into a sink, or the constant expression of a value. -/
inductive Call where
  | dump (root : Value) (options : DumpOptions) (room : Option Nat)
  | express (v : Value) (options : DumpOptions) (key : Option String)
  deriving DecidableEq, Repr

structure Table.Agrees (t u : Table) : Prop where
  bindings : u.bindings.Perm t.bindings
  count : u.count = t.count
  find : ∀ key, u.find? key = t.find? key

namespace Heap

def call (h : Heap) : Call → DumpOutcome × Heap
  | .dump root options room => h.dump root options room
  | .express v options key => h.express v options key

def after (h : Heap) (calls : List Call) : Heap :=
  calls.foldl (fun h c => (h.call c).2) h

def ValidTables (h : Heap) : Prop :=
  ∀ id t, h.table? id = some t → t.Valid

/-- Nothing differs but the slots in which maps keep their bindings. -/
structure DiffersInSlots (before after : Heap) : Prop where
  rest : { after with maps := before.maps } = before
  size : after.maps.size = before.maps.size
  tables : ∀ id t, before.table? id = some t → ∃ u, after.table? id = some u ∧ t.Agrees u

theorem Relaid.differsInSlots {before after : Heap} (relaid : Relaid before after)
    (valid : before.ValidTables) (still : after.ValidTables) : DiffersInSlots before after := by
  refine ⟨relaid.rest, relaid.size, fun id t present => ?_⟩
  rcases relaid.table id with ⟨missing, _⟩ | ⟨_, u, found, there, same⟩
  · rw [present] at missing
    cases missing
  · cases present.symm.trans found
    have left := valid id t present
    have right := still id u there
    obtain ⟨_, _, to_left⟩ := Table.compact_spec t left
    obtain ⟨_, _, to_right⟩ := Table.compact_spec u right
    rw [same] at to_right
    have bindings : u.bindings.Perm t.bindings := to_right.symm.trans to_left
    refine ⟨u, there, bindings, ?_, fun key => Table.find?_congr t u key left right bindings⟩
    rw [left.counted, right.counted, bindings.length_eq]

theorem table?_modifyTable (h : Heap) (id other : MapId) (f : Table → Table) :
    (h.modifyTable id f).table? other =
      if id = other then (h.table? other).map f else h.table? other := by
  rcases id with ⟨index⟩
  rcases other with ⟨place⟩
  simp only [modifyTable, table?, Array.getElem?_modify, MapId.mk.injEq]

theorem compact_relaid (h : Heap) (id : MapId) (valid : h.ValidTables) :
    Relaid h (h.modifyTable id Table.compact) ∧
      (h.modifyTable id Table.compact).ValidTables := by
  refine ⟨⟨rfl, ?_⟩, fun other t present => ?_⟩
  · apply Array.ext_getElem?
    intro index
    simp only [modifyTable, Array.getElem?_map, Array.getElem?_modify]
    split
    · rcases found : h.maps[index]? with _ | t
      · rfl
      · simp only [Option.map_some, Table.compact_compact t (valid ⟨index⟩ t found)]
    · rfl
  · rw [table?_modifyTable] at present
    split at present
    · obtain ⟨u, there, rfl⟩ := Option.map_eq_some_iff.mp present
      exact (Table.compact_spec u (valid other u there)).1
    · exact valid other t present

theorem compactAll_relaid (h : Heap) (ids : List MapId) (valid : h.ValidTables) :
    Relaid h (h.compactAll ids) ∧ (h.compactAll ids).ValidTables := by
  induction ids generalizing h with
  | nil => exact ⟨Relaid.refl h, valid⟩
  | cons id rest ih =>
      obtain ⟨one, kept⟩ := compact_relaid h id valid
      obtain ⟨all, still⟩ := ih (h.modifyTable id Table.compact) kept
      exact ⟨one.trans all, still⟩

theorem call_congr {before after : Heap} (relaid : Relaid before after) (c : Call) :
    (after.call c).1 = (before.call c).1 := by
  cases c with
  | dump root options room => simp only [call, dump, rootPlan_congr relaid]
  | express v options key => simp only [call, express, constant_congr relaid]

theorem call_relaid (h : Heap) (c : Call) (valid : h.ValidTables) :
    Relaid h (h.call c).2 ∧ (h.call c).2.ValidTables := by
  cases c with
  | dump root options room => exact compactAll_relaid h _ valid
  | express v options key => exact compactAll_relaid h _ valid

theorem after_relaid (h : Heap) (calls : List Call) (valid : h.ValidTables) :
    Relaid h (h.after calls) ∧ (h.after calls).ValidTables := by
  induction calls generalizing h with
  | nil => exact ⟨Relaid.refl h, valid⟩
  | cons c rest ih =>
      obtain ⟨one, kept⟩ := call_relaid h c valid
      obtain ⟨all, still⟩ := ih (h.call c).2 kept
      exact ⟨one.trans all, still⟩

/-- Whatever calls were made before, a call has the outcome that it has on the original heap, and
the heap differs from the original only in the slots of its maps. -/
theorem calls_do_not_disturb (h : Heap) (calls : List Call)
    (reached : ∀ id t, h.table? id = some t → ∃ history, Table.Reached history t) :
    (∀ later, ((h.after calls).call later).1 = (h.call later).1) ∧
      DiffersInSlots h (h.after calls) := by
  have valid : h.ValidTables := by
    intro id t present
    obtain ⟨history, steps⟩ := reached id t present
    exact steps.valid.1
  obtain ⟨relaid, still⟩ := after_relaid h calls valid
  exact ⟨call_congr relaid, relaid.differsInSlots valid still⟩

/-- Operations that leave empty slots, in a map that comes to hold itself. -/
def looping : List Table.Operation :=
  .insert (.plain (.int 4)) (.plain (.map ⟨0⟩)) :: Table.crowded.tail

def loopedMap : Heap :=
  { empty with maps := #[Table.afterAll looping] }

theorem looped_map_is_not_disturbed :
    let calls := [.dump (.plain (.map ⟨0⟩)) ⟨false, none⟩ (some 8),
      .express (.plain (.map ⟨0⟩)) ⟨true, none⟩ none]
    (∀ id t, loopedMap.table? id = some t → ∃ history, Table.Reached history t) ∧
      (∀ later, ((loopedMap.after calls).call later).1 = (loopedMap.call later).1) ∧
      DiffersInSlots loopedMap (loopedMap.after calls) := by
  intro calls
  have reached : ∀ id t, loopedMap.table? id = some t → ∃ history, Table.Reached history t := by
    intro id t present
    rcases id with ⟨_ | index⟩
    · cases present
      exact ⟨looping, Table.reached_afterAll looping (by decide)⟩
    · cases present
  exact ⟨reached, calls_do_not_disturb loopedMap calls reached⟩

end Heap

end StaticImage
