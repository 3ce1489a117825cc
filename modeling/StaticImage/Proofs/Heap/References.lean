import Mathlib.Data.List.Nodup
import Mathlib.Data.List.Perm.Subperm
import Mathlib.Logic.Relation
import StaticImage.Heap.Basic

/-!
References between the objects of a heap. A heap is closed if they all lead to objects that it has;
lists, maps and instances contain each other through the values that they hold, and prototypes nest
through their own lists.
-/

namespace StaticImage

inductive ObjectId where
  | proto (id : ProtoId)
  | closure (id : ClosureId)
  | classObject (id : ClassId)
  | moduleObject (id : ModuleId)
  | instanceObject (id : InstanceId)
  | map (id : MapId)
  | list (id : ListId)
  deriving DecidableEq, Repr

/-- Objects that hold what they were created with. -/
def ObjectId.isFixed : ObjectId → Bool
  | instanceObject _ => true
  | list _ => true
  | _ => false

/-- Objects that are nothing but the values they hold. -/
def ObjectId.isAggregate : ObjectId → Bool
  | map _ => true
  | o => o.isFixed

def Value.object? (v : Value) : Option ObjectId :=
  match v.data with
  | .closure id => some (.closure id)
  | .classObject id => some (.classObject id)
  | .moduleObject id => some (.moduleObject id)
  | .instanceObject id => some (.instanceObject id)
  | .map id => some (.map id)
  | .list id => some (.list id)
  | _ => none

def InstanceClass.class? : InstanceClass → Option ClassId
  | user id => some id
  | _ => none

def InstanceData.values : InstanceData → List Value
  | members values => values
  | bytes _ => []

def Table.parts (t : Table) : List Value :=
  t.entries.flatMap fun e => [e.key, e.value]

namespace Heap

def Has (h : Heap) : ObjectId → Prop
  | .proto id => id.index < h.protos.size
  | .closure id => id.index < h.closures.size
  | .classObject id => id.index < h.classes.size
  | .moduleObject id => id.index < h.modules.size
  | .instanceObject id => id.index < h.instances.size
  | .map id => id.index < h.maps.size
  | .list id => id.index < h.lists.size

def values (h : Heap) : ObjectId → List Value
  | .proto id => ((h.proto? id).map Prototype.consts).getD []
  | .closure id => ((h.closureAt? id).map Closure.captured).getD []
  | .classObject _ => []
  | .moduleObject _ => []
  | .instanceObject id => ((h.instance? id).map fun i => i.data.values).getD []
  | .map id => ((h.table? id).map Table.parts).getD []
  | .list id => (h.list? id).getD []

def links (h : Heap) : ObjectId → List ObjectId
  | .proto id => ((h.proto? id).map fun p =>
      p.protos.map .proto ++ p.owner.toList.map .classObject).getD []
  | .closure id => ((h.closureAt? id).map fun c => [.proto c.proto]).getD []
  | .classObject id => ((h.class? id).map fun c =>
      c.super.toList.map .classObject ++ c.members.toList.map .map).getD []
  | .moduleObject id => ((h.module? id).map fun m => m.members.toList.map .map).getD []
  | .instanceObject id => ((h.instance? id).map fun i =>
      i.ofClass.class?.toList.map .classObject ++
        (i.super.toList ++ i.sub.toList).map .instanceObject).getD []
  | .map _ => []
  | .list _ => []

def references (h : Heap) (o : ObjectId) : List ObjectId :=
  h.links o ++ (h.values o).filterMap Value.object?

def Closed (h : Heap) : Prop :=
  ∀ o, ∀ r ∈ h.references o, h.Has r

def Contains (h : Heap) (holder part : ObjectId) : Prop :=
  holder.isAggregate ∧ ∃ v ∈ h.values holder, v.object? = some part

def ContainsFixed (h : Heap) (holder part : ObjectId) : Prop :=
  holder.isFixed ∧ ∃ v ∈ h.values holder, v.object? = some part

def Nests (h : Heap) (outer inner : ProtoId) : Prop :=
  ∃ p, h.proto? outer = some p ∧ inner ∈ p.protos

def NestsProperly (h : Heap) : Prop :=
  ∀ id, ¬ Relation.TransGen h.Nests id id

/-- What lists and instances hold is older than they are, if objects have these ages. -/
def HoldsOlder (h : Heap) (age : ObjectId → Nat) : Prop :=
  ∀ holder part, h.ContainsFixed holder part → age part < age holder

theorem lt_size_iff {α : Type} (xs : Array α) (index : Nat) :
    index < xs.size ↔ ∃ x, xs[index]? = some x :=
  ⟨fun inside => ⟨xs[index], Array.getElem?_eq_getElem inside⟩,
    fun ⟨_, found⟩ => (Array.getElem?_eq_some_iff.mp found).1⟩

section

variable (h : Heap)

theorem has_proto_iff (id : ProtoId) : h.Has (.proto id) ↔ ∃ p, h.proto? id = some p :=
  lt_size_iff _ _

theorem has_closure_iff (id : ClosureId) : h.Has (.closure id) ↔ ∃ c, h.closureAt? id = some c :=
  lt_size_iff _ _

theorem has_class_iff (id : ClassId) : h.Has (.classObject id) ↔ ∃ c, h.class? id = some c :=
  lt_size_iff _ _

theorem has_module_iff (id : ModuleId) :
    h.Has (.moduleObject id) ↔ ∃ m, h.module? id = some m :=
  lt_size_iff _ _

theorem has_instance_iff (id : InstanceId) :
    h.Has (.instanceObject id) ↔ ∃ i, h.instance? id = some i :=
  lt_size_iff _ _

theorem has_map_iff (id : MapId) : h.Has (.map id) ↔ ∃ t, h.table? id = some t :=
  lt_size_iff _ _

theorem has_list_iff (id : ListId) : h.Has (.list id) ↔ ∃ items, h.list? id = some items :=
  lt_size_iff _ _

theorem not_has_of_className? (id : ClassId) (missing : h.className? id = none) :
    ¬ h.Has (.classObject id) := by
  rw [has_class_iff]
  rintro ⟨c, present⟩
  simp [className?, present] at missing

end

theorem Closed.value {h : Heap} (closed : h.Closed) (o : ObjectId) (v : Value)
    (held : v ∈ h.values o) (part : ObjectId) (refers : v.object? = some part) : h.Has part :=
  closed o part (List.mem_append_right _ (List.mem_filterMap.mpr ⟨v, held, refers⟩))

theorem Closed.link {h : Heap} (closed : h.Closed) (o part : ObjectId) (linked : part ∈ h.links o) :
    h.Has part :=
  closed o part (List.mem_append_left _ linked)

theorem references_list {h : Heap} {id : ListId} {items : List Value}
    (present : h.list? id = some items) :
    h.references (.list id) = items.filterMap Value.object? := by
  simp [references, links, values, present]

theorem references_map {h : Heap} {id : MapId} {t : Table} (present : h.table? id = some t) :
    h.references (.map id) = t.parts.filterMap Value.object? := by
  simp [references, links, values, present]

theorem references_instance {h : Heap} {id : InstanceId} {i : InstanceObject}
    (present : h.instance? id = some i) (alone : i.super = none ∧ i.sub = none) :
    h.references (.instanceObject id) =
      i.ofClass.class?.toList.map .classObject ++ i.data.values.filterMap Value.object? := by
  simp [references, links, values, present, alone]

/-- Along a relation that leads from older to younger nothing comes back to itself. -/
theorem not_transGen_self {α : Type} {r : α → α → Prop} (age : α → Nat)
    (younger : ∀ a b, r a b → age b < age a) (a : α) : ¬ Relation.TransGen r a a := by
  have decreasing (b : α) (path : Relation.TransGen r a b) : age b < age a := by
    induction path with
    | single first => exact younger _ _ first
    | tail _ last ih => exact Nat.lt_trans (younger _ _ last) ih
  intro cycle
  exact Nat.lt_irrefl _ (decreasing a cycle)

theorem pairwise_numbers {α : Type} (xs : List α) :
    xs.zipIdx.Pairwise fun first second => first.2 ≠ second.2 := by
  apply List.pairwise_map.mp
  rw [List.zipIdx_map_snd]
  exact List.nodup_range'

theorem length_le_of_numbers {α : Type} (xs : List α) (number : α → Nat) (bound : Nat)
    (distinct : xs.Nodup) (apart : ∀ x ∈ xs, ∀ y ∈ xs, number x = number y → x = y)
    (below : ∀ x ∈ xs, number x < bound) : xs.length ≤ bound := by
  have numbers : (xs.map number).Nodup :=
    distinct.map_on fun x left y right => apart x left y right
  have inside : xs.map number ⊆ List.range bound := by
    intro n member
    obtain ⟨x, inside, rfl⟩ := List.mem_map.mp member
    exact List.mem_range.mpr (below x inside)
  simpa using (numbers.subperm inside).length_le

theorem length_fixed_le (h : Heap) (objects : List ObjectId) (distinct : objects.Nodup)
    (held : ∀ o ∈ objects, o.isFixed ∧ h.Has o) :
    objects.length ≤ h.lists.size + h.instances.size := by
  let number : ObjectId → Nat
    | .list id => id.index
    | .instanceObject id => h.lists.size + id.index
    | _ => 0
  have list (id : ListId) (has : h.Has (.list id)) : id.index < h.lists.size := has
  have inst (id : InstanceId) (has : h.Has (.instanceObject id)) :
      id.index < h.instances.size := has
  refine length_le_of_numbers objects number _ distinct ?_ ?_
  · intro x left y right same
    obtain ⟨x_fixed, x_has⟩ := held x left
    obtain ⟨y_fixed, y_has⟩ := held y right
    cases x <;> cases y <;> simp only [ObjectId.isFixed, Bool.false_eq_true] at x_fixed y_fixed
    · rename_i x y
      have equal : h.lists.size + x.index = h.lists.size + y.index := same
      have index : x.index = y.index := by omega
      rcases x with ⟨_⟩
      rcases y with ⟨_⟩
      cases index
      rfl
    · rename_i x y
      have equal : h.lists.size + x.index = y.index := same
      have below := list y y_has
      omega
    · rename_i x y
      have equal : x.index = h.lists.size + y.index := same
      have below := list x x_has
      omega
    · rename_i x y
      have index : x.index = y.index := same
      rcases x with ⟨_⟩
      rcases y with ⟨_⟩
      cases index
      rfl
  · intro o member
    obtain ⟨fixed, has⟩ := held o member
    cases o with
    | list id =>
        have below := list id has
        change id.index < _
        omega
    | instanceObject id =>
        have below := inst id has
        change h.lists.size + id.index < _
        omega
    | _ => cases fixed

end Heap

end StaticImage
