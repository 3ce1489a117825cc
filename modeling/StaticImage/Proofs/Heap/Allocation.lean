import Mathlib.Data.List.Basic
import StaticImage.Proofs.Heap.References

/-!
Allocation: one object more, and all others as they were. In the order in which objects are
allocated, what a list, map or instance holds comes before it, as long as nothing is put into one
later.
-/

namespace StaticImage

inductive ObjectKind where
  | proto
  | closure
  | classObject
  | moduleObject
  | instanceObject
  | map
  | list
  deriving DecidableEq, Repr

namespace ObjectId

def kind : ObjectId → ObjectKind
  | proto _ => .proto
  | closure _ => .closure
  | classObject _ => .classObject
  | moduleObject _ => .moduleObject
  | instanceObject _ => .instanceObject
  | map _ => .map
  | list _ => .list

def index : ObjectId → Nat
  | proto id => id.index
  | closure id => id.index
  | classObject id => id.index
  | moduleObject id => id.index
  | instanceObject id => id.index
  | map id => id.index
  | list id => id.index

def ofIndex (index : Nat) : ObjectKind → ObjectId
  | .proto => .proto ⟨index⟩
  | .closure => .closure ⟨index⟩
  | .classObject => .classObject ⟨index⟩
  | .moduleObject => .moduleObject ⟨index⟩
  | .instanceObject => .instanceObject ⟨index⟩
  | .map => .map ⟨index⟩
  | .list => .list ⟨index⟩

theorem ofIndex_index (x : ObjectId) : ofIndex x.index x.kind = x := by
  cases x <;> rfl

theorem eq_of_kind_of_index {x y : ObjectId} (kind : x.kind = y.kind) (index : x.index = y.index) :
    x = y := by
  rw [← ofIndex_index x, kind, index, ofIndex_index y]

end ObjectId

namespace Heap

def population (h : Heap) : ObjectKind → Nat
  | .proto => h.protos.size
  | .closure => h.closures.size
  | .classObject => h.classes.size
  | .moduleObject => h.modules.size
  | .instanceObject => h.instances.size
  | .map => h.maps.size
  | .list => h.lists.size

theorem has_iff_index_lt (h : Heap) (o : ObjectId) : h.Has o ↔ o.index < h.population o.kind := by
  cases o <;> exact Iff.rfl

def SameAt (h h' : Heap) : ObjectId → Prop
  | .proto id => h'.proto? id = h.proto? id
  | .closure id => h'.closureAt? id = h.closureAt? id
  | .classObject id => h'.class? id = h.class? id
  | .moduleObject id => h'.module? id = h.module? id
  | .instanceObject id => h'.instance? id = h.instance? id
  | .map id => h'.table? id = h.table? id
  | .list id => h'.list? id = h.list? id

def Knows (h : Heap) (v : Value) : Prop :=
  ∀ o, v.object? = some o → h.Has o

def Alone (h : Heap) (o : ObjectId) : Prop :=
  ∀ id i, o = .instanceObject id → h.instance? id = some i → i.super = none ∧ i.sub = none

structure Allocates (h : Heap) (o : ObjectId) (h' : Heap) : Prop where
  has : ∀ x, h'.Has x ↔ h.Has x ∨ x = o
  next : ∀ x, h.Has x → x.kind = o.kind → x.index < o.index
  same : ∀ x, h.Has x → SameAt h h' x
  builtins : h'.builtins = h.builtins

structure Changes (h : Heap) (objects : List ObjectId) (h' : Heap) : Prop where
  has : ∀ x, h.Has x → h'.Has x
  same : ∀ x, h.Has x → x ∉ objects → SameAt h h' x

structure Allocated (h : Heap) (order : List ObjectId) : Prop where
  all : ∀ o, o ∈ order ↔ h.Has o
  numbered : order.Pairwise fun a b => a.kind = b.kind → a.index < b.index
  older : ∀ holder part, h.Contains holder part → [part, holder].Sublist order
  alone : ∀ o, h.Alone o
  classes : ∀ id i c, h.instance? id = some i → i.ofClass.class? = some c → h.Has (.classObject c)

/-- A history that leads to the heap: objects are allocated in this order, lists, maps and instances
around what is there already, and in between others are set. -/
inductive Built : List ObjectId → Heap → Prop where
  | start : Built [] .empty
  | allocate (order : List ObjectId) (h : Heap) (o : ObjectId) (h' : Heap) (built : Built order h)
      (allocates : h.Allocates o h') (held : o.isAggregate → ∀ r ∈ h'.references o, h.Has r)
      (alone : h'.Alone o) : Built (order ++ [o]) h'
  | set (order : List ObjectId) (h : Heap) (objects : List ObjectId) (h' : Heap)
      (built : Built order h) (changes : Changes h objects h') (old : ∀ x, h'.Has x → h.Has x)
      (others : ∀ x ∈ objects, x.isAggregate = false) : Built order h'

/-- Lists, maps and instances are allocated, in this order, around what was there before each. -/
inductive Grows (h : Heap) : List ObjectId → Heap → Prop where
  | same : Grows h [] h
  | more (order : List ObjectId) (mid : Heap) (o : ObjectId) (h' : Heap)
      (before : Grows h order mid) (allocates : mid.Allocates o h') (kind : o.isAggregate)
      (held : ∀ r ∈ h'.references o, mid.Has r) (alone : h'.Alone o) :
      Grows h (order ++ [o]) h'

section

variable {h h' : Heap} {o : ObjectId}

theorem SameAt.values (same : SameAt h h' o) : h'.values o = h.values o := by
  cases o <;> simp only [SameAt] at same <;> simp only [Heap.values, same]

theorem SameAt.refl (h : Heap) (o : ObjectId) : SameAt h h o := by
  cases o <;> rfl

theorem SameAt.trans {mid : Heap} (first : SameAt h mid o) (second : SameAt mid h' o) :
    SameAt h h' o := by
  cases o <;> exact Eq.trans second first

theorem values_eq_nil (missing : ¬ h.Has o) : h.values o = [] := by
  have none {α : Type} (xs : Array α) (index : Nat) (missing : ¬ index < xs.size) :
      xs[index]? = none := Array.getElem?_eq_none (Nat.le_of_not_lt missing)
  cases o <;> simp only [Has] at missing <;>
    simp [Heap.values, proto?, closureAt?, instance?, table?, list?, none _ _ missing]

theorem Contains.has {part : ObjectId} (contains : h.Contains o part) : h.Has o := by
  by_contra missing
  obtain ⟨_, v, held, _⟩ := contains
  rw [values_eq_nil missing] at held
  cases held

end

namespace Changes

variable {h mid h' : Heap} {objects : List ObjectId}

theorem refl (h : Heap) (objects : List ObjectId) : Changes h objects h :=
  ⟨fun _ has => has, fun x _ _ => .refl h x⟩

theorem trans (first : Changes h objects mid) (second : Changes mid objects h') :
    Changes h objects h' := by
  refine ⟨fun x has => second.has x (first.has x has), fun x has other => ?_⟩
  exact (first.same x has other).trans (second.same x (first.has x has) other)

theorem mono {more : List ObjectId} (changes : Changes h objects h')
    (inside : objects ⊆ more) : Changes h more h' :=
  ⟨changes.has, fun x has other => changes.same x has fun member => other (inside member)⟩

end Changes

theorem Allocates.changes {h h' : Heap} {o : ObjectId} (allocates : h.Allocates o h') :
    Changes h [] h' :=
  ⟨fun x has => (allocates.has x).mpr (Or.inl has), fun x has _ => allocates.same x has⟩

theorem Allocates.fresh {h h' : Heap} {o : ObjectId} (allocates : h.Allocates o h') : ¬ h.Has o :=
  fun has => Nat.lt_irrefl _ (allocates.next o has rfl)

namespace Allocated

variable {h h' : Heap} {order : List ObjectId}

theorem empty : Heap.empty.Allocated [] := by
  have nothing (o : ObjectId) : ¬ Heap.empty.Has o := by
    cases o <;> exact Nat.not_lt_zero _
  refine ⟨fun o => ?_, .nil, fun holder part contains => ?_, ?_, fun id i c present => ?_⟩
  · simpa using nothing o
  · exact (nothing holder contains.has).elim
  · rintro o id i rfl present
    exact (nothing _ ((Heap.empty.has_instance_iff id).mpr ⟨i, present⟩)).elim
  · exact (nothing _ ((Heap.empty.has_instance_iff id).mpr ⟨i, present⟩)).elim

theorem distinct (allocated : h.Allocated order) : order.Nodup := by
  refine allocated.numbered.imp ?_
  rintro a b before rfl
  exact Nat.lt_irrefl _ (before rfl)

theorem more {o : ObjectId} (allocated : h.Allocated order) (allocates : h.Allocates o h')
    (held : o.isAggregate → ∀ r ∈ h'.references o, h.Has r) (alone : h'.Alone o) :
    h'.Allocated (order ++ [o]) := by
  refine ⟨fun x => ?_, ?_, fun holder part contains => ?_, fun x id i here present => ?_,
    fun id i c present class? => ?_⟩
  · rw [List.mem_append, List.mem_singleton, allocated.all, allocates.has]
  · refine List.pairwise_append.mpr ⟨allocated.numbered, List.pairwise_singleton _ _, ?_⟩
    intro x member y last kind
    cases List.mem_singleton.mp last
    exact allocates.next x ((allocated.all x).mp member) kind
  · have here := contains.has
    obtain ⟨kind, v, inside, refers⟩ := contains
    rcases (allocates.has holder).mp here with old | rfl
    · rw [(allocates.same holder old).values] at inside
      exact (allocated.older holder part ⟨kind, v, inside, refers⟩).trans
        (List.sublist_append_left order [o])
    · have present : h.Has part := held kind part
        (List.mem_append_right _ (List.mem_filterMap.mpr ⟨v, inside, refers⟩))
      have before : [part].Sublist order :=
        List.singleton_sublist.mpr ((allocated.all part).mpr present)
      exact before.append (List.Sublist.refl [holder])
  · cases here
    by_cases old : h.Has (.instanceObject id)
    · rw [allocates.same _ old] at present
      exact allocated.alone _ id i rfl present
    · rcases (allocates.has (.instanceObject id)).mp ((h'.has_instance_iff id).mpr ⟨i, present⟩)
        with again | rfl
      · exact (old again).elim
      · exact alone id i rfl present
  · refine (allocates.has _).mpr (Or.inl ?_)
    by_cases old : h.Has (.instanceObject id)
    · rw [allocates.same _ old] at present
      exact allocated.classes id i c present class?
    · rcases (allocates.has (.instanceObject id)).mp ((h'.has_instance_iff id).mpr ⟨i, present⟩)
        with again | rfl
      · exact (old again).elim
      · refine held rfl _ (List.mem_append_left _ ?_)
        simp [links, present, class?]

theorem of_changes {objects : List ObjectId} (allocated : h.Allocated order)
    (changes : Changes h objects h') (none_new : ∀ x, h'.Has x → h.Has x)
    (others : ∀ x ∈ objects, x.isAggregate = false) : h'.Allocated order := by
  have same (x : ObjectId) (has : h.Has x) (kind : x.isAggregate) : SameAt h h' x := by
    refine changes.same x has fun member => ?_
    rw [others x member] at kind
    cases kind
  refine ⟨fun x => ?_, allocated.numbered, fun holder part contains => ?_, ?_, ?_⟩
  · rw [allocated.all]
    exact ⟨changes.has x, none_new x⟩
  · have old := none_new holder contains.has
    obtain ⟨kind, v, inside, refers⟩ := contains
    rw [(same holder old kind).values] at inside
    exact allocated.older holder part ⟨kind, v, inside, refers⟩
  · rintro x id i rfl present
    have old := none_new _ ((h'.has_instance_iff id).mpr ⟨i, present⟩)
    rw [same _ old rfl] at present
    exact allocated.alone _ id i rfl present
  · intro id i c present class?
    have old := none_new _ ((h'.has_instance_iff id).mpr ⟨i, present⟩)
    rw [same _ old rfl] at present
    exact changes.has _ (allocated.classes id i c present class?)

end Allocated

theorem Built.allocated {h : Heap} {order : List ObjectId} (built : h.Built order) :
    h.Allocated order := by
  induction built with
  | start => exact .empty
  | allocate order h o h' built allocates held alone ih => exact ih.more allocates held alone
  | set order h objects h' built changes old others ih => exact ih.of_changes changes old others

namespace Grows

variable {h mid h' : Heap} {order later : List ObjectId}

theorem trans (first : h.Grows order mid) (second : mid.Grows later h') :
    h.Grows (order ++ later) h' := by
  induction second with
  | same =>
      rw [List.append_nil]
      exact first
  | more later mid o h' before allocates kind held alone ih =>
      rw [← List.append_assoc]
      exact .more (order ++ later) mid o h' ih allocates kind held alone

theorem changes (grows : h.Grows order h') : Changes h [] h' := by
  induction grows with
  | same => exact .refl h []
  | more order mid o h' before allocates kind held alone ih => exact ih.trans allocates.changes

theorem builtins (grows : h.Grows order h') : h'.builtins = h.builtins := by
  induction grows with
  | same => rfl
  | more order mid o h' before allocates kind held alone ih => rw [allocates.builtins, ih]

theorem built {earlier : List ObjectId} (grows : h.Grows order h') (built : h.Built earlier) :
    h'.Built (earlier ++ order) := by
  induction grows with
  | same =>
      rw [List.append_nil]
      exact built
  | more order mid o h' before allocates kind held alone ih =>
      rw [← List.append_assoc]
      exact .allocate (earlier ++ order) mid o h' ih allocates (fun _ => held) alone

theorem old (grows : h.Grows order h') (x : ObjectId) (has : h'.Has x)
    (kind : x.isAggregate = false) : h.Has x := by
  induction grows with
  | same => exact has
  | more order mid o h' before allocates aggregate held alone ih =>
      rcases (allocates.has x).mp has with old | rfl
      · exact ih old
      · rw [aggregate] at kind
        cases kind

end Grows

structure Extends (h : Heap) (objects : List ObjectId) (h' : Heap) : Prop where
  changes : Changes h objects h'
  old : ∀ x, h'.Has x → x.isAggregate = false → h.Has x
  built : ∀ order, h.Built order → ∃ more, h'.Built (order ++ more)

namespace Extends

variable {h mid h' : Heap} {objects : List ObjectId}

theorem refl (h : Heap) (objects : List ObjectId) : h.Extends objects h :=
  ⟨.refl h objects, fun _ has _ => has, fun order built => ⟨[], by simpa using built⟩⟩

theorem trans (first : h.Extends objects mid) (second : mid.Extends objects h') :
    h.Extends objects h' := by
  refine ⟨first.changes.trans second.changes,
    fun x has kind => first.old x (second.old x has kind) kind, fun order built => ?_⟩
  obtain ⟨more, here⟩ := first.built order built
  obtain ⟨others, there⟩ := second.built (order ++ more) here
  exact ⟨more ++ others, by rwa [← List.append_assoc]⟩

theorem mono {more : List ObjectId} (extends_ : h.Extends objects h') (inside : objects ⊆ more) :
    h.Extends more h' :=
  ⟨extends_.changes.mono inside, extends_.old, extends_.built⟩

theorem of_grows {order : List ObjectId} (grows : h.Grows order h') : h.Extends objects h' :=
  ⟨grows.changes.mono (by simp), grows.old, fun _ built => ⟨order, grows.built built⟩⟩

theorem of_set {o : ObjectId} (has : ∀ x, h'.Has x ↔ h.Has x)
    (same : ∀ x, x ≠ o → SameAt h h' x) (kind : o.isAggregate = false) : h.Extends [o] h' := by
  have changes : Changes h [o] h' := by
    refine ⟨fun x there => (has x).mpr there, fun x _ other => same x ?_⟩
    exact fun here => other (List.mem_singleton.mpr here)
  refine ⟨changes, fun x there _ => (has x).mp there, fun order built => ⟨[], ?_⟩⟩
  rw [List.append_nil]
  refine .set order h [o] h' built changes (fun x there => (has x).mp there) fun x member => ?_
  cases List.mem_singleton.mp member
  exact kind

end Extends

section

variable (h : Heap)

theorem getElem?_push_of_lt {α : Type} (xs : Array α) (x : α) (index : Nat)
    (inside : index < xs.size) : (xs.push x)[index]? = xs[index]? := by
  rw [Array.getElem?_push, if_neg (Nat.ne_of_lt inside)]

/-- The object with the next number of its kind is allocated if there is one more of that kind, and
as many as before of all others. -/
theorem Allocates.of_next {h h' : Heap} {o : ObjectId} (index : o.index = h.population o.kind)
    (more : h'.population o.kind = h.population o.kind + 1)
    (others : ∀ k, k ≠ o.kind → h'.population k = h.population k)
    (same : ∀ x, h.Has x → SameAt h h' x) (builtins : h'.builtins = h.builtins) :
    h.Allocates o h' := by
  refine ⟨fun x => ?_, fun x has kind => ?_, same, builtins⟩
  · rw [has_iff_index_lt, has_iff_index_lt]
    by_cases kind : x.kind = o.kind
    · have new : x = o ↔ x.index = o.index := by
        constructor
        · exact congrArg ObjectId.index
        · exact ObjectId.eq_of_kind_of_index kind
      rw [kind, more, new, index, Nat.lt_succ_iff_lt_or_eq]
    · have old : x ≠ o := fun here => kind (congrArg ObjectId.kind here)
      rw [others x.kind kind, or_iff_left old]
  · rw [has_iff_index_lt, kind] at has
    rwa [index]

theorem allocates_proto (p : Prototype) :
    h.Allocates (.proto (h.addProto p).1) (h.addProto p).2 := by
  refine .of_next rfl (Array.size_push _) (fun k other => ?_) (fun x has => ?_) rfl
  · cases k <;> first | rfl | exact (other rfl).elim
  · cases x <;> first | rfl | exact getElem?_push_of_lt _ _ _ has

theorem allocates_closure (c : Closure) :
    h.Allocates (.closure (h.addClosure c).1) (h.addClosure c).2 := by
  refine .of_next rfl (Array.size_push _) (fun k other => ?_) (fun x has => ?_) rfl
  · cases k <;> first | rfl | exact (other rfl).elim
  · cases x <;> first | rfl | exact getElem?_push_of_lt _ _ _ has

theorem allocates_class (c : ClassObject) :
    h.Allocates (.classObject (h.addClass c).1) (h.addClass c).2 := by
  refine .of_next rfl (Array.size_push _) (fun k other => ?_) (fun x has => ?_) rfl
  · cases k <;> first | rfl | exact (other rfl).elim
  · cases x <;> first | rfl | exact getElem?_push_of_lt _ _ _ has

theorem allocates_module (m : ModuleObject) :
    h.Allocates (.moduleObject (h.addModule m).1) (h.addModule m).2 := by
  refine .of_next rfl (Array.size_push _) (fun k other => ?_) (fun x has => ?_) rfl
  · cases k <;> first | rfl | exact (other rfl).elim
  · cases x <;> first | rfl | exact getElem?_push_of_lt _ _ _ has

theorem allocates_instance (i : InstanceObject) :
    h.Allocates (.instanceObject (h.addInstance i).1) (h.addInstance i).2 := by
  refine .of_next rfl (Array.size_push _) (fun k other => ?_) (fun x has => ?_) rfl
  · cases k <;> first | rfl | exact (other rfl).elim
  · cases x <;> first | rfl | exact getElem?_push_of_lt _ _ _ has

theorem allocates_table (t : Table) :
    h.Allocates (.map (h.addTable t).1) (h.addTable t).2 := by
  refine .of_next rfl (Array.size_push _) (fun k other => ?_) (fun x has => ?_) rfl
  · cases k <;> first | rfl | exact (other rfl).elim
  · cases x <;> first | rfl | exact getElem?_push_of_lt _ _ _ has

theorem allocates_list (items : List Value) :
    h.Allocates (.list (h.addList items).1) (h.addList items).2 := by
  refine .of_next rfl (Array.size_push _) (fun k other => ?_) (fun x has => ?_) rfl
  · cases k <;> first | rfl | exact (other rfl).elim
  · cases x <;> first | rfl | exact getElem?_push_of_lt _ _ _ has

theorem getElem?_modify_of_ne {α : Type} (xs : Array α) (index other : Nat) (f : α → α)
    (different : other ≠ index) : (xs.modify index f)[other]? = xs[other]? := by
  rw [Array.getElem?_modify, if_neg (Ne.symm different)]

theorem extends_modifyProto (id : ProtoId) (f : Prototype → Prototype) :
    h.Extends [.proto id] (h.modifyProto id f) := by
  refine .of_set (fun x => ?_) (fun x other => ?_) rfl
  · cases x <;> simp [Has, modifyProto]
  · cases x with
    | proto there =>
        refine getElem?_modify_of_ne _ _ _ _ fun same => other ?_
        exact ObjectId.eq_of_kind_of_index rfl same
    | _ => rfl

theorem extends_modifyClosure (id : ClosureId) (f : Closure → Closure) :
    h.Extends [.closure id] (h.modifyClosure id f) := by
  refine .of_set (fun x => ?_) (fun x other => ?_) rfl
  · cases x <;> simp [Has, modifyClosure]
  · cases x with
    | closure there =>
        refine getElem?_modify_of_ne _ _ _ _ fun same => other ?_
        exact ObjectId.eq_of_kind_of_index rfl same
    | _ => rfl

theorem extends_modifyClass (id : ClassId) (f : ClassObject → ClassObject) :
    h.Extends [.classObject id] (h.modifyClass id f) := by
  refine .of_set (fun x => ?_) (fun x other => ?_) rfl
  · cases x <;> simp [Has, modifyClass]
  · cases x with
    | classObject there =>
        refine getElem?_modify_of_ne _ _ _ _ fun same => other ?_
        exact ObjectId.eq_of_kind_of_index rfl same
    | _ => rfl

theorem extends_modifyModule (id : ModuleId) (f : ModuleObject → ModuleObject) :
    h.Extends [.moduleObject id] (h.modifyModule id f) := by
  refine .of_set (fun x => ?_) (fun x other => ?_) rfl
  · cases x <;> simp [Has, modifyModule]
  · cases x with
    | moduleObject there =>
        refine getElem?_modify_of_ne _ _ _ _ fun same => other ?_
        exact ObjectId.eq_of_kind_of_index rfl same
    | _ => rfl

end

end Heap

end StaticImage
