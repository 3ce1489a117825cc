import StaticImage.Proofs.Image.Writing

/-!
Constants as they are written. On the way into a value no map is opened twice, and between two maps
the lists and instances are distinct unless one of them is nested in itself; so the nesting that is
allowed for suffices.
-/

namespace StaticImage

open Relation (TransGen)

namespace Heap

variable {h : Heap} {root : Value}

def fixedCount (h : Heap) : Nat :=
  h.lists.size + h.instances.size

/-- Where a value stands that is unfolded: inside the maps that are open and, since the innermost of
them, on a path of lists and instances. -/
structure Inside (h : Heap) (root : Value) (nesting : Nat) (opened : List MapId)
    (path : List ObjectId) (v : Value) : Prop where
  owed : h.Sound root → ∀ o, v.object? = some o → h.Has o
  distinct : opened.Nodup
  openedHeld : ∀ id ∈ opened, h.Has (.map id)
  around : ∀ id ∈ opened, ∀ o, v.object? = some o → TransGen h.Contains (.map id) o
  pathHeld : ∀ a ∈ path, a.isFixed ∧ h.Has a
  along : ∀ a ∈ path, ∀ o, v.object? = some o → TransGen h.ContainsFixed a o
  enough : (∃ o, TransGen h.ContainsFixed o o) ∨ (path.Nodup ∧
    (h.maps.size - opened.length) * (h.fixedCount + 1) + (h.fixedCount - path.length) < nesting)

theorem ContainsFixed.contains {holder part : ObjectId} (held : h.ContainsFixed holder part) :
    h.Contains holder part := by
  obtain ⟨fixed, holds⟩ := held
  refine ⟨?_, holds⟩
  cases holder with
  | map id => cases fixed
  | _ => exact fixed

theorem inside_alone (v : Value) (owed : h.Sound root → ∀ o, v.object? = some o → h.Has o) :
    h.Inside root h.nesting [] [] v where
  owed := owed
  distinct := List.nodup_nil
  openedHeld := by simp
  around := by simp
  pathHeld := by simp
  along := by simp
  enough := by
    right
    refine ⟨List.nodup_nil, ?_⟩
    simp only [List.length_nil, Nat.sub_zero, nesting, fixedCount, Nat.succ_mul]
    omega

namespace Inside

variable {nesting : Nat} {opened : List MapId} {path : List ObjectId} {v : Value}

theorem endless (inside : h.Inside root 0 opened path v) : h.Fault root .endless := by
  rcases inside.enough with ⟨o, cycle⟩ | ⟨_, bound⟩
  · exact .endlessValue o cycle
  · omega

theorem item (inside : h.Inside root (nesting + 1) opened path v) (holder : ObjectId)
    (here : v.object? = some holder) (fixed : holder.isFixed) (has : h.Has holder) (item : Value)
    (held : item ∈ h.values holder) : h.Inside root nesting opened (holder :: path) item := by
  have contains (o : ObjectId) (part : item.object? = some o) : h.ContainsFixed holder o :=
    ⟨fixed, item, held, part⟩
  have onward (a : ObjectId) (member : a ∈ holder :: path) (o : ObjectId)
      (part : item.object? = some o) : TransGen h.ContainsFixed a o := by
    rcases List.mem_cons.mp member with rfl | before
    · exact .single (contains o part)
    · exact (inside.along a before holder here).tail (contains o part)
  have pathHeld : ∀ a ∈ holder :: path, a.isFixed ∧ h.Has a := by
    intro a member
    rcases List.mem_cons.mp member with rfl | before
    · exact ⟨fixed, has⟩
    · exact inside.pathHeld a before
  refine ⟨fun sound o => sound.1.value holder item held o, inside.distinct, inside.openedHeld,
    fun id member o part => (inside.around id member holder here).tail (contains o part).contains,
    pathHeld, onward, ?_⟩
  by_cases again : holder ∈ path
  · exact Or.inl ⟨holder, inside.along holder again holder here⟩
  · rcases inside.enough with cycle | ⟨distinct, bound⟩
    · exact Or.inl cycle
    · have longer : (holder :: path).Nodup := List.nodup_cons.mpr ⟨again, distinct⟩
      have fits : (holder :: path).length ≤ h.fixedCount :=
        h.length_fixed_le _ longer pathHeld
      refine Or.inr ⟨longer, ?_⟩
      rw [List.length_cons] at fits ⊢
      omega

theorem entry (inside : h.Inside root (nesting + 1) opened path v) (id : MapId)
    (here : v.object? = some (.map id)) (has : h.Has (.map id)) (fresh : id ∉ opened)
    (value : Value) (held : value ∈ h.values (.map id)) :
    h.Inside root nesting (id :: opened) [] value := by
  have contains (o : ObjectId) (part : value.object? = some o) : h.Contains (.map id) o :=
    ⟨rfl, value, held, part⟩
  have distinct : (id :: opened).Nodup := List.nodup_cons.mpr ⟨fresh, inside.distinct⟩
  have openedHeld : ∀ other ∈ id :: opened, h.Has (.map other) := by
    intro other member
    rcases List.mem_cons.mp member with rfl | before
    · exact has
    · exact inside.openedHeld other before
  refine ⟨fun sound o => sound.1.value (.map id) value held o, distinct, openedHeld, ?_, by simp,
    by simp, ?_⟩
  · intro other member o part
    rcases List.mem_cons.mp member with rfl | before
    · exact .single (contains o part)
    · exact (inside.around other before _ here).tail (contains o part)
  · rcases inside.enough with cycle | ⟨_, bound⟩
    · exact Or.inl cycle
    · have fits : (id :: opened).length ≤ h.maps.size := by
        refine length_le_of_numbers _ MapId.index _ distinct ?_ openedHeld
        rintro ⟨_⟩ _ ⟨_⟩ _ rfl
        rfl
      refine Or.inr ⟨List.nodup_nil, ?_⟩
      rw [List.length_cons] at fits
      obtain ⟨left, rest⟩ : ∃ left, h.maps.size - opened.length = left + 1 :=
        ⟨h.maps.size - opened.length - 1, by omega⟩
      have fewer : h.maps.size - (opened.length + 1) = left := by omega
      rw [rest, Nat.succ_mul] at bound
      rw [List.length_cons, List.length_nil, fewer]
      omega

end Inside

variable {classes : List ClassId} {maps : List MapId} (context key : Option String)

theorem writes_closureConstant (isStatic : Bool) (id : ClosureId)
    (owed : h.Sound root → h.Has (.closure id)) :
    h.Writes root classes maps ((h.closureConstant isStatic id).plan context key).trace := by
  unfold closureConstant
  cases found : h.closureAt? id with
  | none => exact .missing owed (by simp [has_closure_iff, found])
  | some c =>
      cases there : h.proto? c.proto with
      | none =>
          simp only [Option.bind_some, there]
          refine .missing (o := .proto c.proto) (fun sound => ?_) (by simp [has_proto_iff, there])
          exact sound.1.link (.closure id) _ (by simp [links, found])
      | some p =>
          simp only [Option.bind_some, there]
          cases owned : p.owner with
          | none => exact .steps _ rfl
          | some owner =>
              cases named : h.className? owner with
              | some name =>
                  simp only [named]
                  exact .steps _ rfl
              | none =>
                  simp only [named]
                  refine .missing (fun sound => ?_) (h.not_has_of_className? owner named)
                  exact sound.1.link (.proto c.proto) _ (by simp [links, there, owned])

theorem writes_classReference (id : ClassId) (owed : h.Sound root → h.Has (.classObject id)) :
    h.Writes root classes maps (((match h.className? id with
      | none => .refused .dangling
      | some name => .classNamed name) : Constant MapId).plan context key).trace := by
  cases named : h.className? id with
  | some name => exact .steps _ rfl
  | none => exact .missing owed (h.not_has_of_className? id named)

theorem writes_instanceContent (id : InstanceId) (i : InstanceObject) (c : Constant MapId)
    (present : h.instance? id = some i) (content : h.instanceContent i = .inl c) :
    h.Writes root classes maps (c.plan context key).trace := by
  unfold instanceContent at content
  split at content
  · rename_i linked
    cases content
    exact .stop (.linkedInstance id i present linked)
  · split at content
    · cases content
      exact .steps _ rfl
    · cases content
      exact .stop (.instanceOf "bytes")
    · rename_i cls ofClass
      cases named : h.className? cls with
      | some name =>
          rw [named] at content
          cases content
          exact .stop (.instanceOf name)
      | none =>
          rw [named] at content
          cases content
          refine .missing (fun sound => ?_) (h.not_has_of_className? cls named)
          exact sound.1.link (.instanceObject id) _
            (by simp [links, present, ofClass, InstanceClass.class?])
    · cases content
    · cases content
      exact .stop (.instanceOf "map")
    · cases content
    · cases content
      exact .stop (.instanceOf "list")

theorem instanceContent_inr (i : InstanceObject) (kind : Wrapper) (inner : Value)
    (content : h.instanceContent i = .inr (kind, inner)) : inner ∈ i.data.values := by
  unfold instanceContent at content
  split at content
  · cases content
  · split at content
    · cases content
    · cases content
    · split at content <;> cases content
    · rename_i data
      cases content
      rw [data]
      exact List.mem_cons_self
    · cases content
    · rename_i data
      cases content
      rw [data]
      exact List.mem_cons_self
    · cases content

theorem writes_constantKey (key : Datum) (link : Int) :
    h.Writes root classes maps (key.constantKey.plan link).trace := by
  cases key with
  | string text => exact .steps _ rfl
  | int n => exact .steps _ rfl
  | _ => exact .stop (.key _)

theorem mem_parts_of_compact (t : Table) (e : Entry) (member : e ∈ t.compact.entries) :
    e.value ∈ t.parts := by
  have all : t.All (· ∈ t.parts) := fun f inside =>
    ⟨List.mem_flatMap.mpr ⟨f, inside, by simp⟩, List.mem_flatMap.mpr ⟨f, inside, by simp⟩⟩
  exact (all.compact e member).2

/-- A value is written as far as its unfolding goes, which is only as far as the heap has reasons
for. -/
theorem writes_unfold (nesting : Nat) (opened : List MapId) (path : List ObjectId) (v : Value)
    (inside : h.Inside root nesting opened path v) :
    h.Writes root classes opened ((h.unfold nesting opened v).plan context key).trace := by
  induction nesting generalizing opened path v key with
  | zero => exact .stop inside.endless
  | succ nesting ih =>
      have owed (o : ObjectId) (here : v.object? = some o) : h.Sound root → h.Has o :=
        fun sound => inside.owed sound o here
      obtain ⟨data, isStatic⟩ := v
      cases data with
      | closure id => exact writes_closureConstant context key isStatic id (owed _ rfl)
      | classObject id => exact writes_classReference context key id (owed _ rfl)
      | nativeClosure name => exact .stop (.value _)
      | moduleObject id => exact .stop (.value _)
      | instanceObject id =>
          simp only [unfold]
          cases present : h.instance? id with
          | none => exact .missing (owed _ rfl) (by simp [has_instance_iff, present])
          | some i =>
              rw [Option.map_some]
              cases content : h.instanceContent i with
              | inl c => exact writes_instanceContent context key id i c present content
              | inr wrapped =>
                  obtain ⟨kind, inner⟩ := wrapped
                  have has := (h.has_instance_iff id).mpr ⟨i, present⟩
                  have held : inner ∈ h.values (.instanceObject id) := by
                    simpa [values, present] using h.instanceContent_inr i kind inner content
                  rw [Constant.trace_wrapped]
                  have here := ih key opened _ inner (inside.item _ rfl rfl has inner held)
                  exact .append (.cons rfl here) (.steps _ rfl)
      | list id =>
          simp only [unfold]
          cases present : h.list? id with
          | none => exact .missing (owed _ rfl) (by simp [has_list_iff, present])
          | some items =>
              have has := (h.has_list_iff id).mpr ⟨items, present⟩
              rw [Constant.trace_list, Constant.trace_itemsPlan, List.flatMap_map]
              refine .append (.cons rfl (.flatMap _ _ ?_)) (.steps _ rfl)
              intro item member
              have held : item ∈ h.values (.list id) := by simpa [values, present] using member
              have here := ih (some "") opened _ item (inside.item _ rfl rfl has item held)
              exact .append (.cons rfl here) (.steps _ rfl)
      | map id =>
          simp only [unfold]
          by_cases fresh : id ∉ opened
          · rw [if_neg fresh]
            cases present : h.table? id with
            | none => exact .missing (owed _ rfl) (by simp [has_map_iff, present])
            | some t =>
                have has := (h.has_map_iff id).mpr ⟨t, present⟩
                rw [Constant.trace_map, Constant.trace_bindingsPlan, List.flatMap_map]
                have entry (e : Entry) (member : e ∈ t.compact.entries) :
                    h.Writes root classes (id :: opened)
                      ((e.key.data.constantKey.plan e.link).trace ++
                        ((h.unfold nesting (id :: opened) e.value).plan context
                          e.key.data.constantKey.name?).trace ++ [.text " \x7d,\n"]) := by
                  have held : e.value ∈ h.values (.map id) := by
                    simpa [values, present] using mem_parts_of_compact t e member
                  have here := ih e.key.data.constantKey.name? (id :: opened) [] e.value
                    (inside.entry id rfl has fresh e.value held)
                  exact .append (.append (writes_constantKey e.key.data e.link) here) (.steps _ rfl)
                have body : h.Writes root classes (id :: opened)
                    (.text (mapOpening t.compact.entries.length) :: _ ++
                      [.text aggregateClosing]) :=
                  .append (.cons rfl (.flatMap _ _ entry)) (.steps _ rfl)
                have whole : h.Writes root classes opened (.compact id :: _) :=
                  .cons rfl (.insideMap classes opened id _ fresh body)
                simpa using whole
          · have again : id ∈ opened := by simpa using fresh
            rw [if_pos again]
            exact .stop (.cyclicMap id (inside.around id again _ rfl))
      | _ => exact .steps _ rfl

theorem writes_constant (v : Value) (owed : h.Sound root → ∀ o, v.object? = some o → h.Has o) :
    h.Writes root classes [] ((h.constant v).plan context key).trace :=
  writes_unfold context key h.nesting [] [] v (inside_alone v owed)

end Heap

end StaticImage
