import Mathlib.Data.List.Basic
import StaticImage.Heap.Table

namespace StaticImage

def Entry.binding (e : Entry) : Value × Value :=
  (e.key, e.value)

namespace Table

def bindings (t : Table) : List (Value × Value) :=
  t.entries.map Entry.binding

def slotBindings (slot : Option Entry) : List (Value × Value) :=
  (slot.map Entry.binding).toList

def keys (t : Table) : List Datum :=
  t.bindings.map fun b => b.1.data

theorem keys_eq_map (t : Table) : t.keys = t.entries.map fun e => e.key.data := by
  simp only [keys, bindings, List.map_map]
  rfl

@[simp]
theorem size_setSlot (t : Table) (slot : Nat) (e : Option Entry) :
    (t.setSlot slot e).size = t.size := by
  simp [size, setSlot]

theorem setSlot_outside (t : Table) (slot : Nat) (e : Option Entry) (outside : t.size ≤ slot) :
    t.setSlot slot e = t := by
  have bound : t.slots.size ≤ slot := outside
  simp only [setSlot, Array.setIfInBounds_eq_of_size_le bound]

theorem entryAt?_setSlot (t : Table) (slot other : Nat) (e : Option Entry) (inside : slot < t.size) :
    (t.setSlot slot e).entryAt? other = if other = slot then e else t.entryAt? other := by
  rw [size] at inside
  by_cases same : other = slot
  · subst same
    simp [entryAt?, setSlot, inside]
  · have different : slot ≠ other := fun h => same h.symm
    simp [entryAt?, setSlot, different, same]

theorem entryAt?_lt (t : Table) (slot : Nat) (e : Entry) (present : t.entryAt? slot = some e) :
    slot < t.size := by
  by_contra outside
  have missing : t.slots[slot]? = none := Array.getElem?_eq_none (Nat.le_of_not_lt outside)
  simp [entryAt?, missing] at present

theorem setNext_eq (t : Table) (slot : Nat) (e : Entry) (next : UInt32)
    (present : t.entryAt? slot = some e) :
    t.setNext slot next = t.setSlot slot (some { e with next := next }) := by
  simp [setNext, present]

@[simp]
theorem size_setNext (t : Table) (slot : Nat) (next : UInt32) :
    (t.setNext slot next).size = t.size := by
  unfold setNext
  split
  · rfl
  · exact size_setSlot t slot _

@[simp]
theorem size_place (t : Table) (key value : Value) : (t.place key value).size = t.size := by
  have lowered (t : Table) (count lastFree : Nat) :
      (⟨t.slots, count, lastFree⟩ : Table).size = t.size := rfl
  unfold place
  simp only
  split
  · exact size_setSlot t _ _
  · split
    · rfl
    · split <;> simp [lowered]

@[simp]
theorem size_placeAll (t : Table) (entries : List Entry) : (t.placeAll entries).size = t.size := by
  induction entries generalizing t with
  | nil => rfl
  | cons e rest ih =>
      have step : t.placeAll (e :: rest) = (t.place e.key e.value).placeAll rest := rfl
      rw [step, ih, size_place]

@[simp]
theorem size_sized (size : Nat) : (sized size).size = size := by
  simp [sized, Table.size]

theorem entryAt?_sized (size slot : Nat) : (sized size).entryAt? slot = none := by
  by_cases inside : slot < size <;> simp [sized, entryAt?, inside]

@[simp]
theorem bindings_sized (size : Nat) : (sized size).bindings = [] := by
  simp [sized, bindings, entries]

theorem bindings_eq_flatMap (t : Table) : t.bindings = t.slots.toList.flatMap slotBindings := by
  unfold bindings entries
  induction t.slots.toList with
  | nil => rfl
  | cons slot rest ih =>
      cases slot with
      | none => simpa [slotBindings] using ih
      | some e => simpa [slotBindings] using ih

private theorem flatMap_set_perm (slots : List (Option Entry)) (slot : Nat) (old e : Option Entry)
    (present : slots[slot]? = some old) :
    (slotBindings old ++ (slots.set slot e).flatMap slotBindings).Perm
      (slotBindings e ++ slots.flatMap slotBindings) := by
  induction slots generalizing slot with
  | nil => simp at present
  | cons first rest ih =>
      cases slot with
      | zero =>
          have same : first = old := by simpa using present
          subst same
          simp only [List.set_cons_zero, List.flatMap_cons]
          exact List.perm_append_comm_assoc _ _ _
      | succ slot =>
          have tail := ih slot (by simpa using present)
          simp only [List.set_cons_succ, List.flatMap_cons]
          calc
            (slotBindings old ++ (slotBindings first ++ (rest.set slot e).flatMap slotBindings)).Perm
                (slotBindings first ++
                  (slotBindings old ++ (rest.set slot e).flatMap slotBindings)) :=
              List.perm_append_comm_assoc _ _ _
            List.Perm _ (slotBindings first ++ (slotBindings e ++ rest.flatMap slotBindings)) :=
              tail.append_left _
            List.Perm _ (slotBindings e ++ (slotBindings first ++ rest.flatMap slotBindings)) :=
              List.perm_append_comm_assoc _ _ _

/-- Writing a slot exchanges its binding and keeps all others. -/
theorem bindings_setSlot (t : Table) (slot : Nat) (e : Option Entry) (inside : slot < t.size) :
    (slotBindings (t.entryAt? slot) ++ (t.setSlot slot e).bindings).Perm
      (slotBindings e ++ t.bindings) := by
  have index : slot < t.slots.size := inside
  have present : t.slots.toList[slot]? = some (t.entryAt? slot) := by
    simp [entryAt?, index]
  rw [bindings_eq_flatMap, bindings_eq_flatMap]
  simpa only [setSlot, Array.toList_setIfInBounds] using
    flatMap_set_perm t.slots.toList slot _ e present

theorem bindings_setNext (t : Table) (slot : Nat) (next : UInt32) :
    (t.setNext slot next).bindings.Perm t.bindings := by
  cases present : t.entryAt? slot with
  | none => simp [setNext, present]
  | some e =>
      rw [setNext_eq t slot e next present]
      have exchange := bindings_setSlot t slot (some { e with next := next })
        (entryAt?_lt t slot e present)
      rw [present] at exchange
      exact (List.perm_append_left_iff _).mp exchange

theorem bindings_fill (t : Table) (slot : Nat) (e : Entry) (inside : slot < t.size)
    (vacant : t.entryAt? slot = none) :
    (t.setSlot slot (some e)).bindings.Perm (e.binding :: t.bindings) := by
  have exchange := bindings_setSlot t slot (some e) inside
  rwa [vacant] at exchange

theorem bindings_drop (t : Table) (slot : Nat) (e : Entry) (present : t.entryAt? slot = some e) :
    (e.binding :: (t.setSlot slot none).bindings).Perm t.bindings := by
  have exchange := bindings_setSlot t slot none (entryAt?_lt t slot e present)
  rwa [present] at exchange

/-- An entry may move to a free slot, with another link, before its own slot is written. -/
theorem bindings_move (t : Table) (source target : Nat) (old e new : Entry)
    (present : t.entryAt? source = some old) (same : old.binding = e.binding)
    (inside : target < t.size) (vacant : t.entryAt? target = none) :
    ((t.setSlot target (some e)).setSlot source (some new)).bindings.Perm
      (new.binding :: t.bindings) := by
  have apart : source ≠ target := by
    rintro rfl
    rw [present] at vacant
    cases vacant
  have copied := bindings_fill t target e inside vacant
  have kept : (t.setSlot target (some e)).entryAt? source = some old := by
    rw [entryAt?_setSlot t target source _ inside, if_neg apart]
    exact present
  have exchange := bindings_setSlot _ source (some new) (entryAt?_lt _ source old kept)
  rw [kept] at exchange
  have both : (e.binding :: ((t.setSlot target (some e)).setSlot source (some new)).bindings).Perm
      (e.binding :: new.binding :: t.bindings) :=
    calc
      List.Perm _ (old.binding :: ((t.setSlot target (some e)).setSlot source (some new)).bindings) :=
        .of_eq (by rw [same])
      List.Perm _ (new.binding :: (t.setSlot target (some e)).bindings) := exchange
      List.Perm _ (new.binding :: e.binding :: t.bindings) := copied.cons _
      List.Perm _ (e.binding :: new.binding :: t.bindings) := List.Perm.swap _ _ _
  exact both.cons_inv

theorem mem_entries_iff (t : Table) (e : Entry) :
    e ∈ t.entries ↔ ∃ slot, t.entryAt? slot = some e := by
  simp only [entries, List.mem_filterMap, id_eq, exists_eq_right]
  constructor
  · intro member
    obtain ⟨slot, bound, equal⟩ := List.mem_iff_getElem.mp member
    have inside : slot < t.slots.size := by simpa using bound
    exact ⟨slot, by simpa [entryAt?, inside] using equal⟩
  · rintro ⟨slot, present⟩
    have inside : slot < t.slots.size := entryAt?_lt t slot e present
    have equal : t.slots[slot] = some e := by simpa [entryAt?, inside] using present
    rw [← equal]
    exact Array.mem_toList_iff.mpr (Array.getElem_mem inside)

theorem mem_bindings_iff (t : Table) (key value : Value) :
    (key, value) ∈ t.bindings ↔ ∃ slot e, t.entryAt? slot = some e ∧ e.binding = (key, value) := by
  simp only [bindings, List.mem_map, mem_entries_iff]
  constructor
  · rintro ⟨e, ⟨slot, present⟩, equal⟩
    exact ⟨slot, e, present, equal⟩
  · rintro ⟨slot, e, present, equal⟩
    exact ⟨e, ⟨slot, present⟩, equal⟩

theorem mem_keys_iff (t : Table) (key : Datum) :
    key ∈ t.keys ↔ ∃ slot e, t.entryAt? slot = some e ∧ e.key.data = key := by
  simp only [keys, bindings, List.map_map, List.mem_map, mem_entries_iff]
  constructor
  · rintro ⟨e, ⟨slot, present⟩, equal⟩
    exact ⟨slot, e, present, equal⟩
  · rintro ⟨slot, e, present, equal⟩
    exact ⟨e, ⟨slot, present⟩, equal⟩

theorem length_bindings_le (t : Table) : t.bindings.length ≤ t.size := by
  simpa [bindings, entries, size] using List.length_filterMap_le id t.slots.toList

theorem exists_vacant (t : Table) (room : t.bindings.length < t.size) :
    ∃ slot < t.size, t.entryAt? slot = none := by
  by_contra taken
  push Not at taken
  have all : ∀ slot ∈ t.slots.toList, (id slot).isSome := by
    intro slot member
    obtain ⟨index, bound, rfl⟩ := List.mem_iff_getElem.mp member
    have inside : index < t.slots.size := by simpa using bound
    have filled := taken index inside
    simpa [entryAt?, inside, Option.isSome_iff_ne_none] using filled
  have full : t.bindings.length = t.size := by
    simp only [bindings, entries, List.length_map, size]
    rw [List.length_filterMap_eq_countP, List.countP_eq_length.mpr all, Array.length_toList]
  omega

theorem slots_of_full (t : Table) (full : t.entries.length = t.size) :
    t.slots.toList = t.entries.map some := by
  have taken (slots : List (Option Entry)) (length : (slots.filterMap id).length = slots.length) :
      slots = (slots.filterMap id).map some := by
    induction slots with
    | nil => rfl
    | cons first rest ih =>
        cases first with
        | none =>
            have shorter := List.length_filterMap_le id rest
            change (rest.filterMap id).length = rest.length + 1 at length
            omega
        | some e =>
            have tail := ih (Nat.succ.inj length)
            exact congrArg (some e :: ·) tail
  apply taken
  simpa [entries, size] using full

theorem entries_getElem?_of_full (t : Table) (full : t.entries.length = t.size) (slot : Nat) :
    t.entries[slot]? = t.entryAt? slot := by
  have index : t.slots[slot]? = (t.entries.map some)[slot]? := by
    rw [← Array.getElem?_toList, slots_of_full t full]
  rw [entryAt?, index, List.getElem?_map]
  cases t.entries[slot]? <;> rfl

end Table

end StaticImage
