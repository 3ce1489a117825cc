import StaticImage.Proofs.Table.Removing
import StaticImage.Proofs.Table.Resizing

namespace StaticImage.Table

def Binds (t : Table) (key : Datum) (value : Value) : Prop :=
  ∃ k, k.data = key ∧ (k, value) ∈ t.bindings

theorem binds_congr {t u : Table} (same : u.bindings.Perm t.bindings) (key : Datum)
    (value : Value) : u.Binds key value ↔ t.Binds key value := by
  simp only [Binds, same.mem_iff]

theorem Binds.mem_keys {t : Table} {key : Datum} {value : Value} (bound : t.Binds key value) :
    key ∈ t.keys := by
  obtain ⟨k, same, member⟩ := bound
  exact List.mem_map.mpr ⟨(k, value), member, same⟩

theorem Binds.unique {t : Table} (valid : t.Valid) {key : Datum} {left right : Value}
    (first : t.Binds key left) (second : t.Binds key right) : left = right := by
  obtain ⟨k, k_data, k_member⟩ := first
  obtain ⟨l, l_data, l_member⟩ := second
  have same := valid.binding_unique _ _ k_member l_member (k_data.trans l_data.symm)
  exact (Prod.mk.inj same).2

theorem binds_cons {u : Table} {rest : List (Value × Value)} (k new : Value)
    (shape : u.bindings.Perm ((k, new) :: rest)) (key : Datum) (value : Value) :
    u.Binds key value ↔
      (k.data = key ∧ value = new) ∨ ∃ l, l.data = key ∧ (l, value) ∈ rest := by
  simp only [Binds, shape.mem_iff, List.mem_cons, Prod.mk.injEq]
  constructor
  · rintro ⟨l, data, ⟨rfl, rfl⟩ | member⟩
    · exact Or.inl ⟨data, rfl⟩
    · exact Or.inr ⟨l, data, member⟩
  · rintro (⟨data, rfl⟩ | ⟨l, data, member⟩)
    · exact ⟨k, data, Or.inl ⟨rfl, rfl⟩⟩
    · exact ⟨l, data, Or.inr member⟩

theorem find?_eq_none_iff (t : Table) (key : Value) (valid : t.Valid) :
    t.find? key = none ↔ key.data ∉ t.keys := by
  constructor
  · intro missing held
    obtain ⟨⟨k, value⟩, member, same⟩ := List.mem_map.mp held
    have found := (find?_eq_some_iff t key value valid).mpr ⟨k, same, member⟩
    rw [missing] at found
    cases found
  · intro absent
    simp [find?, locate_missing t key.data valid absent]

theorem insert_nil (t : Table) (key value : Value) (refused : key.data = .nil) :
    t.insert key value = .error .nilKey := by
  simp [insert, Value.isNil, refused]

theorem find?_congr (t u : Table) (key : Value) (valid : t.Valid) (other : u.Valid)
    (same : u.bindings.Perm t.bindings) : u.find? key = t.find? key := by
  ext value
  rw [find?_eq_some_iff u key value other, find?_eq_some_iff t key value valid]
  exact binds_congr same key.data value

theorem find?_compact (t : Table) (key : Value) (valid : t.Valid) :
    t.compact.find? key = t.find? key :=
  find?_congr t t.compact key valid (compact_spec t valid).1 (compact_spec t valid).2.2

section

variable (t : Table) (key value : Value) (valid : t.Valid)

include valid

theorem setSlot_revalue (slot : Nat) (e : Entry) (present : t.entryAt? slot = some e) :
    (t.setSlot slot (some { e with value := value })).Valid := by
  let u := t.setSlot slot (some { e with value := value })
  have inside := entryAt?_lt t slot e present
  have size : u.size = t.size := size_setSlot t slot _
  have slots (other : Nat) : u.entryAt? other =
      if other = slot then some { e with value := value } else t.entryAt? other :=
    entryAt?_setSlot t slot other _ inside
  have homes (other : Nat) : u.homeAt? other = t.homeAt? other := by
    by_cases here : other = slot
    · subst here
      simp [homeAt?, slots, present, mainPosition_congr t u _ size]
    · exact homeAt?_congr t u other size (by rw [slots, if_neg here])
  have keys : u.keys.Perm t.keys := keys_revalue t slot e value present
  exact {
    small := by rw [size]; exact valid.small
    counted := by
      have length := keys.length_eq
      simp only [Table.keys, List.length_map] at length
      rw [length]
      exact valid.counted
    bounded := by rw [size]; exact valid.bounded
    filled := by
      intro other above below
      rw [slots]
      split
      · exact Option.some_ne_none _
      · exact valid.filled other above (by rwa [size] at below)
    distinct := keys.nodup_iff.mpr valid.distinct
    named := fun member => valid.named (keys.mem_iff.mp member)
    chained := by
      intro main
      obtain ⟨chain_slots, chain⟩ := valid.chained main
      refine ⟨chain_slots, chain.starts, chain.linked.relabel chain_slots ?_, chain.nodup, ?_⟩
      · intro other f found
        rw [slots]
        by_cases here : other = slot
        · subst here
          rw [present] at found
          cases found
          exact ⟨_, if_pos rfl, rfl⟩
        · exact ⟨f, by rw [if_neg here, found], rfl⟩
      · intro other
        rw [chain.covers, homes] }

/-- Inserting a key answers what it was bound to and binds it to the new value. -/
theorem insert_spec (named : key.data ≠ .nil) :
    ∃ u, t.insert key value = .ok (t.find? key, u) ∧ (u.size ≤ maxSlots → u.Valid ∧
      ∀ k v, u.Binds k v ↔ if k = key.data then v = value else t.Binds k v) := by
  have accepted : key.isNil = false := by simpa [Value.isNil] using named
  by_cases held : key.data ∈ t.keys
  · obtain ⟨front, slot, rest, e, _, present, same, located⟩ := locate_found t key.data valid held
    let u := t.setSlot slot (some { e with value := value })
    have found : t.find? key = some e.value := by simp [find?, located, present]
    refine ⟨u, by simp [insert, accepted, located, present, found, u], fun _ => ?_⟩
    have revalued : u.Valid := setSlot_revalue t value valid slot e present
    refine ⟨revalued, fun k v => ?_⟩
    obtain ⟨others, shape, new_shape⟩ := bindings_revalue t slot e value present
    rw [binds_cons e.key value new_shape, binds_cons (u := t) e.key e.value shape]
    have elsewhere : ¬ ∃ l, l.data = key.data ∧ (l, v) ∈ others := by
      rintro ⟨l, data, inside⟩
      have distinct := ((shape.map fun b : Value × Value => b.1.data).nodup_iff.mp valid.distinct)
      exact (List.nodup_cons.mp distinct).1
        (List.mem_map.mpr ⟨(l, v), inside, data.trans same.symm⟩)
    by_cases here : k = key.data
    · subst here
      simp [same, elsewhere]
    · have away : e.key.data ≠ k := fun clash => here (clash.symm.trans same)
      simp [here, away]
  · have missing := locate_missing t key.data valid held
    refine ⟨t.grow.place key value, ?_, fun small => ?_⟩
    · rw [(find?_eq_none_iff t key valid).mpr held]
      simp [insert, accepted, missing]
    · rw [size_place] at small
      obtain ⟨grown, room, bindings⟩ := grow_spec t valid small
      have fresh : key.data ∉ t.grow.keys := by
        have keys : t.grow.keys.Perm t.keys := bindings.map fun b : Value × Value => b.1.data
        rwa [keys.mem_iff]
      obtain ⟨placed, shape⟩ := place_spec t.grow key value grown fresh named room
      refine ⟨placed, fun k v => ?_⟩
      rw [binds_cons key value shape]
      by_cases here : k = key.data
      · subst here
        have elsewhere : ¬ ∃ l, l.data = key.data ∧ (l, v) ∈ t.grow.bindings := by
          rintro ⟨l, data, inside⟩
          exact fresh (List.mem_map.mpr ⟨(l, v), inside, data⟩)
        simp [elsewhere]
      · rw [if_neg here, ← binds_congr bindings]
        simp [Binds, Ne.symm here]

/-- Removing a key answers what it was bound to and unbinds it. -/
theorem remove_binds : (t.remove key).1 = t.find? key ∧ (t.remove key).2.Valid ∧
    ∀ k v, (t.remove key).2.Binds k v ↔ k ≠ key.data ∧ t.Binds k v := by
  by_cases held : key.data ∈ t.keys
  · obtain ⟨gone, old, same, answer, removed, shape⟩ := remove_spec t key valid held
    have found : t.find? key = some old :=
      (find?_eq_some_iff t key old valid).mpr
        ⟨gone, same, shape.mem_iff.mp List.mem_cons_self⟩
    refine ⟨answer.trans found.symm, removed, fun k v => ?_⟩
    have distinct := (shape.map fun b : Value × Value => b.1.data).nodup_iff.mpr valid.distinct
    have absent : gone.data ∉ (t.remove key).2.keys := (List.nodup_cons.mp distinct).1
    rw [binds_cons (u := t) gone old shape.symm]
    constructor
    · intro bound
      have away : k ≠ key.data := by
        rintro rfl
        exact absent (same ▸ bound.mem_keys)
      exact ⟨away, Or.inr bound⟩
    · rintro ⟨away, ⟨data, rfl⟩ | bound⟩
      · exact (away (data.symm.trans same)).elim
      · exact bound
  · rw [remove_missing t key valid held, (find?_eq_none_iff t key valid).mpr held]
    refine ⟨rfl, valid, fun k v => ?_⟩
    constructor
    · intro bound
      refine ⟨?_, bound⟩
      rintro rfl
      exact held bound.mem_keys
    · exact And.right

end

end StaticImage.Table
