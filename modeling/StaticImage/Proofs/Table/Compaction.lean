import StaticImage.Proofs.Table.FiniteMap

/-!
Compaction. Whatever holes, displaced keys and counters its history left in a table, compaction leaves
the table that its entries build when they are inserted, in the order of their slots, into one with a
slot for each of them; a table without holes is that table already and keeps its layout.
-/

namespace StaticImage.Table

structure Compacted (t u : Table) : Prop where
  full : u.size = u.count
  count : u.count = t.count
  taken : ∀ slot < u.size, u.entryAt? slot ≠ none
  bindings : u.bindings.Perm t.bindings
  finds : ∀ key, u.find? key = t.find? key
  kept : (∀ slot < t.size, t.entryAt? slot ≠ none) → u = t
  rebuilt : (∃ slot < t.size, t.entryAt? slot = none) →
    (sized t.count).insertAll t.bindings = .ok u
  again : u.compact = u
  /-- Without keys no slot is left, and the next key gets new ones. -/
  emptied : t.count = 0 → u = empty ∧ ∀ key value, key.isNil = false →
    ∃ v, u.insert key value = .ok (none, v) ∧ v.count = 1 ∧
      ∀ other, v.find? other = if other.data = key.data then some value else none

theorem Takes.insert {t : Table} {e : Entry} {rest : List Entry} (takes : t.Takes (e :: rest)) :
    t.insert e.key e.value = .ok (none, t.place e.key e.value) := by
  have absent := locate_missing t e.key.data takes.valid (takes.fresh e List.mem_cons_self)
  have named : e.key.isNil = false := by
    simpa [Value.isNil] using takes.named e List.mem_cons_self
  have room := takes.room
  rw [List.length_cons] at room
  have roomy : t.grow = t := by rw [grow, if_neg (by omega)]
  simp only [Table.insert, named, absent, roomy, Bool.false_eq_true, if_false]

/-- A table built by insertion is the one built by placing, slot for slot. -/
theorem Takes.insertAll {t : Table} {entries : List Entry} (takes : t.Takes entries) :
    t.insertAll (entries.map Entry.binding) = .ok (t.placeAll entries) := by
  induction entries generalizing t with
  | nil => rfl
  | cons e rest ih =>
      rw [List.map_cons]
      exact (insertAll_cons _ _ _ _ _).mpr ⟨none, _, takes.insert, ih takes.place.1⟩

theorem full_iff_taken (t : Table) (valid : t.Valid) :
    t.count = t.size ↔ ∀ slot < t.size, t.entryAt? slot ≠ none := by
  rw [valid.counted]
  constructor
  · intro full slot inside vacant
    have length : t.entries.length = t.size := by rw [← full, bindings, List.length_map]
    rw [← entries_getElem?_of_full t length, List.getElem?_eq_none_iff, length] at vacant
    omega
  · intro taken
    by_contra less
    obtain ⟨slot, inside, vacant⟩ :=
      exists_vacant t (Nat.lt_of_le_of_ne (length_bindings_le t) less)
    exact taken slot inside vacant

section

variable (t : Table) (valid : t.Valid)

include valid

theorem compact_eq_insertAll (vacant : ∃ slot < t.size, t.entryAt? slot = none) :
    (sized t.count).insertAll t.bindings = .ok t.compact := by
  obtain ⟨slot, inside, free⟩ := vacant
  have loose : t.count ≠ t.size := fun full =>
    (full_iff_taken t valid).mp full slot inside free
  have takes := valid.takes_entries t.count (Nat.le_refl _)
    (Nat.le_trans valid.tidy.count_le_size valid.small)
  rw [compact, if_neg loose, resize, if_neg (Nat.lt_irrefl _)]
  exact takes.insertAll

theorem compact_eq_empty (keyless : t.count = 0) : t.compact = empty := by
  have none : t.entries = [] := by
    rw [← List.length_eq_zero_iff, valid.length_entries, keyless]
  by_cases full : t.count = t.size
  · have slots : t.slots = #[] := Array.size_eq_zero_iff.mp (full.symm.trans keyless)
    have lastFree : t.lastFree = 0 := by
      have bounded := valid.bounded
      omega
    rw [compact, if_pos full]
    obtain ⟨_, _, _⟩ := t
    cases slots
    cases keyless
    cases lastFree
    rfl
  · rw [compact, if_neg full, resize, if_neg (Nat.lt_irrefl _), none, keyless]
    rfl

end

theorem insert_empty (key value : Value) (accepted : key.isNil = false) :
    ∃ u, empty.insert key value = .ok (none, u) ∧ u.count = 1 ∧
      ∀ other, u.find? other = if other.data = key.data then some value else none := by
  have takes : (sized 2).Takes [⟨key, value, chainEnd⟩] := by
    refine ⟨sized_valid 2 (by decide), by rw [size_sized]; exact Nat.le_succ 1, by simp,
      by simp [keys], ?_⟩
    simpa [Value.isNil] using accepted
  obtain ⟨⟨valid, _⟩, bindings⟩ := takes.place
  rw [bindings_sized] at bindings
  have inserted : empty.insert key value = .ok (none, (sized 2).place key value) := by
    simp only [insert, accepted, Bool.false_eq_true, if_false]
    rfl
  refine ⟨_, inserted, valid.counted.trans bindings.length_eq, fun other => ?_⟩
  ext found
  rw [find?_eq_some_iff _ other found valid]
  simp only [bindings.mem_iff, List.mem_singleton, Entry.binding, Prod.mk.injEq]
  split
  · rename_i same
    simp [same, eq_comm]
  · rename_i other_key
    simp [Ne.symm other_key]

/-- Whatever operations lead to a table, compaction gives it one slot for each of its keys and leaves
their bindings, builds it anew as if they were inserted slot by slot, unless it is full, and then keeps
it. -/
theorem reached_compacts (t : Table) (history : List Operation) (reached : Reached history t) :
    t.Compacted t.compact := by
  obtain ⟨valid, _⟩ := reached.valid
  obtain ⟨compacted, full, bindings⟩ := compact_spec t valid
  refine {
    full := full
    count := by rw [compacted.counted, bindings.length_eq, ← valid.counted]
    taken := (full_iff_taken _ compacted).mp full.symm
    bindings := bindings
    finds := fun key => find?_compact t key valid
    kept := fun taken => by rw [compact, if_pos ((full_iff_taken t valid).mpr taken)]
    rebuilt := compact_eq_insertAll t valid
    again := compact_compact t valid
    emptied := fun keyless => ?_ }
  rw [compact_eq_empty t valid keyless]
  exact ⟨rfl, insert_empty⟩

def emptying : List Operation :=
  [.remove (.plain (.int 1)), .insert (.plain (.int 1)) (.plain (.int 10))]

/-- A chain with a hole in it, and a table that is left without keys. -/
theorem holes_are_compacted :
    Reached crowded.tail (afterAll crowded.tail) ∧
      (afterAll crowded.tail).Compacted (afterAll crowded.tail).compact ∧
      (∃ slot < (afterAll crowded.tail).size, (afterAll crowded.tail).entryAt? slot = none) ∧
      Reached emptying (afterAll emptying) ∧ (afterAll emptying).count = 0 ∧
      (afterAll emptying).size = 2 ∧ (afterAll emptying).Compacted (afterAll emptying).compact := by
  have crowds : Reached crowded.tail (afterAll crowded.tail) := reached_afterAll _ (by decide)
  have empties : Reached emptying (afterAll emptying) := reached_afterAll _ (by decide)
  exact ⟨crowds, reached_compacts _ _ crowds, by decide, empties, by decide, by decide,
    reached_compacts _ _ empties⟩

end StaticImage.Table
