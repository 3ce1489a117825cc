import StaticImage.Proofs.Table.FiniteMap
import StaticImage.Proofs.Table.Searching

/-!
The layout of a table, slot by slot. Whatever operations lead to a table, its counters tell the entries
and the free slots, no key stands in two slots, and the links from each main position visit the keys of
its bucket. So the loops over links end, at slots of the table, and a key that has to be placed always
finds a free slot where it needs one.
-/

namespace StaticImage.Table

/-- The representation invariant. -/
structure Coherent (t : Table) : Prop where
  counted : t.count = t.slots.toList.countP Option.isSome
  distinct : ∀ slot other e f, t.entryAt? slot = some e → t.entryAt? other = some f →
    e.key.data = f.key.data → slot = other
  /-- A bucket with keys has one at its main position, and the links from there visit all of them. -/
  chained : ∀ slot main, t.homeAt? slot = some main →
    t.homeAt? main = some main ∧ ∃ path, t.Visits main path ∧ path.Nodup ∧
      ∀ other, other ∈ path ↔ t.homeAt? other = some main
  /-- An entry links to a slot that is taken, unless it is the last one of its chain. -/
  linked : ∀ slot e, t.entryAt? slot = some e → e.isLast = false →
    ∃ f, t.entryAt? e.next.toNat = some f
  bounded : t.lastFree ≤ t.size
  filled : ∀ slot, t.lastFree ≤ slot → slot < t.size → t.entryAt? slot ≠ none

/-- The search for a key ends within as many slots as there are, with what the table answers. -/
structure Searchable (t : Table) (key : Datum) : Prop where
  empty : t.size = 0 → t.locate? key = none
  ends : 0 < t.size → ∃ looked,
    t.Search key (t.mainPosition key) none looked (t.locate? key) ∧
      looked.length ≤ t.size ∧ ∀ slot ∈ looked, slot < t.size
  /-- A removal writes to slots only that are taken. -/
  taken : ∀ slot before, t.locate? key = some (slot, before) →
    (∃ e, t.entryAt? slot = some e ∧ e.key.data = key) ∧
      ∀ previous ∈ before, t.entryAt? previous ≠ none

/-- The table can take a new key: where its main position is taken a free slot is found, and where a key
of another bucket stands there, the search for the slot before that one ends. -/
structure Receives (t : Table) (key : Datum) : Prop where
  inside : t.mainPosition key < t.size
  free : t.entryAt? (t.mainPosition key) ≠ none →
    ∃ free < t.size, t.freeBelow t.lastFree = some free ∧ t.entryAt? free = none
  before : ∀ occupant free, t.entryAt? (t.mainPosition key) = some occupant →
    t.freeBelow t.lastFree = some free →
    t.mainPosition occupant.key.data ≠ t.mainPosition key →
    ∃ looked, (t.reserve free).Backtrack (t.mainPosition key) (t.mainPosition occupant.key.data)
        looked ((t.reserve free).predecessor (t.mainPosition key) t.size
          (t.mainPosition occupant.key.data)) ∧
      looked.length ≤ t.size ∧ ∀ slot ∈ looked, slot < t.size

inductive Places (t : Table) : Operation → Table → Datum → Prop where
  | compacted (front : List Entry) (e : Entry) (rest : List Entry) (loose : t.count ≠ t.size)
      (split : t.entries = front ++ e :: rest) :
      Places t .compact ((sized t.count).placeAll front) e.key.data
  | grown (key value : Value) (front : List Entry) (e : Entry) (rest : List Entry)
      (accepted : key.isNil = false) (absent : t.locate? key.data = none) (full : t.size ≤ t.count)
      (split : t.entries = front ++ e :: rest) :
      Places t (.insert key value) ((sized (max (2 * t.size) 2)).placeAll front) e.key.data
  | added (key value : Value) (accepted : key.isNil = false) (absent : t.locate? key.data = none) :
      Places t (.insert key value) t.grow key.data

theorem keys_eq_filterMap (t : Table) :
    t.keys = t.slots.toList.filterMap fun slot => slot.map fun e => e.key.data := by
  rw [keys_eq_map, entries, List.map_filterMap]
  rfl

namespace Valid

variable {t : Table} (valid : t.Valid)

include valid

theorem slot_unique (slot other : Nat) (e f : Entry) (present : t.entryAt? slot = some e)
    (found : t.entryAt? other = some f) (same : e.key.data = f.key.data) : slot = other := by
  have apart := valid.distinct
  rw [keys_eq_filterMap, List.Nodup, List.pairwise_filterMap, List.pairwise_iff_getElem] at apart
  have at_slot (slot : Nat) (e : Entry) (present : t.entryAt? slot = some e) :
      ∃ inside : slot < t.slots.toList.length, t.slots.toList[slot] = some e := by
    have inside : slot < t.slots.size := entryAt?_lt t slot e present
    exact ⟨inside, by simpa [entryAt?, inside] using present⟩
  obtain ⟨inside, here⟩ := at_slot slot e present
  obtain ⟨inside', there⟩ := at_slot other f found
  rcases Nat.lt_trichotomy slot other with below | equal | above
  · exact (apart slot other inside inside' below _ (by rw [here]; rfl) _ (by rw [there]; rfl)
      same).elim
  · exact equal
  · exact (apart other slot inside' inside above _ (by rw [there]; rfl) _ (by rw [here]; rfl)
      same.symm).elim

theorem coherent : t.Coherent where
  counted := by
    rw [valid.counted, bindings, entries, List.length_map, List.length_filterMap_eq_countP]
    rfl
  distinct := valid.slot_unique
  chained slot main home := by
    obtain ⟨rest, chain, visits⟩ := valid.bucket slot main home
    exact ⟨(chain.covers main).mp List.mem_cons_self, main :: rest, visits, chain.nodup,
      chain.covers⟩
  linked slot e present more := by
    obtain ⟨path, visits, _⟩ := valid.visits slot e present
    cases visits with
    | last _ f found ends =>
        rw [Option.some.inj (present.symm.trans found), ends] at more
        cases more
    | onward _ f rest found _ tail =>
        rw [Option.some.inj (present.symm.trans found)]
        exact tail.taken
  bounded := valid.bounded
  filled := valid.filled

theorem searchable (key : Datum) : t.Searchable key where
  empty none_there := by rw [locate?, none_there]; rfl
  ends room := by
    obtain ⟨looked, search, short⟩ := valid.search key room
    exact ⟨looked, search, short, search.inside⟩
  taken slot before located := by
    have room : 0 < t.size := by
      by_contra empty
      rw [locate?, Nat.eq_zero_of_not_pos empty] at located
      cases located
    obtain ⟨looked, search, _⟩ := valid.search key room
    rw [located] at search
    exact search.taken nofun

theorem receives (room : t.count < t.size) (key : Datum) : t.Receives key where
  inside := Nat.mod_lt _ (Nat.zero_lt_of_lt room)
  free _ := by
    obtain ⟨free, found⟩ := valid.tidy.exists_free room
    obtain ⟨below, vacant, _⟩ := freeBelow_some t t.lastFree free found
    exact ⟨free, Nat.lt_of_lt_of_le below valid.bounded, found, vacant⟩
  before occupant free present found foreign := by
    -- The counters are lowered before the search, which does not read them.
    obtain ⟨looked, before, search, short⟩ := valid.backtrack _ occupant present foreign
    have reserved := search.reserve free
    rw [reserved.predecessor t.size short]
    exact ⟨looked, reserved, short, search.inside⟩

end Valid

theorem replaced_room (t : Table) (size : Nat) (front rest : List Entry) (e : Entry) (valid : t.Valid)
    (enough : t.count ≤ size) (small : size ≤ maxSlots) (split : t.entries = front ++ e :: rest) :
    ((sized size).placeAll front).Valid ∧
      ((sized size).placeAll front).count < ((sized size).placeAll front).size := by
  have takes := valid.takes_entries size enough small
  rw [split] at takes
  obtain ⟨⟨placed, room, _⟩, _⟩ := takes.placeAll
  rw [List.length_cons] at room
  exact ⟨placed, by omega⟩

theorem size_apply_insert (t : Table) (key value : Value) (accepted : key.isNil = false)
    (absent : t.locate? key.data = none) : (t.apply (.insert key value)).size = t.grow.size := by
  have inserted : t.insert key value = .ok (none, t.grow.place key value) := by
    simp only [insert, accepted, absent, Bool.false_eq_true, if_false]
  rw [apply_insert t _ key value none inserted, size_place]

theorem Places.room {t u : Table} {operation : Operation} {key : Datum}
    (places : t.Places operation u key) (valid : t.Valid)
    (small : (t.apply operation).size ≤ maxSlots) : u.Valid ∧ u.count < u.size := by
  have fits := valid.tidy.count_le_size
  cases places with
  | compacted front e rest loose split =>
      apply replaced_room t t.count front rest e valid (Nat.le_refl _) _ split
      exact Nat.le_trans fits valid.small
  | grown key value front e rest accepted absent full split =>
      rw [size_apply_insert t key value accepted absent, size_grow t valid full] at small
      exact replaced_room t _ front rest e valid (by omega) small split
  | added key value accepted absent =>
      rw [size_apply_insert t key value accepted absent] at small
      obtain ⟨valid, room, _⟩ := grow_spec t valid small
      exact ⟨valid, room⟩

/-- Whatever operations lead to a table, it is coherent, every search in it ends, and whatever is done
to it next, each key that is placed finds the free slot that it needs. -/
theorem operations_keep_coherent (t : Table) (history : List Operation)
    (reached : Reached history t) :
    t.Coherent ∧ (∀ key, t.Searchable key) ∧
      ∀ operation u key, (t.apply operation).size ≤ maxSlots → t.Places operation u key →
        u.Receives key := by
  obtain ⟨valid, _⟩ := reached.valid
  refine ⟨valid.coherent, valid.searchable, ?_⟩
  intro operation u key small places
  obtain ⟨valid, room⟩ := places.room valid small
  exact valid.receives room key

/-- The next key belongs where a key of another bucket stands. -/
theorem displacing_keeps_coherent :
    Reached (crowded.drop 3) (afterAll (crowded.drop 3)) ∧
      (afterAll (crowded.drop 3)).Coherent ∧
      (∀ key, (afterAll (crowded.drop 3)).Searchable key) ∧
      (afterAll (crowded.drop 3)).homeAt? 2 = some 1 ∧
      (afterAll (crowded.drop 3)).grow.mainPosition (.int 2) = 2 ∧
      (afterAll (crowded.drop 3)).grow.Receives (.int 2) := by
  have reached : Reached (crowded.drop 3) (afterAll (crowded.drop 3)) :=
    reached_afterAll _ (by decide)
  obtain ⟨coherent, searchable, placed⟩ := operations_keep_coherent _ _ reached
  refine ⟨reached, coherent, searchable, by decide, by decide, ?_⟩
  exact placed (.insert (.plain (.int 2)) (.plain (.bool true))) _ _ (by decide)
    (.added _ _ rfl (by decide))

end StaticImage.Table
