import StaticImage.Proofs.Table.LinkLimits

/-!
Keys in a row. The integers from zero on, inserted in order, stand in the slots that count them, in
each table on the way to the last one. A key of the first bucket that comes next is moved to the top
slot; where the number of that slot is the mark of an end, the key is lost and can be written again.
-/

namespace StaticImage.Table

def rowEntry (value : Value) (slot : Nat) : Entry :=
  ⟨.plain (.int slot), value, chainEnd⟩

/-- The integers below a number, each in the slot of its own number, and nothing else. -/
structure Row (t : Table) (value : Value) (count : Nat) : Prop where
  counted : t.count = count
  lastFree : t.lastFree = t.size
  slots : ∀ slot, t.entryAt? slot = if slot < count then some (rowEntry value slot) else none

theorem row_sized (value : Value) (size : Nat) : (sized size).Row value 0 where
  counted := rfl
  lastFree := (size_sized size).symm
  slots slot := by rw [entryAt?_sized, if_neg (Nat.not_lt_zero slot)]

theorem mainPosition_int {t : Table} {n : Nat} (inside : n < t.size) (small : t.size ≤ 2 ^ 32) :
    t.mainPosition (.int n) = n := by
  have hash : (intHash n).toNat = n := by
    have bound : n < UInt32.size := Nat.lt_of_lt_of_le inside small
    rw [intHash, ← Int.natCast_mod, Int.toNat_natCast, Nat.mod_eq_of_lt bound]
    exact UInt32.toNat_ofNat_of_lt bound
  exact (congrArg (· % t.size) hash).trans (Nat.mod_eq_of_lt inside)

namespace Row

variable {t : Table} {value : Value} {count : Nat} (row : t.Row value count)

include row

theorem few : count ≤ t.size := by
  by_contra more
  have taken := row.slots t.size
  rw [if_pos (by omega)] at taken
  exact absurd (entryAt?_lt t _ _ taken) (Nat.lt_irrefl _)

theorem place (room : count < t.size) (small : t.size ≤ 2 ^ 32) :
    (t.place (.plain (.int count)) value).Row value (count + 1) := by
  have main := mainPosition_int room small
  have vacant : t.entryAt? count = none := by rw [row.slots, if_neg (Nat.lt_irrefl count)]
  have placed : t.place (.plain (.int count)) value =
      { t.setSlot count (some (rowEntry value count)) with count := t.count + 1 } := by
    simp only [Table.place, Value.plain, main, vacant]
    rfl
  rw [placed]
  refine ⟨congrArg (· + 1) row.counted, row.lastFree.trans (size_setSlot t count _).symm,
    fun slot => ?_⟩
  refine (entryAt?_setSlot t count slot _ room).trans ?_
  by_cases here : slot = count
  · rw [if_pos here, if_pos (by omega), here]
  · rw [if_neg here, row.slots]
    exact if_congr (by omega) rfl rfl

theorem entries (full : t.size ≤ count) : t.entries = (List.range count).map (rowEntry value) := by
  have size : t.slots.size = count := Nat.le_antisymm full row.few
  have slots : t.slots.toList = ((List.range count).map (rowEntry value)).map some := by
    refine List.ext_getElem (by simp [size]) fun slot inside _ => ?_
    have bound : slot < t.slots.size := by simpa using inside
    have taken := row.slots slot
    rw [if_pos (size ▸ bound), entryAt?, Array.getElem?_eq_getElem bound] at taken
    simpa using taken
  rw [Table.entries, slots, List.filterMap_map]
  exact List.filterMap_some

end Row

theorem row_placeAll (value : Value) (size count : Nat) (room : count ≤ size)
    (small : size ≤ 2 ^ 32) :
    ((sized size).placeAll ((List.range count).map (rowEntry value))).Row value count := by
  induction count with
  | zero => exact row_sized value size
  | succ count ih =>
      have before := ih (by omega)
      rw [List.range_succ, List.map_append, placeAll, List.foldl_append]
      refine before.place ?_ ?_
      · rw [size_placeAll, size_sized]
        omega
      · rwa [size_placeAll, size_sized]

namespace Row

variable {t : Table} {value : Value} {count : Nat} (row : t.Row value count)

include row

theorem size_grow : t.grow.size = if t.size ≤ count then max (2 * t.size) 2 else t.size := by
  have few := row.few
  rw [Table.grow, row.counted]
  split
  · rw [resize, row.counted, if_neg (by omega), size_placeAll, size_sized]
  · rfl

theorem grow (small : t.grow.size ≤ 2 ^ 32) : t.grow.Row value count ∧ count < t.grow.size := by
  have few := row.few
  have size := row.size_grow
  by_cases full : t.size ≤ count
  · rw [if_pos full] at size
    rw [size] at small
    refine ⟨?_, by omega⟩
    rw [Table.grow, row.counted, if_pos full, resize, row.counted, if_neg (by omega),
      row.entries full]
    exact row_placeAll value _ count (by omega) small
  · rw [Table.grow, row.counted, if_neg full]
    exact ⟨row, Nat.lt_of_not_le full⟩

theorem locate?_past {n : Nat} (past : count ≤ n) : t.locate? (.int n) = none := by
  cases located : t.locate? (.int n) with
  | none => rfl
  | some found =>
      obtain ⟨e, present, same⟩ := follow_hit t _ _ _ found.1 _ found.2 located
      rw [row.slots] at present
      split at present
      · cases present
        have number : (found.1 : Int) = n := Datum.int.inj same
        omega
      · cases present

theorem insert : t.insert (.plain (.int count)) value =
    .ok (none, t.grow.place (.plain (.int count)) value) := by
  have missing := row.locate?_past (Nat.le_refl count)
  simp only [Table.insert, Value.plain, missing]
  rfl

end Row

theorem insertAll_append (t : Table) (front back : List (Value × Value)) :
    t.insertAll (front ++ back) = (t.insertAll front).bind fun u => u.insertAll back :=
  List.foldlM_append

def row (value : Value) (count : Nat) : List (Value × Value) :=
  (List.range count).map fun (n : Nat) => (.plain (.int n), value)

section

variable {size count : Nat}

theorem grown_le (few : count ≤ size) (snug : size ≤ max 2 (2 * count - 2)) :
    (if size ≤ count then max (2 * size) 2 else size) ≤ max 2 (2 * (count + 1) - 2) := by
  split <;> omega

theorem power_grown (power : size = 0 ∨ ∃ k, size = 2 ^ k) :
    (if size ≤ count then max (2 * size) 2 else size) = 0 ∨
      ∃ k, (if size ≤ count then max (2 * size) 2 else size) = 2 ^ k := by
  split
  · rcases power with rfl | ⟨k, rfl⟩
    · exact Or.inr ⟨1, rfl⟩
    · have positive := Nat.two_pow_pos k
      exact Or.inr ⟨k + 1, by rw [Nat.pow_succ]; omega⟩
  · exact power

end

/-- A row is built in a table of the least power of two that holds it. -/
theorem row_insertAll (value : Value) (count : Nat) (few : count ≤ 2 ^ 31) :
    ∃ t, empty.insertAll (row value count) = .ok t ∧ t.Row value count ∧
      t.size ≤ max 2 (2 * count - 2) ∧ (t.size = 0 ∨ ∃ k, t.size = 2 ^ k) := by
  induction count with
  | zero => exact ⟨empty, rfl, row_sized value 0, Nat.zero_le _, Or.inl rfl⟩
  | succ count ih =>
      obtain ⟨t, made, before, snug, power⟩ := ih (by omega)
      have size := before.size_grow
      have bound := grown_le before.few snug
      have small : t.grow.size ≤ 2 ^ 32 := size ▸ Nat.le_trans bound (by omega)
      obtain ⟨grown, room⟩ := before.grow small
      refine ⟨t.grow.place (.plain (.int count)) value, ?_, grown.place room small, ?_, ?_⟩
      · rw [row, List.range_succ, List.map_append, insertAll_append, ← row, made]
        exact (insertAll_cons t _ _ _ []).mpr ⟨none, _, before.insert, rfl⟩
      · rw [size_place, size]
        exact bound
      · rw [size_place, size]
        exact power_grown power

theorem row_full (value : Value) :
    ∃ t, empty.insertAll (row value 8388608) = .ok t ∧ t.Row value 8388608 ∧ t.size = 8388608 := by
  obtain ⟨t, made, row, snug, power⟩ := row_insertAll value 8388608 (by decide)
  refine ⟨t, made, row, ?_⟩
  have few := row.few
  have bounds : 8388608 ≤ t.size ∧ t.size < 2 ^ 24 := by
    clear power
    omega
  rcases power with none | ⟨k, same⟩
  · omega
  · rw [same] at bounds ⊢
    have most : k < 24 := (Nat.pow_lt_pow_iff_right (by decide : 1 < 2)).mp bounds.2
    have least : 23 ≤ k := (Nat.pow_le_pow_iff_right (by decide : 1 < 2)).mp bounds.1
    obtain rfl : k = 23 := by omega
    rfl

/-- What happens to a key that is not found behind the first one of its bucket. -/
structure Moves (t : Table) (key value : Value) (first : Entry) (free : Nat) (u : Table) : Prop where
  inserted : t.insert key value = .ok (none, u)
  counted : u.count = t.count + 1
  lastFree : u.lastFree = free
  size : u.size = t.size
  slots : ∀ slot, u.entryAt? slot =
    if slot = t.mainPosition key.data then some { first with next := UInt32.ofNat free }
    else if slot = free then some ⟨key, value, first.next⟩
    else t.entryAt? slot

theorem exists_moves (t : Table) (key value : Value) (first : Entry) (free : Nat)
    (named : key.isNil = false) (present : t.entryAt? (t.mainPosition key.data) = some first)
    (own : t.mainPosition first.key.data = t.mainPosition key.data)
    (other : first.key.data ≠ key.data) (last : first.isLast = true) (room : t.count < t.size)
    (found : t.freeBelow t.lastFree = some free) (inside : free < t.size) :
    ∃ u, t.Moves key value first free u := by
  have collision : t.Collision (t.mainPosition key.data) free first :=
    ⟨present, (freeBelow_some t _ _ found).2.1, inside⟩
  have kept : t.grow = t := by rw [grow, if_neg (Nat.not_le.mpr room)]
  have placed := place_eq_linkBehind t key value free first collision found own
  refine ⟨t.linkBehind key value (t.mainPosition key.data) free first, ?_, rfl, rfl,
    size_linkBehind t key value _ free first, collision.entryAt?_linkBehind key value⟩
  rw [insert, named, locate?_behind_last present other last, kept, placed]
  rfl

theorem insert_grown {t : Table} {key : Value} (value : Value)
    (missing : t.locate? key.data = none) (still : t.grow.locate? key.data = none)
    (room : t.grow.count < t.grow.size) : t.insert key value = t.grow.insert key value := by
  have kept : t.grow.grow = t.grow := by rw [grow, if_neg (Nat.not_le.mpr room)]
  rw [insert, insert, missing, still, kept]

theorem mainPosition_multiple (t : Table) : t.mainPosition (multiple 1).data = 0 :=
  Piled.mainPosition_of_hash (hash_multiple 1)

section

variable {t : Table} {first : Entry} (present : t.entryAt? 0 = some first)
  (zero : first.key.data = .int 0) (last : first.isLast = true)

include present zero last

theorem locate?_multiple : t.locate? (multiple 1).data = none := by
  refine locate?_behind_last ?_ ?_ last
  · rwa [mainPosition_multiple]
  · rw [zero]
    decide

theorem exists_moves_multiple {free : Nat} (value : Value) (room : t.count < t.size)
    (lastFree : t.lastFree = free + 1) (vacant : t.entryAt? free = none) (inside : free < t.size) :
    ∃ u, t.Moves (multiple 1) value first free u := by
  have main := t.mainPosition_multiple
  refine exists_moves t _ value first free rfl (by rwa [main]) ?_ ?_ last room ?_ inside
  · rw [main, zero]
    exact Piled.mainPosition_of_hash rfl
  · rw [zero]
    decide
  · rw [lastFree, freeBelow, vacant]
    rfl

end

/-- The next key of the first bucket makes such a table grow. -/
theorem exists_row_grown (old : Value) :
    ∃ t, empty.insertAll (row old 8388608) = .ok t ∧ t.grow.Row old 8388608 ∧
      t.grow.size = 16777216 ∧
      ∀ value, t.insert (multiple 1) value = t.grow.insert (multiple 1) value := by
  obtain ⟨t, made, row, full⟩ := row_full old
  have size : t.grow.size = 16777216 := by
    rw [row.size_grow, full]
    rfl
  obtain ⟨grown, room⟩ := row.grow (by rw [size]; decide)
  refine ⟨t, made, grown, size, fun value => ?_⟩
  exact insert_grown value (locate?_multiple (row.slots 0) rfl rfl)
    (locate?_multiple (grown.slots 0) rfl rfl) (by rwa [grown.counted])

/-- A key of the first bucket that is inserted twice behind such a row is in the table twice. -/
theorem key_is_doubled (old first second : Value) :
    ∃ t, empty.insertAll (row old 8388608 ++ [(multiple 1, first), (multiple 1, second)]) = .ok t ∧
      (multiple 1, first) ∈ t.bindings ∧ (multiple 1, second) ∈ t.bindings := by
  obtain ⟨t, made, grown, size, enlarged⟩ := exists_row_grown old
  have vacant (slot : Nat) (past : 8388608 ≤ slot) : t.grow.entryAt? slot = none := by
    rw [grown.slots, if_neg (by omega)]
  obtain ⟨u, moves⟩ := exists_moves_multiple (grown.slots 0) rfl rfl first
    (by rw [grown.counted, size]; decide) (grown.lastFree.trans size) (vacant _ (by decide))
    (by rw [size]; decide)
  have slots := moves.slots
  rw [mainPosition_multiple] at slots
  -- the first key of the bucket links to the top slot, so it is taken for the last one again
  obtain ⟨w, again⟩ := exists_moves_multiple (t := u) ((slots 0).trans (if_pos rfl)) rfl rfl second
    (by rw [moves.counted, moves.size, grown.counted, size]; decide) moves.lastFree
    (by rw [slots, if_neg (by decide), if_neg (by decide), vacant _ (by decide)])
    (by rw [moves.size, size]; decide)
  have placed := again.slots
  rw [mainPosition_multiple] at placed
  refine ⟨w, ?_, (mem_bindings_iff _ _ _).mpr ⟨16777215, ⟨multiple 1, first, chainEnd⟩, ?_, rfl⟩,
    (mem_bindings_iff _ _ _).mpr ⟨16777214, ⟨multiple 1, second, chainEnd⟩, ?_, rfl⟩⟩
  · rw [insertAll_append, made]
    exact (insertAll_cons t _ _ _ _).mpr ⟨none, u, (enlarged first).trans moves.inserted,
      (insertAll_cons u _ _ _ _).mpr ⟨none, w, again.inserted, rfl⟩⟩
  · rw [placed, if_neg (by decide), if_neg (by decide), slots, if_neg (by decide), if_pos rfl]
    rfl
  · rw [placed, if_neg (by decide), if_pos rfl]
    rfl

end StaticImage.Table
