import Mathlib.Data.Set.Card
import StaticImage.Proofs.Table.Bindings

namespace StaticImage.Table

inductive Operation where
  | insert (key value : Value)
  | remove (key : Value)
  | compact
  deriving DecidableEq, Repr

/-- The table after an operation; a refused one leaves it as it was. -/
def apply (t : Table) : Operation → Table
  | .insert key value =>
    match t.insert key value with
    | .ok (_, u) => u
    | .error _ => t
  | .remove key => (t.remove key).2
  | .compact => t.compact

/-- Tables that start with free slots only, with the operations since, the latest one first. -/
inductive Reached : List Operation → Table → Prop where
  | start (size : Nat) (small : size ≤ maxSlots) : Reached [] (sized size)
  | step (history : List Operation) (t : Table) (operation : Operation)
      (before : Reached history t) (small : (t.apply operation).size ≤ maxSlots) :
      Reached (operation :: history) (t.apply operation)

/-- The value given to a key by its latest insertion, unless it was removed since. -/
def latest : List Operation → Datum → Option Value
  | [], _ => none
  | .insert k value :: earlier, key =>
    if k.isNil then latest earlier key
    else if key = k.data then some value else latest earlier key
  | .remove k :: earlier, key => if key = k.data then none else latest earlier key
  | .compact :: earlier, key => latest earlier key

/-- The table answers like a finite map from key data to values. -/
structure Represents (t : Table) (bound : Datum → Option Value) : Prop where
  find : ∀ key, t.find? key = bound key.data
  insert : ∀ key value, key.isNil = false →
    t.insert key value = .ok (bound key.data, t.apply (.insert key value))
  remove : ∀ key, (t.remove key).1 = bound key.data
  /-- The entries are those of the map. -/
  entries : ∀ key value,
    (∃ e ∈ t.entries, e.key.data = key ∧ e.value = value) ↔ bound key = some value
  once : (t.entries.map fun e => e.key.data).Nodup
  finite : {key | bound key ≠ none}.Finite
  count : t.count = {key | bound key ≠ none}.ncard
  nil : ∀ key value, key.isNil = true →
    t.insert key value = .error .nilKey ∧ t.apply (.insert key value) = t ∧ t.find? key = none

theorem apply_insert (t u : Table) (key value : Value) (old : Option Value)
    (inserted : t.insert key value = .ok (old, u)) : t.apply (.insert key value) = u := by
  simp only [apply, inserted]

/-- One operation keeps the layout and changes the bindings as its history says. -/
theorem apply_spec (t : Table) (history : List Operation) (operation : Operation) (valid : t.Valid)
    (agrees : ∀ key value, t.Binds key value ↔ latest history key = some value)
    (small : (t.apply operation).size ≤ maxSlots) :
    (t.apply operation).Valid ∧ ∀ key value,
      (t.apply operation).Binds key value ↔ latest (operation :: history) key = some value := by
  cases operation with
  | insert k new =>
      by_cases refused : k.isNil = true
      · have data : k.data = .nil := by simpa [Value.isNil] using refused
        have same : t.apply (.insert k new) = t := by
          simp only [apply, insert_nil t k new data]
        rw [same]
        refine ⟨valid, fun key value => ?_⟩
        rw [agrees, latest, if_pos refused]
      · have named : k.data ≠ .nil := by simpa [Value.isNil] using refused
        obtain ⟨u, inserted, after⟩ := insert_spec t k new valid named
        rw [apply_insert t u k new _ inserted] at small ⊢
        obtain ⟨inserted_valid, binds⟩ := after small
        refine ⟨inserted_valid, fun key value => ?_⟩
        rw [binds, latest, if_neg refused]
        split
        · rw [Option.some.injEq, eq_comm]
        · exact agrees key value
  | remove k =>
      obtain ⟨_, removed, binds⟩ := remove_binds t k valid
      refine ⟨removed, fun key value => ?_⟩
      change (t.remove k).2.Binds key value ↔ _
      rw [binds, latest]
      split
      · rename_i same
        simp [same]
      · rename_i away
        rw [agrees]
        exact and_iff_right away
  | compact =>
      obtain ⟨compacted, _, bindings⟩ := compact_spec t valid
      refine ⟨compacted, fun key value => ?_⟩
      change t.compact.Binds key value ↔ _
      rw [binds_congr bindings, agrees, latest]

theorem Reached.valid {history : List Operation} {t : Table} (reached : Reached history t) :
    t.Valid ∧ ∀ key value, t.Binds key value ↔ latest history key = some value := by
  induction reached with
  | start size small =>
      refine ⟨sized_valid size small, fun key value => ?_⟩
      simp [Binds, latest]
  | step history t operation before small ih =>
      exact apply_spec t history operation ih.1 ih.2 small

/-- Whatever operations lead to a table, it answers like the map that they describe. -/
theorem reached_represents_latest (t : Table) (history : List Operation)
    (reached : Reached history t) : t.Represents (latest history) := by
  obtain ⟨valid, agrees⟩ := reached.valid
  have find (key : Value) : t.find? key = latest history key.data := by
    ext value
    exact (find?_eq_some_iff t key value valid).trans (agrees key.data value)
  have keys_eq : t.entries.map (fun e => e.key.data) = t.keys := by
    simp only [keys, bindings, List.map_map]
    rfl
  have live : {key | latest history key ≠ none} = ↑t.keys.toFinset := by
    ext key
    simp only [Set.mem_ofPred_eq, List.coe_toFinset, Option.ne_none_iff_exists']
    constructor
    · rintro ⟨value, held⟩
      exact ((agrees key value).mpr held).mem_keys
    · intro member
      obtain ⟨⟨k, value⟩, inside, same⟩ := List.mem_map.mp member
      exact ⟨value, (agrees key value).mp ⟨k, same, inside⟩⟩
  refine ⟨find, ?_, ?_, ?_, ?_, ?_, ?_, ?_⟩
  · intro key value accepted
    obtain ⟨u, inserted, _⟩ := insert_spec t key value valid (by simpa [Value.isNil] using accepted)
    rw [apply_insert t u key value _ inserted, inserted, find]
  · intro key
    rw [(remove_binds t key valid).1, find]
  · intro key value
    rw [← agrees]
    simp only [Binds, bindings, List.mem_map, Entry.binding, Prod.mk.injEq]
    constructor
    · rintro ⟨e, member, same, stored⟩
      exact ⟨e.key, same, e, member, rfl, stored⟩
    · rintro ⟨_, same, e, member, rfl, stored⟩
      exact ⟨e, member, same, stored⟩
  · rw [keys_eq]
    exact valid.distinct
  · rw [live]
    exact Finset.finite_toSet _
  · rw [live, Set.ncard_coe_finset, List.toFinset_card_of_nodup valid.distinct, valid.counted, keys,
      List.length_map]
  · intro key value refused
    have data : key.data = .nil := by simpa [Value.isNil] using refused
    refine ⟨insert_nil t key value data, by simp only [apply, insert_nil t key value data], ?_⟩
    rw [find?_eq_none_iff t key valid, data]
    exact valid.named

/-- Colliding keys, of which the one placed first is removed again before the table is compacted. -/
def crowded : List Operation :=
  [.compact, .remove (.plain (.int 1)), .insert (.plain (.int 2)) (.plain (.bool true)),
    .insert (.plain (.int 5)) (.plain .nil), .insert (.plain (.int 3)) (.plain (.int 30)),
    .insert (.plain (.int 1)) (.plain (.int 10))]

def afterAll (history : List Operation) : Table :=
  history.foldr (fun operation t => t.apply operation) empty

theorem reached_afterAll (history : List Operation)
    (small : ∀ earlier ∈ history.tails, (afterAll earlier).size ≤ maxSlots) :
    Reached history (afterAll history) := by
  induction history with
  | nil => exact .start 0 (by decide)
  | cons operation earlier ih =>
      refine .step earlier _ operation (ih fun rest member => small rest ?_) ?_
      · exact List.mem_cons_of_mem _ member
      · exact small (operation :: earlier) List.mem_cons_self

theorem crowded_represents_latest :
    Reached crowded (afterAll crowded) ∧ (afterAll crowded).Represents (latest crowded) := by
  have reached : Reached crowded (afterAll crowded) := reached_afterAll crowded (by decide)
  exact ⟨reached, reached_represents_latest _ _ reached⟩

end StaticImage.Table
