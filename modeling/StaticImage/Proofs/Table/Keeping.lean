import StaticImage.Proofs.Table.Contents

namespace StaticImage.Table

/-- The counters are right: one is the number of entries, and no slot at or above the other is
free. -/
structure Tidy (t : Table) : Prop where
  counted : t.count = t.bindings.length
  bounded : t.lastFree ≤ t.size
  filled : ∀ slot, t.lastFree ≤ slot → slot < t.size → t.entryAt? slot ≠ none

theorem freeBelow_some (t : Table) (bound free : Nat) (found : t.freeBelow bound = some free) :
    free < bound ∧ t.entryAt? free = none ∧
      ∀ slot, free < slot → slot < bound → t.entryAt? slot ≠ none := by
  induction bound with
  | zero => cases found
  | succ slot ih =>
      unfold freeBelow at found
      split at found
      · rename_i vacant
        cases found
        exact ⟨Nat.lt_succ_self _, by simpa using vacant, fun other above below => by omega⟩
      · rename_i taken
        obtain ⟨below, vacant, above⟩ := ih found
        refine ⟨Nat.lt_succ_of_lt below, vacant, fun other past inside => ?_⟩
        by_cases top : other = slot
        · subst top
          simpa using taken
        · exact above other past (by omega)

theorem freeBelow_none (t : Table) (bound slot : Nat) (full : t.freeBelow bound = none)
    (below : slot < bound) : t.entryAt? slot ≠ none := by
  induction bound with
  | zero => omega
  | succ top ih =>
      unfold freeBelow at full
      split at full
      · cases full
      · rename_i taken
        by_cases last : slot = top
        · subst last
          simpa using taken
        · exact ih full (by omega)

theorem Tidy.exists_free {t : Table} (tidy : t.Tidy) (room : t.count < t.size) :
    ∃ free, t.freeBelow t.lastFree = some free := by
  cases search : t.freeBelow t.lastFree with
  | some free => exact ⟨free, rfl⟩
  | none =>
      obtain ⟨slot, inside, vacant⟩ := exists_vacant t (by rw [← tidy.counted]; exact room)
      by_cases below : slot < t.lastFree
      · exact (freeBelow_none t t.lastFree slot search below vacant).elim
      · exact (tidy.filled slot (by omega) inside vacant).elim

theorem tidy_sized (size : Nat) : (sized size).Tidy := by
  refine ⟨by simp [sized, bindings, entries], Nat.le_of_eq (size_sized size).symm, ?_⟩
  intro slot above below
  rw [size_sized] at below
  exact (Nat.not_lt.mpr above below).elim

theorem setSlot_taken (t : Table) (slot other : Nat) (e : Entry) (taken : t.entryAt? other ≠ none) :
    (t.setSlot slot (some e)).entryAt? other ≠ none := by
  rcases entryAt?_setSlot_cases (t := t) slot other (some e) with written | kept
  · rw [written]
    exact Option.some_ne_none e
  · rwa [kept]

theorem setSlot_filled (t : Table) (slot : Nat) (e : Entry) (inside : slot < t.size)
    (filled : ∀ other, slot < other → other < t.size → t.entryAt? other ≠ none) (other : Nat)
    (above : slot ≤ other) (below : other < t.size) :
    (t.setSlot slot (some e)).entryAt? other ≠ none := by
  by_cases here : other = slot
  · rw [entryAt?_setSlot t slot other _ inside, if_pos here]
    exact Option.some_ne_none e
  · exact setSlot_taken t slot other e (filled other (by omega) below)

theorem entryAt?_setNext (t : Table) (slot other : Nat) (next : UInt32) :
    ((t.setNext slot next).entryAt? other).map Entry.binding =
      (t.entryAt? other).map Entry.binding := by
  cases present : t.entryAt? slot with
  | none => rw [setNext, present]
  | some e =>
      rw [setNext_eq t slot e next present, entryAt?_setSlot t slot other _
        (entryAt?_lt t slot e present)]
      split
      · rename_i here
        rw [here, present]
        rfl
      · rfl

theorem setNext_taken (t : Table) (slot other : Nat) (next : UInt32) :
    (t.setNext slot next).entryAt? other = none ↔ t.entryAt? other = none := by
  have same := entryAt?_setNext t slot other next
  rw [← Option.map_eq_none_iff, same, Option.map_eq_none_iff]

def reserve (t : Table) (free : Nat) : Table :=
  { t with count := t.count + 1, lastFree := free }

@[simp]
theorem size_reserve (t : Table) (free : Nat) : (t.reserve free).size = t.size := rfl

@[simp]
theorem entryAt?_reserve (t : Table) (free slot : Nat) :
    (t.reserve free).entryAt? slot = t.entryAt? slot := rfl

theorem place_collision (t : Table) (key value : Value) (free : Nat) (occupant : Entry)
    (occupied : t.entryAt? (t.mainPosition key.data) = some occupant)
    (found : t.freeBelow t.lastFree = some free) :
    t.place key value =
      if t.mainPosition occupant.key.data = t.mainPosition key.data then
        ((t.reserve free).setSlot free (some ⟨key, value, occupant.next⟩)).setNext
          (t.mainPosition key.data) (UInt32.ofNat free)
      else
        (((t.reserve free).setNext ((t.reserve free).predecessor (t.mainPosition key.data) t.size
          (t.mainPosition occupant.key.data)) (UInt32.ofNat free)).setSlot free
            (some occupant)).setSlot (t.mainPosition key.data) (some ⟨key, value, chainEnd⟩) := by
  unfold place
  simp only [occupied, found]
  rfl

@[simp]
theorem lastFree_setNext (t : Table) (slot : Nat) (next : UInt32) :
    (t.setNext slot next).lastFree = t.lastFree := by
  unfold setNext
  split <;> rfl

@[simp]
theorem count_setNext (t : Table) (slot : Nat) (next : UInt32) :
    (t.setNext slot next).count = t.count := by
  unfold setNext
  split <;> rfl

namespace Tidy

variable {t : Table} (tidy : t.Tidy) (key value : Value)

include tidy

theorem taken_above {free : Nat} (found : t.freeBelow t.lastFree = some free) (slot : Nat)
    (above : free < slot) (inside : slot < t.size) : t.entryAt? slot ≠ none := by
  obtain ⟨_, _, between⟩ := freeBelow_some t t.lastFree free found
  by_cases searched : slot < t.lastFree
  · exact between slot above searched
  · exact tidy.filled slot (Nat.le_of_not_lt searched) inside

theorem fill {u : Table} {free : Nat} (found : t.freeBelow t.lastFree = some free)
    (size : u.size = t.size) (count : u.count = t.count + 1) (lastFree : u.lastFree = free)
    (filled : ∀ slot, free ≤ slot → slot < t.size → u.entryAt? slot ≠ none)
    (added : u.bindings.Perm ((key, value) :: t.bindings)) : u.Tidy := by
  obtain ⟨below, _, _⟩ := freeBelow_some t t.lastFree free found
  refine ⟨?_, ?_, ?_⟩
  · rw [count, added.length_eq, List.length_cons, tidy.counted]
  · rw [lastFree, size]
    exact Nat.le_trans (Nat.le_of_lt below) tidy.bounded
  · rw [lastFree, size]
    exact filled

theorem place (room : t.count < t.size) :
    (t.place key value).Tidy ∧ (t.place key value).bindings.Perm ((key, value) :: t.bindings) := by
  have main_inside : t.mainPosition key.data < t.size := Nat.mod_lt _ (Nat.zero_lt_of_lt room)
  cases occupied : t.entryAt? (t.mainPosition key.data) with
  | none =>
      have size := size_place t key value
      unfold Table.place at size ⊢
      simp only [occupied] at size ⊢
      have added := bindings_fill t _ ⟨key, value, chainEnd⟩ main_inside occupied
      refine ⟨⟨?_, Nat.le_trans tidy.bounded (Nat.le_of_eq size.symm), ?_⟩, added⟩
      · exact (congrArg (· + 1) tidy.counted).trans added.length_eq.symm
      · intro slot above below
        exact setSlot_taken t _ slot _ (tidy.filled slot above (Nat.lt_of_lt_of_eq below size))
  | some occupant =>
      obtain ⟨free, found⟩ := tidy.exists_free room
      obtain ⟨below, vacant, _⟩ := freeBelow_some t t.lastFree free found
      have inside : free < t.size := Nat.lt_of_lt_of_le below tidy.bounded
      have above := tidy.taken_above found
      rw [place_collision t key value free occupant occupied found]
      generalize t.mainPosition key.data = main at occupied main_inside
      split
      · have added := (bindings_setNext _ main (UInt32.ofNat free)).trans
          (bindings_fill (t.reserve free) free ⟨key, value, occupant.next⟩ inside vacant)
        refine ⟨tidy.fill key value found (by simp) (by simp; rfl) (by simp; rfl) ?_ added, added⟩
        intro slot from_free below
        rw [Ne, setNext_taken]
        exact setSlot_filled (t.reserve free) free _ inside above slot from_free below
      · generalize (t.reserve free).predecessor main t.size (t.mainPosition occupant.key.data) =
          before
        have linked (slot : Nat) := setNext_taken (t.reserve free) before slot (UInt32.ofNat free)
        have size := size_setNext (t.reserve free) before (UInt32.ofNat free)
        have bindings := bindings_setNext (t.reserve free) before (UInt32.ofNat free)
        have same := entryAt?_setNext (t.reserve free) before main (UInt32.ofNat free)
        rw [entryAt?_reserve, occupied, Option.map_some] at same
        obtain ⟨old, there, binding⟩ := Option.map_eq_some_iff.mp same
        have added := (bindings_move _ main free old occupant ⟨key, value, chainEnd⟩ there binding
          (size ▸ inside) ((linked free).mpr vacant)).trans (bindings.cons _)
        refine ⟨tidy.fill key value found (by simp) ?_ ?_ ?_ added, added⟩
        · exact count_setNext (t.reserve free) before (UInt32.ofNat free)
        · exact lastFree_setNext (t.reserve free) before (UInt32.ofNat free)
        · intro slot from_free below
          refine setSlot_taken _ _ slot _ ?_
          refine setSlot_filled _ free _ (size ▸ inside) (fun other past limit => ?_) slot from_free
            (size ▸ below)
          rw [Ne, linked]
          exact above other past (size ▸ limit)

theorem placeAll (entries : List Entry) (room : t.count + entries.length ≤ t.size) :
    (t.placeAll entries).Tidy ∧
      (t.placeAll entries).bindings.Perm (entries.map Entry.binding ++ t.bindings) := by
  induction entries generalizing t with
  | nil => exact ⟨tidy, .refl _⟩
  | cons e rest ih =>
      rw [List.length_cons] at room
      obtain ⟨placed, added⟩ := tidy.place e.key e.value (by omega)
      have count : (t.place e.key e.value).count = t.count + 1 := by
        rw [placed.counted, added.length_eq, List.length_cons, tidy.counted]
      obtain ⟨all, bindings⟩ := ih placed (by rw [size_place, count]; omega)
      refine ⟨all, ?_⟩
      calc
        List.Perm _ (rest.map Entry.binding ++ (t.place e.key e.value).bindings) := bindings
        List.Perm _ (rest.map Entry.binding ++ e.binding :: t.bindings) := added.append_left _
        List.Perm _ ((e :: rest).map Entry.binding ++ t.bindings) := List.perm_middle

end Tidy

theorem tidy_replaced (t : Table) (size : Nat) (room : t.bindings.length ≤ size) :
    ((sized size).placeAll t.entries).Tidy ∧
      ((sized size).placeAll t.entries).bindings.Perm t.bindings := by
  have length : t.entries.length = t.bindings.length := by rw [bindings, List.length_map]
  obtain ⟨all, bindings⟩ := (tidy_sized size).placeAll t.entries
    (by rw [size_sized, length]; simpa [sized] using room)
  rw [bindings_sized, List.append_nil] at bindings
  exact ⟨all, bindings⟩

namespace Tidy

variable {t : Table} (tidy : t.Tidy)

include tidy

theorem count_le_size : t.count ≤ t.size := by
  rw [tidy.counted]
  exact length_bindings_le t

theorem resize (size : Nat) : (t.resize size).Tidy ∧ (t.resize size).bindings.Perm t.bindings := by
  unfold Table.resize
  split
  · exact ⟨tidy, .refl _⟩
  · rename_i enough
    exact tidy_replaced t size (by rw [← tidy.counted]; omega)

theorem compact : t.compact.bindings.Perm t.bindings := by
  unfold Table.compact
  split
  · exact .refl _
  · exact (tidy.resize t.count).2

theorem grow : t.grow.Tidy ∧ t.grow.bindings.Perm t.bindings ∧ t.grow.count < t.grow.size := by
  have fits := tidy.count_le_size
  unfold Table.grow
  split
  · obtain ⟨resized, bindings⟩ := tidy.resize (max (2 * t.size) 2)
    refine ⟨resized, bindings, ?_⟩
    rw [resized.counted, bindings.length_eq, ← tidy.counted, Table.resize,
      if_neg (by omega), size_placeAll, size_sized]
    omega
  · rename_i room
    exact ⟨tidy, .refl _, Nat.lt_of_not_le room⟩

end Tidy

theorem follow_hit (t : Table) (key : Datum) (steps slot found : Nat) (before last : Option Nat)
    (walked : t.follow key steps slot before = some (found, last)) :
    ∃ e, t.entryAt? found = some e ∧ e.key.data = key := by
  induction steps generalizing slot before with
  | zero => cases walked
  | succ steps ih =>
      unfold follow at walked
      split at walked
      · cases walked
      · rename_i e present
        split at walked
        · rename_i hit
          cases walked
          exact ⟨e, present, hit⟩
        · split at walked
          · cases walked
          · exact ih _ _ walked

theorem bindings_revalue (t : Table) (slot : Nat) (e : Entry) (value : Value)
    (present : t.entryAt? slot = some e) : ∃ rest, t.bindings.Perm ((e.key, e.value) :: rest) ∧
      (t.setSlot slot (some { e with value := value })).bindings.Perm ((e.key, value) :: rest) := by
  have shape := List.perm_cons_erase
    ((mem_bindings_iff t e.key e.value).mpr ⟨slot, e, present, rfl⟩)
  have exchange := bindings_setSlot t slot (some { e with value := value })
    (entryAt?_lt t slot e present)
  rw [present] at exchange
  have both := exchange.trans (shape.cons (e.key, value))
  exact ⟨_, shape, (both.trans (List.Perm.swap _ _ _)).cons_inv⟩

theorem keys_revalue (t : Table) (slot : Nat) (e : Entry) (value : Value)
    (present : t.entryAt? slot = some e) :
    (t.setSlot slot (some { e with value := value })).keys.Perm t.keys := by
  obtain ⟨rest, shape, changed⟩ := bindings_revalue t slot e value present
  have before := shape.map fun b : Value × Value => b.1.data
  have after := changed.map fun b : Value × Value => b.1.data
  exact after.trans before.symm

namespace Tidy

variable {t u : Table} (tidy : t.Tidy)

include tidy

theorem revalue (slot : Nat) (e : Entry) (value : Value) (present : t.entryAt? slot = some e) :
    (t.setSlot slot (some { e with value := value })).Tidy := by
  have length := (keys_revalue t slot e value present).length_eq
  simp only [keys, List.length_map] at length
  refine ⟨?_, ?_, fun other above below => ?_⟩
  · rw [length]
    exact tidy.counted
  · rw [size_setSlot]
    exact tidy.bounded
  · rw [size_setSlot] at below
    exact setSlot_taken t slot other _ (tidy.filled other above below)

/-- What an insertion does to the bindings, whatever links the table has. -/
theorem insert_cases {key value : Value} {old : Option Value}
    (inserted : t.insert key value = .ok (old, u)) :
    u.Tidy ∧ ((∃ k before rest, k.data = key.data ∧ u.size = t.size ∧
        t.bindings.Perm ((k, before) :: rest) ∧ u.bindings.Perm ((k, value) :: rest)) ∨
      (t.locate? key.data = none ∧ u.size = t.grow.size ∧
        u.bindings.Perm ((key, value) :: t.bindings))) := by
  unfold Table.insert at inserted
  split at inserted
  · cases inserted
  · split at inserted
    · rename_i slot before located
      obtain ⟨e, present, hit⟩ := follow_hit t key.data t.size _ slot none before located
      simp only [present] at inserted
      cases inserted
      obtain ⟨rest, shape, changed⟩ := bindings_revalue t slot e value present
      exact ⟨tidy.revalue slot e value present,
        Or.inl ⟨e.key, e.value, rest, hit, size_setSlot t slot _, shape, changed⟩⟩
    · rename_i absent
      cases inserted
      obtain ⟨grown, bindings, room⟩ := tidy.grow
      obtain ⟨placed, added⟩ := grown.place key value room
      exact ⟨placed, Or.inr ⟨absent, size_place _ key value, added.trans (bindings.cons _)⟩⟩

theorem insert_keys {key value : Value} {old : Option Value}
    (inserted : t.insert key value = .ok (old, u)) (datum : Datum) :
    datum ∈ u.keys ↔ datum = key.data ∨ datum ∈ t.keys := by
  have keys {v : Table} {bindings : List (Value × Value)} (shape : v.bindings.Perm bindings) :
      datum ∈ v.keys ↔ datum ∈ bindings.map fun e => e.1.data :=
    (shape.map fun e : Value × Value => e.1.data).mem_iff
  rcases (tidy.insert_cases inserted).2 with ⟨k, before, rest, same, _, shape, changed⟩ |
    ⟨_, _, added⟩
  · rw [keys changed, keys shape]
    simp [same]
  · rw [keys added, List.map_cons, List.mem_cons]
    rfl

theorem insert {key value : Value} {old : Option Value}
    (inserted : t.insert key value = .ok (old, u)) :
    u.Tidy ∧ key.data ∈ u.keys ∧ t.keys ⊆ u.keys :=
  have keys := tidy.insert_keys inserted
  ⟨(tidy.insert_cases inserted).1, (keys _).mpr (Or.inl rfl), fun _ held =>
    (keys _).mpr (Or.inr held)⟩

theorem insertAll {bindings : List (Value × Value)} (made : t.insertAll bindings = .ok u) :
    u.Tidy ∧ (∀ b ∈ bindings, b.1.data ∈ u.keys) ∧ t.keys ⊆ u.keys := by
  induction bindings generalizing t with
  | nil =>
      cases made
      exact ⟨tidy, by simp, List.Subset.refl _⟩
  | cons b bindings ih =>
      obtain ⟨old, next, inserted, rest⟩ := (insertAll_cons t u b.1 b.2 bindings).mp made
      obtain ⟨next_tidy, here, kept⟩ := tidy.insert inserted
      obtain ⟨last_tidy, all, later⟩ := ih next_tidy rest
      refine ⟨last_tidy, fun other member => ?_, List.Subset.trans kept later⟩
      rcases List.mem_cons.mp member with rfl | inside
      · exact later here
      · exact all other inside

end Tidy

/-- All keys that went into a table are among its entries once it is compacted. -/
theorem insertAll_keeps {t : Table} {bindings : List (Value × Value)}
    (made : empty.insertAll bindings = .ok t) (b : Value × Value) (member : b ∈ bindings) :
    ∃ e ∈ t.compact.entries, e.key.data = b.1.data := by
  obtain ⟨tidy, all, _⟩ := (tidy_sized 0).insertAll made
  have keys : t.compact.keys.Perm t.keys := tidy.compact.map fun b : Value × Value => b.1.data
  obtain ⟨slot, e, present, same⟩ := (mem_keys_iff _ _).mp (keys.symm.subset (all b member))
  exact ⟨e, (mem_entries_iff _ e).mpr ⟨slot, present⟩, same⟩

end StaticImage.Table
