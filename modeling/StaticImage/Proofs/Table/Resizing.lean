import StaticImage.Proofs.Table.Placing

namespace StaticImage.Table

theorem sized_valid (size : Nat) (small : size ≤ maxSlots) : (sized size).Valid where
  small := by rwa [size_sized]
  counted := by simp [sized, bindings, entries]
  bounded := by rw [size_sized]; exact Nat.le_refl size
  filled slot above below := by
    rw [size_sized] at below
    exact (Nat.not_lt.mpr above below).elim
  distinct := by simp [keys]
  named := by simp [keys]
  chained main := by
    refine ⟨[], ⟨by simp, trivial, List.nodup_nil, fun slot => ?_⟩⟩
    simp [homeAt?, entryAt?_sized]

/-- Entries that a table has room for, with different keys of which it holds none. -/
structure Takes (t : Table) (entries : List Entry) : Prop where
  valid : t.Valid
  room : t.count + entries.length ≤ t.size
  distinct : (entries.map fun e => e.key.data).Nodup
  fresh : ∀ e ∈ entries, e.key.data ∉ t.keys
  named : ∀ e ∈ entries, e.key.data ≠ .nil

theorem Takes.place {t : Table} {e : Entry} {rest : List Entry} (takes : t.Takes (e :: rest)) :
    (t.place e.key e.value).Takes rest ∧
      (t.place e.key e.value).bindings.Perm (e.binding :: t.bindings) := by
  obtain ⟨valid, room, distinct, fresh, named⟩ := takes
  have parts := List.nodup_cons.mp distinct
  rw [List.length_cons] at room
  obtain ⟨placed_valid, placed⟩ := place_spec t e.key e.value valid
    (fresh e List.mem_cons_self) (named e List.mem_cons_self) (by omega)
  have count : (t.place e.key e.value).count = t.count + 1 := by
    rw [placed_valid.counted, placed.length_eq, List.length_cons, ← valid.counted]
  have keys : (t.place e.key e.value).keys.Perm (e.key.data :: t.keys) :=
    placed.map fun b : Value × Value => b.1.data
  refine ⟨⟨placed_valid, by rw [size_place, count]; omega, parts.2, fun f member => ?_,
    fun f member => named f (List.mem_cons_of_mem e member)⟩, placed⟩
  rw [keys.mem_iff, List.mem_cons, not_or]
  constructor
  · intro same
    exact parts.1 (List.mem_map.mpr ⟨f, member, same⟩)
  · exact fresh f (List.mem_cons_of_mem e member)

theorem Takes.placeAll {t : Table} {front rest : List Entry} (takes : t.Takes (front ++ rest)) :
    (t.placeAll front).Takes rest ∧
      (t.placeAll front).bindings.Perm (front.map Entry.binding ++ t.bindings) := by
  induction front generalizing t with
  | nil => exact ⟨takes, List.Perm.refl _⟩
  | cons e front ih =>
      obtain ⟨further, placed⟩ := takes.place
      obtain ⟨left, all⟩ := ih further
      refine ⟨left, ?_⟩
      calc
        List.Perm _ (front.map Entry.binding ++ (t.place e.key e.value).bindings) := all
        List.Perm _ (front.map Entry.binding ++ e.binding :: t.bindings) := placed.append_left _
        List.Perm _ ((e :: front).map Entry.binding ++ t.bindings) := List.perm_middle

section

variable {t : Table} (valid : t.Valid)

include valid

theorem Valid.length_entries : t.entries.length = t.count := by
  rw [valid.counted, bindings, List.length_map]

theorem Valid.entries_distinct : (t.entries.map fun e => e.key.data).Nodup := by
  rw [← keys_eq_map]
  exact valid.distinct

theorem Valid.entry_named (e : Entry) (member : e ∈ t.entries) : e.key.data ≠ .nil := by
  intro same
  apply valid.named
  rw [keys_eq_map, ← same]
  exact List.mem_map_of_mem member

theorem Valid.takes_entries (size : Nat) (enough : t.count ≤ size) (small : size ≤ maxSlots) :
    (sized size).Takes t.entries where
  valid := sized_valid size small
  room := by
    rw [size_sized, valid.length_entries]
    simpa [sized] using enough
  distinct := valid.entries_distinct
  fresh := by simp [keys]
  named := valid.entry_named

end

theorem resize_spec (t : Table) (size : Nat) (valid : t.Valid) (enough : t.count ≤ size)
    (small : size ≤ maxSlots) :
    (t.resize size).Valid ∧ (t.resize size).size = size ∧
      (t.resize size).bindings.Perm t.bindings := by
  have placed : t.resize size = (sized size).placeAll t.entries := by
    rw [resize, if_neg (Nat.not_lt.mpr enough)]
  have takes := valid.takes_entries size enough small
  rw [← List.append_nil t.entries] at takes
  obtain ⟨left, all⟩ := takes.placeAll
  rw [bindings_sized, List.append_nil] at all
  rw [placed]
  exact ⟨left.valid, by simp, all⟩

theorem compact_spec (t : Table) (valid : t.Valid) :
    t.compact.Valid ∧ t.compact.size = t.compact.count ∧
      t.compact.bindings.Perm t.bindings := by
  unfold compact
  split
  · rename_i full
    exact ⟨valid, full.symm, List.Perm.refl _⟩
  · obtain ⟨resized, size, bindings⟩ := resize_spec t t.count valid (Nat.le_refl _)
      (Nat.le_trans valid.tidy.count_le_size valid.small)
    refine ⟨resized, ?_, bindings⟩
    rw [size, resized.counted, bindings.length_eq, valid.counted]

theorem compact_compact (t : Table) (valid : t.Valid) : t.compact.compact = t.compact := by
  obtain ⟨_, size, _⟩ := compact_spec t valid
  generalize t.compact = u at size
  rw [compact, if_pos size.symm]

theorem size_grow (t : Table) (valid : t.Valid) (full : t.size ≤ t.count) :
    t.grow.size = max (2 * t.size) 2 := by
  have fits := valid.tidy.count_le_size
  have enough : t.count ≤ max (2 * t.size) 2 := by omega
  rw [grow, if_pos full, resize, if_neg (Nat.not_lt.mpr enough), size_placeAll, size_sized]

theorem grow_spec (t : Table) (valid : t.Valid) (small : t.grow.size ≤ maxSlots) :
    t.grow.Valid ∧ t.grow.count < t.grow.size ∧ t.grow.bindings.Perm t.bindings := by
  by_cases full : t.size ≤ t.count
  · have grown : t.grow = t.resize (max (2 * t.size) 2) := by rw [grow, if_pos full]
    have fits := valid.tidy.count_le_size
    have enough : t.count ≤ max (2 * t.size) 2 := by omega
    rw [size_grow t valid full] at small
    obtain ⟨resized, size, bindings⟩ := resize_spec t _ valid enough small
    rw [grown]
    refine ⟨resized, ?_, bindings⟩
    rw [size, resized.counted, bindings.length_eq, ← valid.counted]
    omega
  · have kept : t.grow = t := by rw [grow, if_neg full]
    rw [kept]
    exact ⟨valid, Nat.lt_of_not_le full, List.Perm.refl _⟩

end StaticImage.Table
