import StaticImage.Proofs.Table.Chains

namespace StaticImage.Table

theorem Valid.binding_unique {t : Table} (valid : t.Valid) (first second : Value × Value)
    (left : first ∈ t.bindings) (right : second ∈ t.bindings)
    (same : first.1.data = second.1.data) : first = second :=
  List.inj_on_of_nodup_map valid.distinct left right same

theorem Valid.chain_through {t : Table} (valid : t.Valid) (slot : Nat) (e : Entry)
    (present : t.entryAt? slot = some e) :
    ∃ front rest, t.Chain (t.mainPosition e.key.data) (front ++ slot :: rest) := by
  obtain ⟨slots, chain⟩ := valid.chained (t.mainPosition e.key.data)
  have member : slot ∈ slots := (chain.covers slot).mpr (by simp [homeAt?, present])
  obtain ⟨front, rest, rfl⟩ := List.append_of_mem member
  exact ⟨front, rest, chain⟩

theorem Chain.small {t : Table} {main : Nat} {slots : List Nat} (chain : t.Chain main slots)
    (valid : t.Valid) (slot : Nat) (member : slot ∈ slots) : slot < maxSlots :=
  Nat.lt_of_lt_of_le (chain.lt_size slot member) valid.small

theorem Chain.head {t : Table} {main : Nat} {front rest : List Nat} {slot : Nat}
    (chain : t.Chain main (front ++ slot :: rest)) : (front ++ [slot]).head? = some main := by
  cases front with
  | nil => exact congrArg some (chain.starts slot rfl)
  | cons first front => exact congrArg some (chain.starts first rfl)

theorem Chain.steps {t : Table} {main : Nat} {front rest : List Nat} {slot : Nat}
    (chain : t.Chain main (front ++ slot :: rest)) : front.length < t.size := by
  have bound := chain.length_le_size
  simp only [List.length_append, List.length_cons] at bound
  omega

theorem locate_missing (t : Table) (key : Datum) (valid : t.Valid) (absent : key ∉ t.keys) :
    t.locate? key = none := by
  have miss : ∀ slot e, t.entryAt? slot = some e → e.key.data ≠ key := fun slot e present same =>
    absent ((mem_keys_iff t key).mpr ⟨slot, e, present, same⟩)
  cases start : t.entryAt? (t.mainPosition key) with
  | none =>
      unfold locate?
      cases t.size with
      | zero => rfl
      | succ steps => simp only [follow, start]
  | some e =>
      -- the walk may start inside the chain of another bucket
      obtain ⟨front, rest, chain⟩ := valid.chain_through _ e start
      exact follow_missing t key rest _ t.size none (chain.linked.drop front _)
        (fun slot member => chain.small valid slot (List.mem_append_right front member)) miss

theorem locate_found (t : Table) (key : Datum) (valid : t.Valid) (held : key ∈ t.keys) :
    ∃ front slot rest e, t.Chain (t.mainPosition key) (front ++ slot :: rest) ∧
      t.entryAt? slot = some e ∧ e.key.data = key ∧
      t.locate? key = some (slot, front.getLast?) := by
  obtain ⟨slot, e, present, same⟩ := (mem_keys_iff t key).mp held
  let holds (slot : Nat) : Bool := (t.entryAt? slot).any fun e => e.key.data = key
  obtain ⟨slots, chain⟩ := valid.chained (t.mainPosition key)
  have member : slot ∈ slots := (chain.covers slot).mpr (by simp [homeAt?, present, same])
  have some_hit : (slots.find? holds).isSome := by
    rw [List.find?_isSome]
    exact ⟨slot, member, by simp [holds, present, same]⟩
  obtain ⟨first, hit⟩ := Option.isSome_iff_exists.mp some_hit
  obtain ⟨holds_first, front, rest, rfl, before⟩ := List.find?_eq_some_iff_append.mp hit
  obtain ⟨f, found, equal⟩ : ∃ f, t.entryAt? first = some f ∧ f.key.data = key := by
    simpa [holds, Option.any_eq_true] using holds_first
  have absent : ∀ other ∈ front, ∀ g, t.entryAt? other = some g → g.key.data ≠ key := by
    intro other inside g there clash
    have miss := before other inside
    simp [holds, there, clash] at miss
  refine ⟨front, first, rest, f, chain, found, equal, ?_⟩
  have walk := follow_found t key front rest (t.mainPosition key) first t.size none f chain.linked
    chain.head (chain.small valid) found equal absent chain.steps
  rw [Option.or_none] at walk
  exact walk

theorem find?_eq_some_iff (t : Table) (key value : Value) (valid : t.Valid) :
    t.find? key = some value ↔ ∃ k, k.data = key.data ∧ (k, value) ∈ t.bindings := by
  by_cases held : key.data ∈ t.keys
  · obtain ⟨front, slot, rest, e, _, present, same, located⟩ := locate_found t key.data valid held
    have stored : (e.key, e.value) ∈ t.bindings :=
      (mem_bindings_iff t e.key e.value).mpr ⟨slot, e, present, rfl⟩
    have result : t.find? key = some e.value := by simp [find?, located, present]
    rw [result]
    constructor
    · intro equal
      cases equal
      exact ⟨e.key, same, stored⟩
    · rintro ⟨k, data, member⟩
      have equal := valid.binding_unique _ _ stored member (same.trans data.symm)
      rw [(Prod.mk.inj equal).2]
  · have result : t.find? key = none := by simp [find?, locate_missing t key.data valid held]
    rw [result]
    constructor
    · intro impossible
      cases impossible
    · rintro ⟨k, data, member⟩
      exact (held (List.mem_map.mpr ⟨_, member, data⟩)).elim

end StaticImage.Table
