import StaticImage.Proofs.Table.Lookup

namespace StaticImage.Table

theorem Valid.drop {t u : Table} (valid : t.Valid) (gone : Value × Value) (hole : Nat)
    (inside : hole < t.size) (size : u.size = t.size) (count : u.count = t.count - 1)
    (free : u.lastFree = max t.lastFree (hole + 1))
    (bindings : (gone :: u.bindings).Perm t.bindings)
    (kept : ∀ slot, slot ≠ hole → t.entryAt? slot ≠ none → u.entryAt? slot ≠ none)
    (chained : ∀ main, ∃ slots, u.Chain main slots) : u.Valid := by
  have keys : (gone.1.data :: u.keys).Perm t.keys :=
    bindings.map fun b : Value × Value => b.1.data
  have distinct : (gone.1.data :: u.keys).Nodup := keys.nodup_iff.mpr valid.distinct
  have length := bindings.length_eq
  rw [List.length_cons, ← valid.counted] at length
  exact {
    small := by rw [size]; exact valid.small
    counted := by omega
    bounded := by
      rw [size, free]
      exact Nat.max_le.mpr ⟨valid.bounded, inside⟩
    filled := by
      intro slot above below
      rw [free] at above
      rw [size] at below
      exact kept slot (by omega) (valid.filled slot (by omega) below)
    distinct := (List.nodup_cons.mp distinct).2
    named := fun member => valid.named (keys.mem_iff.mp (List.mem_cons_of_mem _ member))
    chained := chained }

/-- Of two slots that follow each other on a chain the second one is emptied, and the first one gets
the entry that is left of the two. -/
def merge (t : Table) (kept gone : Nat) (e : Entry) : Table :=
  (t.setSlot kept (some e)).clear gone

section

variable (t : Table) (kept gone : Nat) (e : Entry)

@[simp]
theorem size_merge : (t.merge kept gone e).size = t.size :=
  (size_setSlot (t.setSlot kept (some e)) gone none).trans (size_setSlot t kept (some e))

variable {main : Nat} {front rest : List Nat}
  (chain : t.Chain main (front ++ kept :: gone :: rest)) (link : e.next = linkTo rest)
  (home : t.mainPosition e.key.data = main)

include chain

theorem merge_slots (slot : Nat) : (t.merge kept gone e).entryAt? slot =
    if slot = gone then none else if slot = kept then some e else t.entryAt? slot := by
  have kept_inside : kept < t.size := chain.lt_size kept (by simp)
  have gone_inside : gone < t.size := chain.lt_size gone (by simp)
  have cleared : (t.merge kept gone e).entryAt? slot =
      if slot = gone then none else (t.setSlot kept (some e)).entryAt? slot :=
    entryAt?_setSlot _ gone slot none (by rwa [size_setSlot])
  rw [cleared, entryAt?_setSlot t kept slot _ kept_inside]

theorem merge_same (slot : Nat) (outside : slot ∉ [gone, kept]) :
    (t.merge kept gone e).entryAt? slot = t.entryAt? slot := by
  simp only [List.mem_cons, List.not_mem_nil, or_false, not_or] at outside
  rw [merge_slots t kept gone e chain, if_neg outside.1, if_neg outside.2]

include home

theorem merge_homes : (t.merge kept gone e).homeAt? gone = none ∧
    (t.merge kept gone e).homeAt? kept = some main := by
  have slots := merge_slots t kept gone e chain
  constructor
  · simp [homeAt?, slots]
  · simp [homeAt?, slots, chain.successive_ne, ← home,
      mainPosition_congr t _ e.key.data (size_merge t kept gone e)]

include link

theorem merge_chain : (t.merge kept gone e).Chain main (front ++ kept :: rest) := by
  have same := merge_same t kept gone e chain
  have apart := chain.successive_ne
  obtain ⟨gone_home, kept_home⟩ := merge_homes t kept gone e chain home
  have parts := List.nodup_append'.mp chain.nodup
  have back := List.nodup_cons.mp parts.2.1
  have gone_rest : gone ∉ rest := (List.nodup_cons.mp back.2).1
  have kept_rest : kept ∉ rest := fun member => back.1 (List.mem_cons_of_mem gone member)
  have gone_front : gone ∉ front := fun member => parts.2.2 member (by simp)
  have kept_front : kept ∉ front := fun member => parts.2.2 member (by simp)
  obtain ⟨_, _, tail⟩ := chain.linked.drop front _
  refine chain.rebuild _ [gone, kept] (size_merge t kept gone e) same ?_ ?_ ?_ ?_ ?_
  · cases front with
    | nil => exact fun slot head => chain.starts slot head
    | cons first front => exact fun slot head => chain.starts slot head
  · refine chain.linked.splice front _ _ kept (fun slot member => same slot ?_)
      ⟨⟨e, ?_, link⟩, tail.frame rest fun slot member => same slot ?_⟩
    · simp only [List.mem_cons, List.not_mem_nil, or_false, not_or]
      exact ⟨fun clash => gone_front (clash ▸ member), fun clash => kept_front (clash ▸ member)⟩
    · rw [merge_slots t kept gone e chain, if_neg apart, if_pos rfl]
    · simp only [List.mem_cons, List.not_mem_nil, or_false, not_or]
      exact ⟨fun clash => gone_rest (clash ▸ member), fun clash => kept_rest (clash ▸ member)⟩
  · exact chain.nodup.sublist
      (((List.sublist_cons_self gone rest).cons_cons kept).append_left front)
  · simp +contextual
  · simp [gone_home, kept_home, gone_front, gone_rest, Ne.symm apart]

theorem merge_valid (valid : t.Valid) (dropped : Value × Value)
    (bindings : (dropped :: (t.merge kept gone e).bindings).Perm t.bindings) :
    (t.merge kept gone e).Valid := by
  have same := merge_same t kept gone e chain
  obtain ⟨gone_home, kept_home⟩ := merge_homes t kept gone e chain home
  have gone_was : t.homeAt? gone = some main := (chain.covers gone).mp (by simp)
  have kept_was : t.homeAt? kept = some main := (chain.covers kept).mp (by simp)
  have shorter := merge_chain t kept gone e chain link home
  have chained := valid.rechain (size_merge t kept gone e) [gone, kept] [main] same
    (by simp [gone_was, kept_was, gone_home, kept_home]) (by simpa using ⟨_, shorter⟩)
  refine valid.drop dropped gone (chain.lt_size gone (by simp)) (size_merge t kept gone e) rfl rfl
    bindings ?_ chained
  intro slot away taken
  rw [merge_slots t kept gone e chain, if_neg away]
  split
  · exact Option.some_ne_none _
  · exact taken

end

section

variable (t : Table) (key : Value) (valid : t.Valid)

include valid

theorem remove_inner (front rest : List Nat) (before slot : Nat) (e : Entry)
    (chain : t.Chain (t.mainPosition key.data) (front ++ before :: slot :: rest))
    (present : t.entryAt? slot = some e)
    (located : t.locate? key.data = some (slot, some before)) :
    (t.remove key).1 = some e.value ∧ (t.remove key).2.Valid ∧
      (e.binding :: (t.remove key).2.bindings).Perm t.bindings := by
  obtain ⟨⟨link, linked, _⟩, ⟨f, found, link_rest⟩, _⟩ := chain.linked.drop front _
  have equal : f = e := Option.some.inj (found.symm.trans present)
  subst equal
  have relink : t.setNext before f.next = t.setSlot before (some { link with next := f.next }) :=
    setNext_eq t before link f.next linked
  have removed : t.remove key =
      (some f.value, t.merge before slot { link with next := f.next }) := by
    simp only [remove, located, present, relink, merge]
  have home : t.mainPosition link.key.data = t.mainPosition key.data := by
    have before_was := (chain.covers before).mp (by simp)
    simpa [homeAt?, linked] using before_was
  have still : (t.setSlot before (some { link with next := f.next })).entryAt? slot = some f := by
    rw [entryAt?_setSlot t before slot _ (entryAt?_lt t before link linked),
      if_neg (Ne.symm chain.successive_ne)]
    exact present
  have bindings :
      (f.binding :: (t.merge before slot { link with next := f.next }).bindings).Perm
        t.bindings := by
    have kept := bindings_setNext t before f.next
    rw [relink] at kept
    exact (bindings_drop _ slot f still).trans kept
  rw [removed]
  exact ⟨rfl, merge_valid t before slot _ chain link_rest home valid f.binding bindings, bindings⟩

theorem remove_lone (slot : Nat) (e : Entry)
    (chain : t.Chain (t.mainPosition key.data) [slot])
    (present : t.entryAt? slot = some e) (located : t.locate? key.data = some (slot, none)) :
    (t.remove key).1 = some e.value ∧ (t.remove key).2.Valid ∧
      (e.binding :: (t.remove key).2.bindings).Perm t.bindings := by
  let main := t.mainPosition key.data
  let u : Table := t.clear slot
  have last : e.isLast = true := by
    obtain ⟨f, found, link⟩ := chain.linked.1
    have equal : f = e := Option.some.inj (found.symm.trans present)
    have ended : e.next = chainEnd := equal ▸ link
    simpa [Entry.isLast] using ended
  have removed : t.remove key = (some e.value, u) := by
    unfold remove
    simp only [located, present, last, if_true]
    rfl
  have inside : slot < t.size := entryAt?_lt t slot e present
  have size : u.size = t.size := size_setSlot t slot none
  have slots (other : Nat) : u.entryAt? other =
      if other = slot then none else t.entryAt? other :=
    entryAt?_setSlot t slot other none inside
  have same (other : Nat) (outside : other ∉ [slot]) : u.entryAt? other = t.entryAt? other := by
    rw [slots, if_neg (by simpa using outside)]
  have was : t.homeAt? slot = some main := (chain.covers slot).mp (by simp)
  have home : u.homeAt? slot = none := by simp [homeAt?, slots]
  have bindings : (e.binding :: u.bindings).Perm t.bindings := bindings_drop t slot e present
  have empty : u.Chain main [] :=
    chain.rebuild [] [slot] size same (by simp) trivial List.nodup_nil (by simp) (by simp [home])
  have chained := valid.rechain size [slot] [main] same (by simp [was, home])
    (by simpa using ⟨_, empty⟩)
  rw [removed]
  refine ⟨rfl, valid.drop e.binding slot inside size rfl rfl bindings ?_ chained, bindings⟩
  intro other away old
  rwa [slots, if_neg away]

theorem remove_first (slot second : Nat) (rest : List Nat) (e : Entry)
    (chain : t.Chain (t.mainPosition key.data) (slot :: second :: rest))
    (present : t.entryAt? slot = some e) (located : t.locate? key.data = some (slot, none)) :
    (t.remove key).1 = some e.value ∧ (t.remove key).2.Valid ∧
      (e.binding :: (t.remove key).2.bindings).Perm t.bindings := by
  have pair : t.Chain (t.mainPosition key.data) ([] ++ slot :: second :: rest) := chain
  obtain ⟨⟨f, found, link⟩, ⟨next, next_present, next_link⟩, _⟩ := chain.linked
  have equal : f = e := Option.some.inj (found.symm.trans present)
  subst equal
  have second_small : second < maxSlots := chain.small valid second (by simp)
  have removed : t.remove key = (some f.value, t.merge slot second next) := by
    have onward : f.isLast = false := by
      simpa [Entry.isLast, link] using linkTo_ne_chainEnd second rest second_small
    have target : f.next.toNat = second := by rw [link, linkTo_toNat second rest second_small]
    unfold remove
    simp only [located, present, onward, target, next_present]
    rfl
  have home : t.mainPosition next.key.data = t.mainPosition key.data := by
    have second_was := (chain.covers second).mp (by simp)
    simpa [homeAt?, next_present] using second_was
  have slot_inside : slot < t.size := entryAt?_lt t slot f present
  have still : (t.setSlot slot (some next)).entryAt? second = some next := by
    rw [entryAt?_setSlot t slot second _ slot_inside, if_neg (Ne.symm pair.successive_ne)]
    exact next_present
  have bindings : (f.binding :: (t.merge slot second next).bindings).Perm t.bindings := by
    have overwritten := bindings_setSlot t slot (some next) slot_inside
    rw [present] at overwritten
    have dropped : (next.binding :: (t.merge slot second next).bindings).Perm
        (t.setSlot slot (some next)).bindings := bindings_drop _ second next still
    have both : (next.binding :: f.binding :: (t.merge slot second next).bindings).Perm
        (next.binding :: t.bindings) :=
      calc
        List.Perm _ (f.binding :: next.binding :: (t.merge slot second next).bindings) :=
          List.Perm.swap _ _ _
        List.Perm _ (f.binding :: (t.setSlot slot (some next)).bindings) := dropped.cons _
        List.Perm _ (next.binding :: t.bindings) := overwritten
    exact both.cons_inv
  rw [removed]
  exact ⟨rfl, merge_valid t slot second next pair next_link home valid f.binding bindings,
    bindings⟩

/-- Removing a key that the table holds drops its binding and keeps the layout. -/
theorem remove_spec (held : key.data ∈ t.keys) :
    ∃ k value, k.data = key.data ∧ (t.remove key).1 = some value ∧ (t.remove key).2.Valid ∧
      ((k, value) :: (t.remove key).2.bindings).Perm t.bindings := by
  obtain ⟨front, slot, rest, e, chain, present, same, located⟩ := locate_found t key.data valid held
  refine ⟨e.key, e.value, same, ?_⟩
  rcases List.eq_nil_or_concat front with rfl | ⟨front, before, rfl⟩
  · cases rest with
    | nil => exact remove_lone t key valid slot e chain present located
    | cons second rest => exact remove_first t key valid slot second rest e chain present located
  · have inner : t.Chain (t.mainPosition key.data) (front ++ before :: slot :: rest) := by
      simpa using chain
    exact remove_inner t key valid front rest before slot e inner present (by simpa using located)

theorem remove_missing (absent : key.data ∉ t.keys) : t.remove key = (none, t) := by
  simp only [remove, locate_missing t key.data valid absent]

end

end StaticImage.Table
