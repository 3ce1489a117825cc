import StaticImage.Proofs.Table.Slots

namespace StaticImage.Table

def All (P : Value → Prop) (t : Table) : Prop :=
  ∀ e ∈ t.entries, P e.key ∧ P e.value

variable {P : Value → Prop} {t : Table}

theorem All.entry (all : t.All P) (slot : Nat) (e : Entry) (present : t.entryAt? slot = some e) :
    P e.key ∧ P e.value :=
  all e ((mem_entries_iff t e).mpr ⟨slot, present⟩)

theorem all_sized (size : Nat) : (sized size).All P := by
  intro e member
  obtain ⟨slot, present⟩ := (mem_entries_iff _ e).mp member
  rw [entryAt?_sized] at present
  cases present

theorem entryAt?_setSlot_cases (slot other : Nat) (e : Option Entry) :
    (t.setSlot slot e).entryAt? other = e ∨
      (t.setSlot slot e).entryAt? other = t.entryAt? other := by
  by_cases inside : slot < t.size
  · rw [entryAt?_setSlot t slot other e inside]
    split
    · exact Or.inl rfl
    · exact Or.inr rfl
  · exact Or.inr (by rw [setSlot_outside t slot e (Nat.le_of_not_lt inside)])

theorem All.setSlot (all : t.All P) (slot : Nat) (e : Option Entry)
    (new : ∀ f, e = some f → P f.key ∧ P f.value) : (t.setSlot slot e).All P := by
  intro f member
  obtain ⟨other, present⟩ := (mem_entries_iff _ f).mp member
  rcases entryAt?_setSlot_cases slot other e with written | kept
  · exact new f (written.symm.trans present)
  · exact all.entry other f (kept.symm.trans present)

theorem All.setNext (all : t.All P) (slot : Nat) (next : UInt32) : (t.setNext slot next).All P := by
  unfold Table.setNext
  split
  · exact all
  · rename_i e present
    refine all.setSlot slot _ fun f written => ?_
    cases written
    exact all.entry slot e present

theorem All.place (all : t.All P) (key value : Value) (new : P key ∧ P value) :
    (t.place key value).All P := by
  -- the counters are no part of the contents
  have reserved (count lastFree : Nat) : (⟨t.slots, count, lastFree⟩ : Table).All P := all
  have written (link : UInt32) (f : Entry) (same : some ⟨key, value, link⟩ = some f) :
      P f.key ∧ P f.value := by
    cases same
    exact new
  unfold Table.place
  simp only
  split
  · exact all.setSlot _ _ (written chainEnd)
  · rename_i occupant taken
    split
    · exact all
    · rename_i free found
      split
      · exact ((reserved _ _).setSlot free _ (written occupant.next)).setNext _ _
      · refine (((reserved _ _).setNext _ _).setSlot free _ ?_).setSlot _ _ (written chainEnd)
        intro f same
        cases same
        exact all.entry _ occupant taken

theorem All.placeAll (entries : List Entry) (all : t.All P)
    (new : ∀ e ∈ entries, P e.key ∧ P e.value) : (t.placeAll entries).All P := by
  induction entries generalizing t with
  | nil => exact all
  | cons e rest ih =>
      exact ih (all.place e.key e.value (new e List.mem_cons_self))
        fun f member => new f (List.mem_cons_of_mem e member)

theorem All.resize (all : t.All P) (size : Nat) : (t.resize size).All P := by
  unfold Table.resize
  split
  · exact all
  · exact (all_sized size).placeAll t.entries all

theorem All.compact (all : t.All P) : t.compact.All P := by
  unfold Table.compact
  split
  · exact all
  · exact all.resize t.count

theorem All.grow (all : t.All P) : t.grow.All P := by
  unfold Table.grow
  split
  · exact all.resize _
  · exact all

theorem All.insert {u : Table} {old : Option Value} (all : t.All P) (key value : Value)
    (new : P key ∧ P value) (inserted : t.insert key value = .ok (old, u)) : u.All P := by
  unfold Table.insert at inserted
  split at inserted
  · cases inserted
  · split at inserted
    · rename_i slot before located
      split at inserted
      · rename_i e present
        cases inserted
        refine all.setSlot slot _ fun f written => ?_
        cases written
        exact ⟨(all.entry slot e present).1, new.2⟩
      · cases inserted
        exact all
    · cases inserted
      exact all.grow.place key value new

def insertAll (t : Table) (bindings : List (Value × Value)) : Except TableError Table :=
  bindings.foldlM (fun t e => (t.insert e.1 e.2).map Prod.snd) t

theorem insertAll_cons (t u : Table) (key value : Value) (bindings : List (Value × Value)) :
    t.insertAll ((key, value) :: bindings) = .ok u ↔
      ∃ old next, t.insert key value = .ok (old, next) ∧ next.insertAll bindings = .ok u := by
  rw [insertAll, List.foldlM_cons]
  cases inserted : t.insert key value with
  | error why =>
      constructor
      · rintro ⟨⟩
      · rintro ⟨_, _, ⟨⟩, _⟩
  | ok outcome =>
      constructor
      · exact fun rest => ⟨outcome.1, outcome.2, rfl, rest⟩
      · rintro ⟨_, _, ⟨rfl⟩, rest⟩
        exact rest

theorem All.insertAll {u : Table} (all : t.All P) (bindings : List (Value × Value))
    (new : ∀ e ∈ bindings, P e.1 ∧ P e.2) (made : t.insertAll bindings = .ok u) : u.All P := by
  induction bindings generalizing t with
  | nil =>
      cases made
      exact all
  | cons e bindings ih =>
      obtain ⟨old, next, inserted, rest⟩ := (insertAll_cons t u e.1 e.2 bindings).mp made
      exact ih (all.insert e.1 e.2 (new e List.mem_cons_self) inserted)
        (fun f member => new f (List.mem_cons_of_mem e member)) rest

end StaticImage.Table
