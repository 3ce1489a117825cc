import StaticImage.Proofs.Table.Coherence
import StaticImage.Proofs.Table.Counting

/-!
How far links reach. A link has 32 bits, and one number among them marks the end of a chain. Up to that
number of slots every link that is stored leads where it should; in tables with more a link to the slot
of that number is taken for the end, and insertions lead there from tables of every size.
-/

namespace StaticImage

/-- The entry is not the last one of its chain, and its link is printed as the slot. -/
def Entry.LeadsTo (e : Entry) (slot : Nat) : Prop :=
  e.isLast = false ∧ e.link = slot

theorem Entry.leadsTo_iff {e : Entry} {slot : Nat} (next : e.next = UInt32.ofNat slot) :
    e.LeadsTo slot ↔ slot < 2 ^ 32 ∧ slot ≠ Table.maxSlots := by
  have number : e.next.toNat = slot % 2 ^ 32 := by rw [next, UInt32.toNat_ofNat']
  have last : e.isLast = true ↔ slot % 2 ^ 32 = Table.maxSlots := by
    rw [isLast, decide_eq_true_iff, ← UInt32.toNat_inj, number]
    rfl
  have bound : Table.maxSlots < 2 ^ 32 := by decide
  unfold LeadsTo link
  cases ends : e.isLast with
  | true =>
      have marked := last.mp ends
      simp only [Bool.true_eq_false, false_and, false_iff, not_and, not_not]
      intro small
      rw [← marked, Nat.mod_eq_of_lt small]
  | false =>
      have other : slot % 2 ^ 32 ≠ Table.maxSlots := fun marked => by
        rw [last.mpr marked] at ends
        cases ends
      simp only [Bool.false_eq_true, if_false, number, true_and, Nat.cast_inj]
      omega

namespace Table

/-- Placing a key makes the entry of one slot link to another slot: the first one of its bucket to the
key itself, or the one before an entry that moves out to where that goes. -/
inductive Links (t : Table) (key : Datum) : (source target : Nat) → Prop where
  | behind (occupant : Entry) (free : Nat)
      (taken : t.entryAt? (t.mainPosition key) = some occupant)
      (found : t.freeBelow t.lastFree = some free)
      (own : t.mainPosition occupant.key.data = t.mainPosition key) :
      Links t key (t.mainPosition key) free
  | before (occupant e : Entry) (free slot : Nat)
      (taken : t.entryAt? (t.mainPosition key) = some occupant)
      (found : t.freeBelow t.lastFree = some free)
      (foreign : t.mainPosition occupant.key.data ≠ t.mainPosition key)
      (searched : (t.reserve free).predecessor (t.mainPosition key) t.size
        (t.mainPosition occupant.key.data) = slot)
      (present : t.entryAt? slot = some e) : Links t key slot free

theorem entryAt?_setSlot_other (t : Table) {slot other : Nat} (e : Option Entry)
    (apart : other ≠ slot) : (t.setSlot slot e).entryAt? other = t.entryAt? other := by
  by_cases inside : slot < t.size
  · rw [entryAt?_setSlot t slot other e inside, if_neg apart]
  · rw [setSlot_outside t slot e (Nat.le_of_not_lt inside)]

theorem entryAt?_setNext_self (t : Table) {slot : Nat} {e : Entry} (next : UInt32)
    (present : t.entryAt? slot = some e) :
    (t.setNext slot next).entryAt? slot = some { e with next := next } := by
  rw [setNext_eq t slot e next present, entryAt?_setSlot t slot slot _ (entryAt?_lt t slot e present),
    if_pos rfl]

theorem entryAt?_setNext_other (t : Table) {slot other : Nat} (next : UInt32)
    (apart : other ≠ slot) : (t.setNext slot next).entryAt? other = t.entryAt? other := by
  unfold setNext
  split
  · rfl
  · exact entryAt?_setSlot_other t _ apart

theorem predecessor_ne (t : Table) (target steps : Nat) {slot : Nat} (apart : slot ≠ target) :
    t.predecessor target steps slot ≠ target := by
  induction steps generalizing slot with
  | zero => exact apart
  | succ steps ih =>
      unfold predecessor
      split
      · exact apart
      · split
        · exact apart
        · rename_i onward
          exact ih onward

section

variable {t : Table} {key value : Value}

theorem Links.stored {source target : Nat} (links : t.Links key.data source target)
    (value : Value) :
    ∃ e, t.entryAt? source = some e ∧
      (t.place key value).entryAt? source = some { e with next := UInt32.ofNat target } := by
  cases links with
  | behind occupant free taken found own =>
      obtain ⟨_, vacant, _⟩ := freeBelow_some t t.lastFree _ found
      have apart : t.mainPosition key.data ≠ target := by
        intro same
        rw [same, vacant] at taken
        cases taken
      rw [place_collision t key value target occupant taken found, if_pos own]
      have kept : ((t.reserve target).setSlot target (some ⟨key, value, occupant.next⟩)).entryAt?
          (t.mainPosition key.data) = some occupant := by
        rw [entryAt?_setSlot_other _ _ apart]
        exact taken
      exact ⟨occupant, taken, entryAt?_setNext_self _ _ kept⟩
  | before occupant e free slot taken found foreign searched present =>
      obtain ⟨_, vacant, _⟩ := freeBelow_some t t.lastFree _ found
      have not_free : source ≠ target := by
        intro same
        rw [same, vacant] at present
        cases present
      have not_main : source ≠ t.mainPosition key.data :=
        searched ▸ predecessor_ne (t.reserve target) _ t.size foreign
      rw [place_collision t key value target occupant taken found, if_neg foreign, searched,
        entryAt?_setSlot_other _ _ not_main, entryAt?_setSlot_other _ _ not_free]
      exact ⟨e, present, entryAt?_setNext_self (t.reserve target) _ present⟩

theorem links_behind {free slot : Nat} {occupant e : Entry}
    (taken : t.entryAt? (t.mainPosition key.data) = some occupant)
    (found : t.freeBelow t.lastFree = some free)
    (own : t.mainPosition occupant.key.data = t.mainPosition key.data)
    (present : (((t.reserve free).setSlot free (some ⟨key, value, occupant.next⟩)).setNext
      (t.mainPosition key.data) (UInt32.ofNat free)).entryAt? slot = some e) :
    (t.Links key.data slot free ∧ e.next = UInt32.ofNat free) ∨
      ∃ other f, t.entryAt? other = some f ∧ f.next = e.next := by
  by_cases first : slot = t.mainPosition key.data
  · subst first
    have links := Links.behind occupant free taken found own
    obtain ⟨f, _, stored⟩ := links.stored value
    rw [place_collision t key value free occupant taken found, if_pos own, present] at stored
    cases stored
    exact Or.inl ⟨links, rfl⟩
  · rw [entryAt?_setNext_other _ _ first] at present
    rcases entryAt?_setSlot_cases (t := t.reserve free) free slot
      (some ⟨key, value, occupant.next⟩) with written | kept
    · rw [written] at present
      cases present
      exact Or.inr ⟨_, occupant, taken, rfl⟩
    · rw [kept] at present
      exact Or.inr ⟨slot, e, present, rfl⟩

theorem links_before {free before slot : Nat} {occupant e : Entry}
    (taken : t.entryAt? (t.mainPosition key.data) = some occupant)
    (found : t.freeBelow t.lastFree = some free)
    (foreign : t.mainPosition occupant.key.data ≠ t.mainPosition key.data)
    (searched : (t.reserve free).predecessor (t.mainPosition key.data) t.size
      (t.mainPosition occupant.key.data) = before)
    (present : ((((t.reserve free).setNext before (UInt32.ofNat free)).setSlot free
      (some occupant)).setSlot (t.mainPosition key.data)
        (some ⟨key, value, chainEnd⟩)).entryAt? slot = some e) :
    (t.Links key.data slot free ∧ e.next = UInt32.ofNat free) ∨ e.next = chainEnd ∨
      ∃ other f, t.entryAt? other = some f ∧ f.next = e.next := by
  rcases entryAt?_setSlot_cases (t.mainPosition key.data) slot (some ⟨key, value, chainEnd⟩)
    with written | kept
  · rw [written] at present
    cases present
    exact Or.inr (Or.inl rfl)
  rw [kept] at present
  rcases entryAt?_setSlot_cases free slot (some occupant) with written | kept
  · rw [written] at present
    cases present
    exact Or.inr (Or.inr ⟨_, occupant, taken, rfl⟩)
  rw [kept] at present
  by_cases here : slot = before
  · subst here
    cases was : t.entryAt? slot with
    | none =>
        rw [(setNext_taken (t.reserve free) slot slot _).mpr was] at present
        cases present
    | some f =>
        rw [entryAt?_setNext_self (t.reserve free) _ was] at present
        cases present
        exact Or.inl ⟨.before occupant f free slot taken found foreign searched was, rfl⟩
  · rw [entryAt?_setNext_other _ _ here] at present
    exact Or.inr (Or.inr ⟨slot, e, present, rfl⟩)

/-- Placing a key stores no other links but ends of chains and links that were there before. -/
theorem place_links (slot : Nat) (e : Entry)
    (present : (t.place key value).entryAt? slot = some e) :
    (∃ target, t.Links key.data slot target ∧ e.next = UInt32.ofNat target) ∨
      e.next = chainEnd ∨ ∃ other f, t.entryAt? other = some f ∧ f.next = e.next := by
  cases taken : t.entryAt? (t.mainPosition key.data) with
  | none =>
      have placed : (t.place key value).entryAt? slot =
          (t.setSlot (t.mainPosition key.data) (some ⟨key, value, chainEnd⟩)).entryAt? slot := by
        simp only [place, taken]
        rfl
      rw [placed] at present
      rcases entryAt?_setSlot_cases (t := t) (t.mainPosition key.data) slot
        (some ⟨key, value, chainEnd⟩) with written | kept
      · rw [written] at present
        cases present
        exact Or.inr (Or.inl rfl)
      · rw [kept] at present
        exact Or.inr (Or.inr ⟨slot, e, present, rfl⟩)
  | some occupant =>
      cases found : t.freeBelow t.lastFree with
      | none =>
          have placed : (t.place key value).entryAt? slot = t.entryAt? slot := by
            simp only [place, taken, found]
            rfl
          rw [placed] at present
          exact Or.inr (Or.inr ⟨slot, e, present, rfl⟩)
      | some free =>
          rw [place_collision t key value free occupant taken found] at present
          split at present
          · rename_i own
            rcases links_behind taken found own present with stored | old
            · exact Or.inl ⟨free, stored⟩
            · exact Or.inr (Or.inr old)
          · rename_i foreign
            rcases links_before taken found foreign rfl present with stored | old
            · exact Or.inl ⟨free, stored⟩
            · exact Or.inr old

end

def filled (size : Nat) (bindings : List (Value × Value)) : Table :=
  made size (bindings.map fun b => .insert b.1 b.2)

theorem filled_tidy (size : Nat) (bindings : List (Value × Value)) : (filled size bindings).Tidy := by
  induction bindings with
  | nil => exact tidy_sized size
  | cons b bindings ih =>
      change ((filled size bindings).apply (.insert b.1 b.2)).Tidy
      cases inserted : (filled size bindings).insert b.1 b.2 with
      | error _ => simpa only [apply, inserted] using ih
      | ok outcome =>
          rw [apply_insert _ outcome.2 b.1 b.2 outcome.1 inserted]
          exact (ih.insert inserted).1

theorem Places.tidy {t u : Table} {key value : Value} {placed : Datum} (tidy : t.Tidy)
    (places : t.Places (.insert key value) u placed) : u.Tidy := by
  cases places with
  | added _ _ accepted absent => exact tidy.grow.1
  | grown _ _ front e rest accepted absent full split =>
      have count : t.count = t.entries.length := by
        rw [tidy.counted, bindings, List.length_map]
      have length := congrArg List.length split
      rw [List.length_append] at length
      have fits := tidy.count_le_size
      refine ((tidy_sized _).placeAll front ?_).1
      rw [size_sized]
      change 0 + front.length ≤ _
      omega

theorem Links.inside {t : Table} {key : Datum} {source target : Nat} (tidy : t.Tidy)
    (links : t.Links key source target) : target < t.size := by
  have found : t.freeBelow t.lastFree = some target := by
    cases links with
    | behind occupant free taken found own => exact found
    | before occupant e free slot taken found foreign searched present => exact found
  exact Nat.lt_of_lt_of_le (freeBelow_some t t.lastFree target found).1 tidy.bounded

/-- All keys have the same hash: the first one stands in the first slot, and the others fill the table
from its top. -/
structure Piled (t : Table) (count : Nat) : Prop where
  alike : t.All fun v => v.data.hash = 0
  taken : ∀ slot < t.size, t.entryAt? slot ≠ none ↔ (slot = 0 ∧ 0 < count) ∨ t.size < slot + count
  counted : t.count = count
  bounded : count ≤ t.size
  lastFree : t.lastFree = t.size - (count - 1)

namespace Piled

variable {t : Table} {count : Nat}

theorem sized (size : Nat) : (sized size).Piled 0 where
  alike := all_sized size
  taken slot inside := by
    rw [size_sized] at inside
    rw [entryAt?_sized, size_sized]
    simp only [ne_eq, not_true_eq_false, false_iff]
    omega
  counted := rfl
  bounded := Nat.zero_le _
  lastFree := (size_sized size).symm

theorem mainPosition_of_hash {key : Datum} (hash : key.hash = 0) : t.mainPosition key = 0 := by
  rw [mainPosition, hash]
  exact Nat.zero_mod _

variable (piled : t.Piled count)

include piled

theorem collides (some_key : 0 < count) (room : count < t.size) :
    ∃ occupant, t.entryAt? 0 = some occupant ∧ occupant.key.data.hash = 0 ∧
      t.freeBelow t.lastFree = some (t.size - count) := by
  have first : t.entryAt? 0 ≠ none := (piled.taken 0 (by omega)).mpr (Or.inl ⟨rfl, some_key⟩)
  obtain ⟨occupant, present⟩ := Option.ne_none_iff_exists'.mp first
  have vacant : t.entryAt? (t.size - count) = none := by
    by_contra taken
    have place := (piled.taken _ (by omega)).mp taken
    omega
  have bound : t.lastFree = t.size - count + 1 := by
    rw [piled.lastFree]
    omega
  refine ⟨occupant, present, (piled.alike.entry 0 occupant present).1, ?_⟩
  rw [bound, freeBelow, vacant]
  rfl

variable {key value : Value} (hash : key.data.hash = 0)

include hash

theorem links (some_key : 0 < count) (room : count < t.size) :
    t.Links key.data 0 (t.size - count) := by
  obtain ⟨occupant, present, same, found⟩ := piled.collides some_key room
  have main := mainPosition_of_hash (t := t) hash
  have links : t.Links key.data _ _ := .behind occupant _ (main ▸ present) found
    ((mainPosition_of_hash same).trans main.symm)
  rwa [main] at links

theorem place (other : value.data.hash = 0) (room : count < t.size) :
    (t.place key value).Piled (count + 1) := by
  have main := mainPosition_of_hash (t := t) hash
  have alike := piled.alike.place key value ⟨hash, other⟩
  have size := size_place t key value
  by_cases some_key : 0 < count
  · obtain ⟨occupant, present, same, found⟩ := piled.collides some_key room
    have placed := place_collision t key value _ occupant (main ▸ present) found
    rw [if_pos ((mainPosition_of_hash same).trans main.symm)] at placed
    refine ⟨alike, fun slot inside => ?_, ?_, by omega, ?_⟩
    · rw [size] at inside ⊢
      rw [placed, ne_eq, setNext_taken, entryAt?_setSlot (t.reserve _) _ _ _ (by simp; omega)]
      have before := piled.taken slot inside
      split
      · simp only [reduceCtorEq, not_false_eq_true, true_iff]
        omega
      · rw [entryAt?_reserve, ← ne_eq, before]
        omega
    · rw [placed, count_setNext]
      exact congrArg (· + 1) piled.counted
    · rw [placed, lastFree_setNext, ← placed, size]
      change t.size - count = _
      omega
  · have vacant : t.entryAt? 0 = none := by
      by_contra taken
      have place := (piled.taken 0 (by omega)).mp taken
      omega
    have placed : t.place key value =
        { t.setSlot 0 (some ⟨key, value, chainEnd⟩) with count := t.count + 1 } := by
      simp only [Table.place, main, vacant]
    have slots (slot : Nat) : (t.place key value).entryAt? slot =
        if slot = 0 then some ⟨key, value, chainEnd⟩ else t.entryAt? slot := by
      rw [placed, ← entryAt?_setSlot t 0 slot _ (by omega)]
      rfl
    refine ⟨alike, fun slot inside => ?_, ?_, by omega, ?_⟩
    · rw [size] at inside ⊢
      rw [slots]
      have before := piled.taken slot inside
      split
      · simp only [ne_eq, reduceCtorEq, not_false_eq_true, true_iff]
        omega
      · rw [before]
        omega
    · rw [placed]
      exact congrArg (· + 1) piled.counted
    · rw [size, placed]
      change t.lastFree = _
      rw [piled.lastFree]
      omega

omit hash in
theorem placeAll (entries : List Entry)
    (alike : ∀ e ∈ entries, e.key.data.hash = 0 ∧ e.value.data.hash = 0)
    (room : count + entries.length ≤ t.size) :
    (t.placeAll entries).Piled (count + entries.length) := by
  induction entries generalizing t count with
  | nil => exact piled
  | cons e rest ih =>
      rw [List.length_cons] at room ⊢
      obtain ⟨hash, other⟩ := alike e List.mem_cons_self
      have placed := piled.place hash other (by omega)
      have all := ih placed (fun f member => alike f (List.mem_cons_of_mem e member))
        (by rw [size_place]; omega)
      rwa [Nat.add_right_comm] at all

omit hash in
theorem replaced (size : Nat) {front rest : List Entry} (split : t.entries = front ++ rest)
    (room : front.length ≤ size) : ((Table.sized size).placeAll front).Piled front.length := by
  have all := (sized size).placeAll front (fun e member => ?_) (by rw [size_sized]; omega)
  · rwa [Nat.zero_add] at all
  · exact piled.alike e (split ▸ List.mem_append_left rest member)

omit hash in
theorem length_entries (tidy : t.Tidy) : t.entries.length = count := by
  rw [← piled.counted, tidy.counted, bindings, List.length_map]

omit hash in
theorem size_grow : t.grow.size = if t.size ≤ count then max (2 * t.size) 2 else t.size := by
  have bounded := piled.bounded
  rw [grow, piled.counted]
  split
  · rw [resize, piled.counted, if_neg (by omega), size_placeAll, size_sized]
  · rfl

omit hash in
theorem grow (tidy : t.Tidy) : t.grow.Piled count ∧ count < t.grow.size := by
  have size := piled.size_grow
  have bounded := piled.bounded
  by_cases full : t.size ≤ count
  · rw [if_pos full] at size
    refine ⟨?_, by omega⟩
    have all := piled.replaced (max (2 * t.size) 2) (List.append_nil t.entries).symm
      (by rw [piled.length_entries tidy]; omega)
    rw [piled.length_entries tidy] at all
    rwa [Table.grow, piled.counted, if_pos full, resize, piled.counted, if_neg (by omega)]
  · rw [Table.grow, piled.counted, if_neg full]
    exact ⟨piled, Nat.lt_of_not_le full⟩

end Piled

def multiple (n : Nat) : Value :=
  .plain (.int (n * 2 ^ 32))

def multiples : Nat → List (Value × Value)
  | 0 => []
  | n + 1 => (multiple n, multiple n) :: multiples n

theorem hash_multiple (n : Nat) : (multiple n).data.hash = 0 := by
  change UInt32.ofNat ((n * 2 ^ 32 : Int) % UInt32.size).toNat = 0
  have exact : ((n * 2 ^ 32 : Int) % UInt32.size) = 0 := Int.mul_emod_left (n : Int) (2 ^ 32)
  rw [exact]
  rfl

theorem multiple_injective {n m : Nat} (same : (multiple n).data = (multiple m).data) : n = m := by
  have numbers : (n * 2 ^ 32 : Int) = m * 2 ^ 32 := Datum.int.inj same
  omega

section

variable (size : Nat)

theorem locate_multiple {t : Table} {count : Nat}
    (held : t.All fun v => ∃ n < count, v = multiple n) :
    t.locate? (multiple count).data = none := by
  cases located : t.locate? (multiple count).data with
  | none => rfl
  | some found =>
      obtain ⟨e, present, same⟩ := follow_hit t _ _ _ found.1 _ found.2 located
      obtain ⟨n, below, key⟩ := (held.entry _ e present).1
      rw [key] at same
      have equal := multiple_injective same
      omega

theorem insert_multiple {t : Table} {count : Nat}
    (held : t.All fun v => ∃ n < count, v = multiple n) :
    t.apply (.insert (multiple count) (multiple count)) =
      t.grow.place (multiple count) (multiple count) := by
  refine apply_insert _ _ _ _ none ?_
  rw [insert, locate_multiple held]
  rfl

theorem multiples_pile (count : Nat) : (filled size (multiples count)).Piled count ∧
    (filled size (multiples count)).All fun v => ∃ n < count, v = multiple n := by
  induction count with
  | zero => exact ⟨.sized size, all_sized size⟩
  | succ count ih =>
      obtain ⟨piled, held⟩ := ih
      obtain ⟨grown, room⟩ := piled.grow (filled_tidy size _)
      have next : filled size (multiples (count + 1)) =
          (filled size (multiples count)).grow.place (multiple count) (multiple count) :=
        insert_multiple held
      rw [next]
      refine ⟨grown.place (hash_multiple count) (hash_multiple count) room, ?_⟩
      refine All.place (fun e member => ?_) _ _ ⟨⟨count, by omega, rfl⟩, ⟨count, by omega, rfl⟩⟩
      obtain ⟨⟨n, below, key⟩, ⟨m, lower, value⟩⟩ := held.grow e member
      exact ⟨⟨n, by omega, key⟩, ⟨m, by omega, value⟩⟩

theorem size_multiples (count : Nat) : (filled size (multiples (count + 1))).size =
    (filled size (multiples count)).grow.size := by
  have next : filled size (multiples (count + 1)) =
      (filled size (multiples count)).grow.place (multiple count) (multiple count) :=
    insert_multiple (multiples_pile size count).2
  rw [next, size_place]

theorem size_multiples_of_le (count : Nat) (room : count ≤ size) :
    (filled size (multiples count)).size = size := by
  induction count with
  | zero => exact size_sized size
  | succ count ih =>
      have before := ih (by omega)
      rw [size_multiples, (multiples_pile size count).1.size_grow, before, if_neg (by omega)]

theorem exists_split {α : Type} (xs : List α) (n : Nat) (inside : n < xs.length) :
    ∃ front x rest, xs = front ++ x :: rest ∧ front.length = n := by
  refine ⟨xs.take n, xs[n], xs.drop (n + 1), ?_, List.length_take_of_le (Nat.le_of_lt inside)⟩
  rw [← List.drop_eq_getElem_cons inside, List.take_append_drop]

theorem exists_link_to_mark : ∃ count u k,
    (filled size (multiples count)).Places (.insert (multiple count) (multiple count)) u
      (Value.data k) ∧ u.Links k.data 0 maxSlots := by
  have added (count : Nat) (some_key : 0 < count)
      (reach : (filled size (multiples count)).grow.size = count + maxSlots) :
      ∃ count u k, (filled size (multiples count)).Places
        (.insert (multiple count) (multiple count)) u (Value.data k) ∧
          u.Links k.data 0 maxSlots := by
    obtain ⟨piled, held⟩ := multiples_pile size count
    obtain ⟨grown, room⟩ := piled.grow (filled_tidy size _)
    refine ⟨count, _, multiple count, .added _ _ rfl (locate_multiple held), ?_⟩
    have links := grown.links (hash_multiple count) some_key room
    rwa [reach, Nat.add_sub_cancel_left] at links
  -- the first key that is placed in a table with slots past the mark
  have crossed : ∃ count, maxSlots < (filled size (multiples count)).grow.size :=
    ⟨maxSlots, ((multiples_pile size maxSlots).1.grow (filled_tidy size _)).2⟩
  obtain ⟨past, least⟩ : maxSlots < _ ∧ ∀ earlier < Nat.find crossed, _ :=
    ⟨Nat.find_spec crossed, fun earlier before => Nat.not_lt.mp (Nat.find_min crossed before)⟩
  generalize Nat.find crossed = count at past least
  obtain ⟨piled, held⟩ := multiples_pile size count
  have grown := piled.size_grow
  have mark : maxSlots = 0xFFFFFF := rfl
  by_cases small : (filled size (multiples count)).size ≤ maxSlots
  · have bounded := piled.bounded
    have full : (filled size (multiples count)).size = count := by
      by_contra room
      rw [if_neg (by omega)] at grown
      omega
    rw [if_pos (by omega), full] at grown
    by_cases all : count = maxSlots
    · exact added count (by omega) (by omega)
    -- otherwise the slot is reached while the table grows
    · have length := piled.length_entries (filled_tidy size _)
      obtain ⟨front, e, rest, split, before⟩ :=
        exists_split (filled size (multiples count)).entries (2 * count - maxSlots) (by omega)
      have again := piled.replaced (max (2 * count) 2) split (by omega)
      have hash : e.key.data.hash = 0 :=
        (piled.alike e (split ▸ List.mem_append_right front List.mem_cons_self)).1
      have links := again.links hash (by omega) (by rw [size_placeAll, size_sized]; omega)
      have target : max (2 * count) 2 - front.length = maxSlots := by omega
      rw [size_placeAll, size_sized, target] at links
      refine ⟨count, _, e.key, .grown _ _ front e rest rfl (locate_multiple held) ?_ split, ?_⟩
      · rw [full, piled.counted]
      · rw [full]
        exact links
  -- the table has slots past the mark from the start
  · have first : count = 0 := by
      cases count with
      | zero => rfl
      | succ earlier =>
          rw [size_multiples] at small
          exact (small (least earlier (Nat.lt_succ_self earlier))).elim
    rw [first, size_multiples_of_le size 0 (Nat.zero_le size)] at small
    have reach := (multiples_pile size (size - maxSlots)).1.size_grow
    rw [size_multiples_of_le size _ (Nat.sub_le size maxSlots), if_neg (by omega)] at reach
    exact added (size - maxSlots) (by omega) (by omega)

end

/-- Where the first entry of a bucket is taken for the last one, no other key of the bucket is found. -/
theorem locate?_behind_last {t : Table} {key : Datum} {e : Entry}
    (present : t.entryAt? (t.mainPosition key) = some e) (other : e.key.data ≠ key)
    (last : e.isLast = true) : t.locate? key = none := by
  unfold locate?
  cases t.size with
  | zero => rfl
  | succ steps => rw [follow_step t _ steps _ none e present, if_neg other, if_pos last]

theorem Entry.last_of_next {e : Entry} (next : e.next = UInt32.ofNat maxSlots) :
    e.isLast = true ∧ e.link = -1 := by
  have last : e.isLast = true := by
    rw [Entry.isLast, next]
    rfl
  exact ⟨last, if_pos last⟩

/-- Wherever insertions place a key, a link that is stored leads to a slot of the table; it is told from
the end of a chain and printed as that slot exactly if the slot has a number of 32 bits that is not the
mark of the end, so always in a table with no more slots than that. All other links are ends of chains or
were there before. But from tables of every size insertions lead to one where the link to a slot is the
mark. -/
theorem links_are_kept_up_to_the_mark (size : Nat) :
    (∀ bindings key value u k new source target,
      (filled size bindings).Places (.insert key value) u (Value.data k) →
        u.Links k.data source target →
          target < u.size ∧ ∃ e, (u.place k new).entryAt? source = some e ∧
            (e.LeadsTo target ↔ target < 2 ^ 32 ∧ target ≠ maxSlots) ∧
            (u.size ≤ maxSlots → e.LeadsTo target)) ∧
    (∀ bindings key value u k new slot e,
      (filled size bindings).Places (.insert key value) u (Value.data k) →
        (u.place k new).entryAt? slot = some e →
          (∃ target, u.Links k.data slot target ∧ e.next = UInt32.ofNat target) ∨
            e.next = chainEnd ∨ ∃ other f, u.entryAt? other = some f ∧ f.next = e.next) ∧
    ∃ bindings key value u k source,
      (filled size bindings).Places (.insert key value) u (Value.data k) ∧
        u.Links k.data source maxSlots ∧
          ∀ new, ∃ e, (u.place k new).entryAt? source = some e ∧ e.isLast = true ∧ e.link = -1 := by
  refine ⟨?_, ?_, ?_⟩
  · intro bindings key value u k new source target places links
    have inside := links.inside (places.tidy (filled_tidy size bindings))
    obtain ⟨e, _, stored⟩ := links.stored new
    have kept := Entry.leadsTo_iff (e := { e with next := UInt32.ofNat target }) rfl
    refine ⟨inside, _, stored, kept, fun small => kept.mpr ⟨?_, ?_⟩⟩
    · exact Nat.lt_trans (Nat.lt_of_lt_of_le inside small) (by decide)
    · exact Nat.ne_of_lt (Nat.lt_of_lt_of_le inside small)
  · intro bindings key value u k new slot e _ present
    exact place_links slot e present
  · obtain ⟨count, u, k, places, links⟩ := exists_link_to_mark size
    refine ⟨_, _, _, u, k, 0, places, links, fun new => ?_⟩
    obtain ⟨e, _, stored⟩ := links.stored new
    exact ⟨_, stored, Entry.last_of_next rfl⟩

/-- A key that comes where one of another bucket stands, which moves out to a slot that the first key
links to. -/
theorem moved_entry_is_linked :
    let b := [(.plain (.int 4), .plain .nil), (.plain (.int 0), .plain .nil)]
    (filled 4 b).Places (.insert (.plain (.int 3)) (.plain .nil)) (filled 4 b).grow (.int 3) ∧
      (filled 4 b).grow.Links (.int 3) 0 2 ∧
      ∃ e, ((filled 4 b).grow.place (.plain (.int 3)) (.plain .nil)).entryAt? 0 = some e ∧
        e.LeadsTo 2 := by
  intro b
  have places : (filled 4 b).Places (.insert (.plain (.int 3)) (.plain .nil)) (filled 4 b).grow
      (.int 3) := .added _ _ rfl (by decide)
  have links : (filled 4 b).grow.Links (.int 3) 0 2 :=
    .before ⟨.plain (.int 4), .plain .nil, chainEnd⟩ ⟨.plain (.int 0), .plain .nil, 3⟩ 2 0
      (by decide) (by decide) (by decide) (by decide) (by decide)
  obtain ⟨kept, _, _⟩ := links_are_kept_up_to_the_mark 4
  obtain ⟨_, e, stored, _, good⟩ :=
    kept b _ _ _ (.plain (.int 3)) (.plain .nil) 0 2 places links
  exact ⟨places, links, e, stored, good (by decide)⟩

/-- With one slot more than links can tell apart, the second key of a bucket is lost at once. -/
theorem second_is_lost (size : Nat) (one_more : size = maxSlots + 1) :
    (filled size (multiples 1)).Places (.insert (multiple 1) (multiple 1))
        (filled size (multiples 1)).grow (multiple 1).data ∧
      (filled size (multiples 1)).grow.Links (multiple 1).data 0 maxSlots ∧
      (∃ e, (filled size (multiples 2)).entryAt? 0 = some e ∧ e.isLast = true ∧ e.link = -1) ∧
      (filled size (multiples 2)).find? (multiple 1) = none := by
  have mark : 2 ≤ maxSlots := by decide
  obtain ⟨piled, held⟩ := multiples_pile size 1
  obtain ⟨grown, room⟩ := piled.grow (filled_tidy size _)
  have links := grown.links (hash_multiple 1) Nat.one_pos room
  rw [piled.size_grow, size_multiples_of_le size 1 (by omega), if_neg (by omega), one_more,
    Nat.add_sub_cancel, ← one_more] at links
  obtain ⟨e, present, stored⟩ := links.stored (multiple 1)
  obtain ⟨last, link⟩ := Entry.last_of_next (e := { e with next := UInt32.ofNat maxSlots }) rfl
  have next : filled size (multiples 2) =
      (filled size (multiples 1)).grow.place (multiple 1) (multiple 1) := insert_multiple held
  rw [next]
  refine ⟨.added _ _ rfl (locate_multiple held), links, ⟨_, stored, last, link⟩, ?_⟩
  rw [← Piled.mainPosition_of_hash (t := (filled size (multiples 1)).grow.place _ _)
    (hash_multiple 1)] at stored
  suffices other : e.key.data ≠ (multiple 1).data by
    rw [find?, locate?_behind_last stored other last]
    rfl
  obtain ⟨n, below, key⟩ := (held.grow.entry 0 e present).1
  intro same
  change e.key.data = _ at same
  rw [key] at same
  have equal := multiple_injective same
  omega

theorem top_slot_is_taken_for_the_end :
    (filled 16777216 (multiples 1)).Places (.insert (multiple 1) (multiple 1))
        (filled 16777216 (multiples 1)).grow (multiple 1).data ∧
      (filled 16777216 (multiples 1)).grow.Links (multiple 1).data 0 16777215 ∧
      (∃ e, (filled 16777216 (multiples 2)).entryAt? 0 = some e ∧ e.isLast = true ∧ e.link = -1) ∧
      (filled 16777216 (multiples 2)).find? (multiple 1) = none :=
  second_is_lost 16777216 rfl

end Table

end StaticImage
