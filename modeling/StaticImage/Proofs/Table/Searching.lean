import StaticImage.Proofs.Table.Keeping
import StaticImage.Proofs.Table.Lookup

namespace StaticImage.Table

inductive Visits (t : Table) : Nat → List Nat → Prop where
  | last (slot : Nat) (e : Entry) (present : t.entryAt? slot = some e)
      (ends : e.isLast = true) : Visits t slot [slot]
  | onward (slot : Nat) (e : Entry) (rest : List Nat) (present : t.entryAt? slot = some e)
      (more : e.isLast = false) (tail : Visits t e.next.toNat rest) : Visits t slot (slot :: rest)

/-- The loop that searches for a key: it is at a slot, came from the one before, if any, looks at some
slots in turn and ends with the slot of the key and the one before that, or without them. -/
inductive Search (t : Table) (key : Datum) :
    Nat → Option Nat → List Nat → Option (Nat × Option Nat) → Prop where
  | vacant (slot : Nat) (before : Option Nat) (inside : slot < t.size)
      (free : t.entryAt? slot = none) : Search t key slot before [slot] none
  | found (slot : Nat) (before : Option Nat) (e : Entry) (present : t.entryAt? slot = some e)
      (hit : e.key.data = key) : Search t key slot before [slot] (some (slot, before))
  | ended (slot : Nat) (before : Option Nat) (e : Entry) (present : t.entryAt? slot = some e)
      (miss : e.key.data ≠ key) (ends : e.isLast = true) : Search t key slot before [slot] none
  | onward (slot : Nat) (before : Option Nat) (e : Entry) (looked : List Nat)
      (result : Option (Nat × Option Nat)) (present : t.entryAt? slot = some e)
      (miss : e.key.data ≠ key) (more : e.isLast = false)
      (tail : Search t key e.next.toNat (some slot) looked result) :
      Search t key slot before (slot :: looked) result

/-- The loop that searches for the slot before a target: it is at a slot, looks at some slots in turn
and ends with the first one that links to the target. -/
inductive Backtrack (t : Table) (target : Nat) : Nat → List Nat → Nat → Prop where
  | found (slot : Nat) (e : Entry) (present : t.entryAt? slot = some e)
      (link : e.next.toNat = target) : Backtrack t target slot [slot] slot
  | onward (slot : Nat) (e : Entry) (looked : List Nat) (before : Nat)
      (present : t.entryAt? slot = some e) (away : e.next.toNat ≠ target)
      (tail : Backtrack t target e.next.toNat looked before) :
      Backtrack t target slot (slot :: looked) before

section

variable {t : Table} {key : Datum} {slot : Nat} {before : Option Nat} {looked : List Nat}
  {result : Option (Nat × Option Nat)}

theorem Search.inside (search : t.Search key slot before looked result) :
    ∀ other ∈ looked, other < t.size := by
  induction search with
  | vacant slot before inside free => simpa using inside
  | found slot before e present hit => simpa using entryAt?_lt t slot e present
  | ended slot before e present miss ends => simpa using entryAt?_lt t slot e present
  | onward slot before e looked result present miss more tail ih =>
      exact List.forall_mem_cons.mpr ⟨entryAt?_lt t slot e present, ih⟩

/-- With enough steps the bounded search is the loop. -/
theorem Search.follow (search : t.Search key slot before looked result) (steps : Nat)
    (enough : looked.length ≤ steps) : t.follow key steps slot before = result := by
  induction search generalizing steps with
  | vacant slot before inside free =>
      obtain ⟨steps, rfl⟩ := Nat.exists_eq_succ_of_ne_zero (Nat.ne_of_gt enough)
      simp only [Table.follow, free]
  | found slot before e present hit =>
      obtain ⟨steps, rfl⟩ := Nat.exists_eq_succ_of_ne_zero (Nat.ne_of_gt enough)
      rw [follow_step t key steps slot before e present, if_pos hit]
  | ended slot before e present miss ends =>
      obtain ⟨steps, rfl⟩ := Nat.exists_eq_succ_of_ne_zero (Nat.ne_of_gt enough)
      rw [follow_step t key steps slot before e present, if_neg miss, if_pos ends]
  | onward slot before e looked result present miss more tail ih =>
      rw [List.length_cons] at enough
      obtain ⟨steps, rfl⟩ := Nat.exists_eq_add_of_le' (Nat.le_trans (Nat.le_add_left 1 _) enough)
      rw [follow_step t key steps slot before e present, if_neg miss, more,
        if_neg Bool.false_ne_true]
      exact ih steps (Nat.le_of_succ_le_succ enough)

theorem Search.taken {last : Nat} {previous : Option Nat}
    (search : t.Search key slot before looked (some (last, previous)))
    (start : ∀ other ∈ before, t.entryAt? other ≠ none) :
    (∃ e, t.entryAt? last = some e ∧ e.key.data = key) ∧
      ∀ other ∈ previous, t.entryAt? other ≠ none := by
  generalize whole : some (last, previous) = result at search
  induction search with
  | vacant slot before inside free => cases whole
  | found slot before e present hit =>
      cases whole
      exact ⟨⟨e, present, hit⟩, start⟩
  | ended slot before e present miss ends => cases whole
  | onward slot before e looked result present miss more tail ih =>
      refine ih (fun other same => ?_) whole
      cases same
      rw [present]
      exact Option.some_ne_none e

theorem Visits.taken {path : List Nat} (visits : t.Visits slot path) :
    ∃ e, t.entryAt? slot = some e := by
  cases visits with
  | last _ e present ends => exact ⟨e, present⟩
  | onward _ e rest present more tail => exact ⟨e, present⟩

theorem Visits.search {path : List Nat} (visits : t.Visits slot path) (key : Datum)
    (before : Option Nat) : ∃ looked result,
      t.Search key slot before looked result ∧ looked.length ≤ path.length := by
  induction visits generalizing before with
  | last slot e present ends =>
      by_cases hit : e.key.data = key
      · exact ⟨_, _, .found slot before e present hit, Nat.le_refl 1⟩
      · exact ⟨_, _, .ended slot before e present hit ends, Nat.le_refl 1⟩
  | onward slot e rest present more tail ih =>
      by_cases hit : e.key.data = key
      · exact ⟨_, _, .found slot before e present hit, Nat.le_add_left 1 rest.length⟩
      · obtain ⟨looked, result, search, short⟩ := ih (some slot)
        exact ⟨_, _, .onward slot before e looked result present hit more search,
          Nat.succ_le_succ short⟩

end

section

variable {t : Table} {target slot before : Nat} {looked : List Nat}

theorem Backtrack.inside (search : t.Backtrack target slot looked before) :
    ∀ other ∈ looked, other < t.size := by
  induction search with
  | found slot e present link => simpa using entryAt?_lt t slot e present
  | onward slot e looked before present away tail ih =>
      exact List.forall_mem_cons.mpr ⟨entryAt?_lt t slot e present, ih⟩

theorem Backtrack.predecessor (search : t.Backtrack target slot looked before) (steps : Nat)
    (enough : looked.length ≤ steps) : t.predecessor target steps slot = before := by
  induction search generalizing steps with
  | found slot e present link =>
      obtain ⟨steps, rfl⟩ := Nat.exists_eq_succ_of_ne_zero (Nat.ne_of_gt enough)
      rw [predecessor_step t target steps slot e present, if_pos link]
  | onward slot e looked before present away tail ih =>
      rw [List.length_cons] at enough
      obtain ⟨steps, rfl⟩ := Nat.exists_eq_add_of_le' (Nat.le_trans (Nat.le_add_left 1 _) enough)
      rw [predecessor_step t target steps slot e present, if_neg away]
      exact ih steps (Nat.le_of_succ_le_succ enough)

/-- The search reads the slots only, not the counters. -/
theorem Backtrack.reserve (search : t.Backtrack target slot looked before) (free : Nat) :
    (t.reserve free).Backtrack target slot looked before := by
  induction search with
  | found slot e present link => exact .found slot e present link
  | onward slot e looked before present away tail ih =>
      exact .onward slot e looked before present away ih

theorem Visits.backtrack {path : List Nat} (visits : t.Visits slot path)
    (member : target ∈ path.tail) : ∃ looked before,
      t.Backtrack target slot looked before ∧ looked.length ≤ path.length := by
  induction visits with
  | last slot e present ends => cases member
  | onward slot e rest present more tail ih =>
      by_cases next : e.next.toNat = target
      · exact ⟨_, _, .found slot e present next, Nat.le_add_left 1 rest.length⟩
      · -- The next slot is not the target, so the target is further on from there.
        have further : target ∈ rest.tail := by
          rw [List.tail_cons] at member
          cases tail with
          | last => exact (next (List.mem_singleton.mp member).symm).elim
          | onward => exact (List.mem_cons.mp member).resolve_left fun same => next same.symm
        obtain ⟨looked, before, search, short⟩ := ih further
        exact ⟨_, _, .onward slot e looked before present next search, Nat.succ_le_succ short⟩

end

theorem Linked.visits {t : Table} (rest : List Nat) (first : Nat)
    (linked : t.Linked (first :: rest)) (small : ∀ slot ∈ rest, slot < maxSlots) :
    t.Visits first (first :: rest) := by
  induction rest generalizing first with
  | nil =>
      obtain ⟨⟨e, present, link⟩, _⟩ := linked
      have ended : e.next = chainEnd := link
      exact .last first e present (by simpa [Entry.isLast] using ended)
  | cons second rest ih =>
      obtain ⟨⟨e, present, link⟩, tail⟩ := linked
      have bound := small second List.mem_cons_self
      have further := ih second tail fun slot member => small slot (List.mem_cons_of_mem second member)
      refine .onward first e _ present ?_ ?_
      · simpa [Entry.isLast, link] using linkTo_ne_chainEnd second rest bound
      · rwa [link, linkTo_toNat second rest bound]

namespace Valid

variable {t : Table} (valid : t.Valid)

include valid

/-- From any slot that is taken the links end after at most as many slots as there are. -/
theorem visits (slot : Nat) (e : Entry) (present : t.entryAt? slot = some e) :
    ∃ path, t.Visits slot path ∧ path.length ≤ t.size := by
  obtain ⟨front, rest, chain⟩ := valid.chain_through slot e present
  have short := chain.length_le_size
  rw [List.length_append] at short
  refine ⟨slot :: rest, (chain.linked.drop front _).visits rest slot fun other member => ?_,
    Nat.le_of_add_left_le short⟩
  exact chain.small valid other (List.mem_append_right front (List.mem_cons_of_mem slot member))

theorem bucket (slot main : Nat) (home : t.homeAt? slot = some main) :
    ∃ rest, t.Chain main (main :: rest) ∧ t.Visits main (main :: rest) := by
  obtain ⟨slots, chain⟩ := valid.chained main
  have member := (chain.covers slot).mpr home
  cases slots with
  | nil => cases member
  | cons first rest =>
      have start : first = main := chain.starts first rfl
      subst start
      refine ⟨rest, chain, chain.linked.visits rest first ?_⟩
      intro other inside
      exact chain.small valid other (List.mem_cons_of_mem first inside)

/-- The search for a key in a table with slots ends with what the table answers. -/
theorem search (key : Datum) (room : 0 < t.size) : ∃ looked,
    t.Search key (t.mainPosition key) none looked (t.locate? key) ∧ looked.length ≤ t.size := by
  obtain ⟨looked, result, search, short⟩ : ∃ looked result,
      t.Search key (t.mainPosition key) none looked result ∧ looked.length ≤ t.size := by
    cases start : t.entryAt? (t.mainPosition key) with
    | none => exact ⟨_, _, .vacant _ none (Nat.mod_lt _ room) start, room⟩
    | some e =>
        obtain ⟨path, visits, length⟩ := valid.visits _ e start
        obtain ⟨looked, result, search, short⟩ := visits.search key none
        exact ⟨looked, result, search, Nat.le_trans short length⟩
  have answer : t.locate? key = result := search.follow t.size short
  exact ⟨looked, answer ▸ search, short⟩

/-- The search for the slot before a key that is away from its main position ends. -/
theorem backtrack (slot : Nat) (e : Entry) (present : t.entryAt? slot = some e)
    (away : t.mainPosition e.key.data ≠ slot) : ∃ looked before,
      t.Backtrack slot (t.mainPosition e.key.data) looked before ∧ looked.length ≤ t.size := by
  have home : t.homeAt? slot = some (t.mainPosition e.key.data) := by
    rw [homeAt?, present]
    rfl
  obtain ⟨rest, chain, visits⟩ := valid.bucket slot _ home
  have member := (List.mem_cons.mp ((chain.covers slot).mpr home)).resolve_left away.symm
  obtain ⟨looked, before, search, short⟩ := visits.backtrack member
  exact ⟨looked, before, search, Nat.le_trans short chain.length_le_size⟩

end Valid

end StaticImage.Table
